import NzRust.Row.Dbos
import NzRust.Row.TextRow

/-!
# Lazy rows

A row over its wire payload. The spans of its fields are found as far as they
are asked for, each value is kept once it is decoded, and so is the whole row.
An accessor takes the row and gives it back, since it may have filled any of
these on its way, also when it fails.
-/

namespace NzRust

open ByteString Checked

/-- The spans found so far and where to look for the next one. -/
structure Progress where
  cursor : Nat
  spans : List UInt64
  deriving DecidableEq, Repr

inductive RawKind where
  | text
  | dbos (desc : DbosTupleDesc)

structure RawRow (N : Numerics) where
  columns : List ColumnDesc
  payload : Bytes
  kind : RawKind
  decoded : Option (List (NzValue N)) := none
  cells : Option (List (Option (NzValue N))) := none
  progress : Progress

namespace RawRow

def spanStart (packed : UInt64) : Nat :=
  (packed >>> 32).toNat % 2 ^ 32

def spanEnd (packed : UInt64) : Nat :=
  packed.toNat % 2 ^ 32

def packRowSpan (start stop : Nat) : Exec NzError UInt64 :=
  if 2 ^ 32 ≤ start then fail (.protocol "row field offset is out of range")
  else if 2 ^ 32 ≤ stop then fail (.protocol "row field end is out of range")
  else .ok (DbosTupleDesc.packSpan start stop)

def outOfRange : NzError :=
  .config "row index out of range"

/-! ## Spans of text rows -/

/-- The span of the next cell and the cursor behind it. -/
def nextTextCell (payload : Bytes) (p : Progress) : Exec NzError (Nat × Nat × Nat) := do
  let field := p.spans.length
  let here ← TextRow.present payload field
  if here = false then return (p.cursor, p.cursor, p.cursor)
  else
    let prefixEnd ← orFail (.protocol "DataRow field prefix overflow") (addChecked 64 p.cursor 4)
    let bytes ← orFail (.protocol s!"DataRow column {field} length is truncated")
      (getSlice payload p.cursor prefixEnd)
    let length ← int 32 (beInt bytes - 4)
    if length < 0 then fail (.protocol s!"DataRow column {field} length is invalid")
    else
      let stop ← orFail (.protocol s!"DataRow column {field} value length overflow")
        (addChecked 64 prefixEnd length.toNat)
      if payload.length < stop then
        fail (.protocol s!"DataRow column {field} value length is invalid")
      else return (prefixEnd, stop, stop)

/-- One turn of `ensure_text_spans`. The cursor has moved even when the span does not pack. -/
def textTurn (payload : Bytes) (p : Progress) : Exec NzError Unit × Progress :=
  match nextTextCell payload p with
  | .error e => (.error e, p)
  | .ok (start, stop, cursor) =>
      match packRowSpan start stop with
      | .error e => (.error e, { p with cursor := cursor })
      | .ok span => (.ok (), ⟨cursor, p.spans ++ [span]⟩)

def textTurns (payload : Bytes) : Nat → Progress → Exec NzError Unit × Progress
  | 0, p => (.ok (), p)
  | n + 1, p =>
      match textTurn payload p with
      | (.error e, p') => (.error e, p')
      | (.ok (), p') => textTurns payload n p'

def ensureTextSpans (payload : Bytes) (p : Progress) (count : Nat) :
    Exec NzError Unit × Progress :=
  textTurns payload (count - p.spans.length) p

/-! ## Spans of binary rows -/

def dbosTurn (payload : Bytes) (desc : DbosTupleDesc) (p : Progress) : Exec NzError Progress :=
  let field := p.spans.length
  if desc.numVaryingFields.toNat ≤ field then
    fail (.protocol s!"DBOS varying field {field} index is invalid")
  else do
    let prefixEnd ← orFail (.protocol "DBOS varying field prefix overflow")
      (addChecked 64 p.cursor 2)
    let bytes ← orFail (.protocol s!"DBOS varying field {field} length prefix is truncated")
      (getSlice payload p.cursor prefixEnd)
    let encoded := leNat bytes
    let valueEnd ← orFail (.protocol "DBOS varying field length overflow")
      (addChecked 64 p.cursor encoded)
    if encoded < 2 ∨ payload.length < valueEnd then
      fail (.protocol s!"DBOS varying field {field} length is invalid")
    else
      let next ← addWord 64 valueEnd (encoded % 2)
      if payload.length < next then
        fail (.protocol s!"DBOS varying field {field} padding is truncated")
      else
        let span ← packRowSpan p.cursor valueEnd
        return ⟨next, p.spans ++ [span]⟩

def dbosTurns (payload : Bytes) (desc : DbosTupleDesc) :
    Nat → Progress → Exec NzError Unit × Progress
  | 0, p => (.ok (), p)
  | n + 1, p =>
      match dbosTurn payload desc p with
      | .error e => (.error e, p)
      | .ok p' => dbosTurns payload desc n p'

def ensureDbosSpans (payload : Bytes) (desc : DbosTupleDesc) (p : Progress) (count : Nat) :
    Exec NzError Unit × Progress :=
  dbosTurns payload desc (count - p.spans.length) p

/-- `dbos_span`: where a field lies, or none for a null. A varying one begins with its length. -/
def dbosSpan (payload : Bytes) (desc : DbosTupleDesc) (p : Progress) (i : Nat) :
    Exec NzError (Option (Nat × Nat)) × Progress :=
  if desc.numFields ≤ i then
    (fail (.config s!"row field index {i} is out of range"), p)
  else
    match index desc.fields i with
    | .error e => (.error e, p)
    | .ok f =>
        match desc.isNull payload f with
        | .error e => (.error e, p)
        | .ok true => (.ok none, p)
        | .ok false =>
            if f.fixedSize ≠ 0 then
              if f.offset < 0 then
                (fail (.protocol s!"DBOS fixed field {i} has an invalid offset"), p)
              else
                (do
                  let width ← lift (DbosTupleDesc.fixedWidth f)
                  let stop ← orFail (.protocol "DBOS field offset overflow")
                    (addChecked 64 f.offset.toNat width)
                  return some (f.offset.toNat, stop), p)
            else if desc.numVaryingFields = 0 then
              -- Older descriptors have no varying fields in the row.
              if desc.fixedFieldsSize < 0 then
                (fail (.protocol "DBOS fixed-field area offset is invalid"), p)
              else if payload.length < desc.fixedFieldsSize.toNat then
                (fail (.protocol s!"DBOS field {i} starts outside the row"), p)
              else (.ok (some (desc.fixedFieldsSize.toNat, payload.length)), p)
            else if f.offset < 0 then
              (fail (.protocol s!"DBOS varying field {i} has an invalid index"), p)
            else
              match ensureDbosSpans payload desc p (f.offset.toNat + 1) with
              | (.error e, p') => (.error e, p')
              | (.ok (), p') =>
                  (do
                    let span ← orFail (.protocol "DBOS row layout was not discovered")
                      p'.spans[f.offset.toNat]?
                    return some (spanStart span, spanEnd span), p')

/-! ## Values -/

section Values

variable {N : Numerics} (ops : NumberOps N)

def textSpan (payload : Bytes) (columns : List ColumnDesc) (p : Progress) (i : Nat) :
    Exec NzError (Option (Nat × Nat)) × Progress :=
  if columns.length ≤ i then (fail outOfRange, p)
  else
    match ensureTextSpans payload p (i + 1) with
    | (.error e, p') => (.error e, p')
    | (.ok (), p') =>
        (do
          let byte ← orFail (.protocol "DataRow null bitmap is truncated") payload[i / 8]?
          let span ← index p'.spans i
          if byte &&& (1 <<< UInt8.ofNat (7 - i % 8)) = 0 then return none
          else return some (spanStart span, spanEnd span), p')

/-- The value of a cell whose bytes are known. -/
def textValue (column : ColumnDesc) (payload : Bytes) (start stop : Nat) :
    Exec NzError (NzValue N) := do
  let bytes ← slice payload start stop
  let text ← orFail (.protocol "invalid UTF-8 field") (fromUtf8 bytes)
  lift (tryParseTextValue ops text column.typeOid column.typeMod)

def decodeValue (row : RawRow N) (i : Nat) : Exec NzError (NzValue N) × Progress :=
  match row.kind with
  | .text =>
      match textSpan row.payload row.columns row.progress i with
      | (.error e, p) => (.error e, p)
      | (.ok none, p) => (.ok .null, p)
      | (.ok (some span), p) =>
          (do
            let column ← orFail (.protocol "text row has more fields than its description")
              row.columns[i]?
            textValue ops column row.payload span.1 span.2, p)
  | .dbos desc =>
      match dbosSpan row.payload desc row.progress i with
      | (.error e, p) => (.error e, p)
      | (.ok none, p) => (.ok .null, p)
      | (.ok (some span), p) =>
          (do
            let f ← index desc.fields i
            DbosTupleDesc.parseField ops row.payload span.1 i f, p)

/-- An error of a cell names its column. -/
def cellError (i : Nat) (columns : List ColumnDesc) : Fault NzError → Exec NzError (NzValue N)
  | .error e => do
      let column ← index columns i
      fail (.protocol s!"cannot decode column {i} (type {column.typeOid}): {e.display}")
  | .panic => panics

/-- `RawRowData::value`. -/
def value (row : RawRow N) (i : Nat) : Exec NzError (NzValue N) × RawRow N :=
  match row.decoded with
  | some values => (orFail outOfRange values[i]?, row)
  | none =>
      let cells := row.cells.getD (row.columns.map fun _ => none)
      let row := { row with cells := some cells }
      match cells[i]? with
      | none => (fail outOfRange, row)
      | some (some v) => (.ok v, row)
      | some none =>
          match row.decodeValue ops i with
          | (.error e, p) => (cellError i row.columns e, { row with progress := p })
          | (.ok v, p) =>
              (.ok v, { row with progress := p, cells := some (cells.set i (some v)) })

/-! ## The whole row -/

/-- The cells from a column on, once all spans are there. -/
def textValues (payload : Bytes) (spans : List UInt64) :
    Nat → List ColumnDesc → Exec NzError (List (NzValue N))
  | _, [] => .ok []
  | i, column :: columns => do
      let here ← TextRow.present payload i
      let span ← index spans i
      let v ← (if here = false then .ok .null
        else textValue ops column payload (spanStart span) (spanEnd span))
      let values ← textValues payload spans (i + 1) columns
      return v :: values

/-- The start of a field when the varying spans are there. -/
def dbosStart (desc : DbosTupleDesc) (spans : List UInt64) (i : Nat) (f : DbosField) :
    Exec NzError Nat :=
  if f.fixedSize ≠ 0 then
    if f.offset < 0 then fail (.protocol s!"DBOS fixed field {i} has an invalid offset")
    else .ok f.offset.toNat
  else if desc.numVaryingFields.toNat = 0 then
    if desc.fixedFieldsSize < 0 then fail (.protocol "DBOS fixed-field area offset is invalid")
    else .ok desc.fixedFieldsSize.toNat
  else if f.offset < 0 then fail (.protocol s!"DBOS varying field {i} has an invalid index")
  else do
    let span ← orFail (.protocol "DBOS row layout was not discovered") spans[f.offset.toNat]?
    return spanStart span

/-- The fields from an index on, as many as there are columns. -/
def dbosValues (payload : Bytes) (desc : DbosTupleDesc) (spans : List UInt64) :
    Nat → List ColumnDesc → Exec NzError (List (NzValue N))
  | _, [] => .ok []
  | i, _ :: columns => do
      let f ← index desc.fields i
      let null ← desc.isNull payload f
      let v ← (if null then .ok .null
        else do
          let start ← dbosStart desc spans i f
          DbosTupleDesc.parseField ops payload start i f)
      let values ← dbosValues payload desc spans (i + 1) columns
      return v :: values

def decodeAll (row : RawRow N) : Exec NzError (List (NzValue N)) × Progress :=
  match row.kind with
  | .text =>
      match ensureTextSpans row.payload row.progress row.columns.length with
      | (.error e, p) => (.error e, p)
      | (.ok (), p) => (textValues ops row.payload p.spans 0 row.columns, p)
  | .dbos desc =>
      if desc.numFields < row.columns.length then
        (fail (.config s!"row has {row.columns.length} columns but its descriptor declares {desc.numFields} fields"),
          row.progress)
      else
        match ensureDbosSpans row.payload desc row.progress desc.numVaryingFields.toNat with
        | (.error e, p) => (.error e, p)
        | (.ok (), p) => (dbosValues ops row.payload desc p.spans 0 row.columns, p)

/-! ## Accessors -/

/-- `try_get_value` by ordinal. -/
def tryGetValue (row : RawRow N) (i : Nat) : Exec NzError (NzValue N) × RawRow N :=
  if row.columns.length ≤ i then
    (fail (.config s!"row index out of range: ordinal {i}"), row)
  else row.value ops i

def tryValues (row : RawRow N) : Exec NzError (List (NzValue N)) × RawRow N :=
  match row.decoded with
  | some values => (.ok values, row)
  | none =>
      match row.decodeAll ops with
      | (.error e, p) => (.error e, { row with progress := p })
      | (.ok values, p) => (.ok values, { row with progress := p, decoded := some values })

def fromTextRaw (columns : List ColumnDesc) (payload : Bytes) : Exec NzError (RawRow N) := do
  TextRow.validateTextRow payload columns
  return {
    columns := columns, payload := payload, kind := .text
    progress := ⟨TextRow.bitmapLen columns.length, []⟩ }

def fromDbosRaw (columns : List ColumnDesc) (payload : Bytes) (desc : DbosTupleDesc) :
    Exec NzError (RawRow N) := do
  let spans ← desc.validateRowLayout payload
  return {
    columns := columns, payload := payload, kind := .dbos desc
    progress := ⟨desc.fixedFieldsSize.toNat, spans⟩ }

/-- What a caller may ask of a row. -/
inductive Access where
  | get (i : Nat)
  | all
  deriving DecidableEq, Repr

/-- What it is given. -/
inductive Answer (N : Numerics) where
  | value (result : Exec NzError (NzValue N))
  | values (result : Exec NzError (List (NzValue N)))

def answer (row : RawRow N) : Access → Answer N × RawRow N
  | .get i =>
      let result := row.tryGetValue ops i
      (.value result.1, result.2)
  | .all =>
      let result := row.tryValues ops
      (.values result.1, result.2)

/-- The answers to a sequence of accesses. -/
def answers (row : RawRow N) : List Access → List (Answer N)
  | [] => []
  | access :: rest =>
      let result := row.answer ops access
      result.1 :: result.2.answers rest

end Values

end RawRow

end NzRust
