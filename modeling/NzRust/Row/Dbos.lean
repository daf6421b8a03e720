import NzRust.Row.Columns
import NzRust.Types.Machine
import NzRust.Types.Numeric

/-!
# Binary rows

The descriptor of a binary result set and the rows under it, with every slice,
index and machine operation of the source as a step that could panic. A row has
two reserved bytes, a null bitmap, a fixed area and varying fields, each behind
a little-endian length that counts itself and is padded to even size.
-/

namespace NzRust

open ByteString Checked

/-- What the decoders tell apart among the DBOS types. -/
inductive FieldKind where
  | char
  /-- NCHAR and NVARCHAR. -/
  | nchar
  /-- VARCHAR, VAR_FIXED_CHAR, JSON and JSONPATH. -/
  | varchar
  | int8
  | int
  | int2
  | int1
  | double
  | float
  | date
  | time
  | interval
  | timetz
  | timestamp
  | bool
  | numeric
  | opaqueBytes
  deriving DecidableEq, Repr

def FieldKind.ofType (fieldType : Int) : FieldKind :=
  if fieldType = 15 then .char
  else if fieldType = 25 ∨ fieldType = 26 then .nchar
  else if fieldType = 16 ∨ fieldType = 21 ∨ fieldType = 30 ∨ fieldType = 32 then .varchar
  else if fieldType = 20 then .int8
  else if fieldType = 3 then .int
  else if fieldType = 19 then .int2
  else if fieldType = 13 then .int1
  else if fieldType = 2 then .double
  else if fieldType = 4 then .float
  else if fieldType = 6 then .date
  else if fieldType = 8 then .time
  else if fieldType = 10 then .interval
  else if fieldType = 11 then .timetz
  else if fieldType = 9 then .timestamp
  else if fieldType = 12 then .bool
  else if fieldType = 7 then .numeric
  else .opaqueBytes

def DbosField.kind (f : DbosField) : FieldKind :=
  .ofType f.fieldType

/-- The types of a kind, apart from the opaque ones. -/
def FieldKind.types : FieldKind → List Int
  | .char => [15]
  | .nchar => [25, 26]
  | .varchar => [16, 21, 30, 32]
  | .int8 => [20]
  | .int => [3]
  | .int2 => [19]
  | .int1 => [13]
  | .double => [2]
  | .float => [4]
  | .date => [6]
  | .time => [8]
  | .interval => [10]
  | .timetz => [11]
  | .timestamp => [9]
  | .bool => [12]
  | .numeric => [7]
  | .opaqueBytes => []

theorem FieldKind.mem_types (t : Int) :
    t ∈ (FieldKind.ofType t).types ∨ FieldKind.ofType t = .opaqueBytes := by
  have hite : ∀ (c : Prop) [Decidable c] (a b : FieldKind), (c → t ∈ a.types) →
      (t ∈ b.types ∨ b = .opaqueBytes) →
      (t ∈ (if c then a else b).types ∨ (if c then a else b) = .opaqueBytes) := by
    intro c _ a b ha hb
    by_cases hc : c
    · rw [if_pos hc]
      exact .inl (ha hc)
    · rw [if_neg hc]
      exact hb
  unfold FieldKind.ofType
  repeat'
    apply hite
    · intro h
      simpa [types] using h
  exact .inr rfl

theorem DbosField.type_of_kind {f : DbosField} {t : Int} (h : f.kind.types = [t]) :
    f.fieldType = t := by
  obtain hmem | hbytesKind := FieldKind.mem_types f.fieldType
  · change f.fieldType ∈ f.kind.types at hmem
    rw [h] at hmem
    simpa using hmem
  · change f.kind = .opaqueBytes at hbytesKind
    rw [hbytesKind] at h
    cases h

namespace DbosTupleDesc

/-! ## Reads -/

def be32At (data : Bytes) (off : Nat) : Exec NzError Int := do
  let stop ← addWord 64 off 4
  let bytes ← slice data off stop
  return beInt bytes

/-- The `u16` length prefix at an offset. -/
def lengthAt (row : Bytes) (off : Nat) : Exec NzError Nat := do
  let stop ← addWord 64 off 2
  let bytes ← slice row off stop
  return leNat bytes

/-- `is_none_or(|end| end > row.len())`. -/
def overruns (row : Bytes) (stop : Option Nat) : Bool :=
  stop.all fun stop => decide (row.length < stop)

/-! ## The descriptor -/

/-- The fields `ix` and following, from offset `idx` on. -/
def parseFieldsAt (data : Bytes) (cached : Option (List ColumnDesc)) :
    (count ix idx : Nat) → Exec NzError (List DbosField)
  | 0, _, idx => do
      -- the date style and order behind the last field
      let _ ← be32At data idx
      let _ ← be32At data (← addWord 64 idx 4)
      return []
  | count + 1, ix, idx => do
      let ft ← be32At data idx
      let size ← be32At data (← addWord 64 idx 4)
      let trueSize ← be32At data (← addWord 64 idx 8)
      let offset ← be32At data (← addWord 64 idx 12)
      let physField ← be32At data (← addWord 64 idx 16)
      let fixedSize ← be32At data (← addWord 64 idx 28)
      if physField < 0 ∨ 100000 < physField ∨ size < -1 ∨ trueSize < -1 ∨ offset < 0 ∨
          fixedSize < 0 then
        fail (.protocol s!"invalid DBOS column {ix} layout")
      else
        let _ ← be32At data (← addWord 64 idx 20)
        let nullAllowed ← be32At data (← addWord 64 idx 24)
        let _ ← be32At data (← addWord 64 idx 32)
        let fields ← parseFieldsAt data cached count (ix + 1) (← addWord 64 idx 36)
        let field : DbosField :=
          { fieldType :=
              restoredType ft ((cached.bind fun columns => columns[ix]?).map (·.typeOid))
            size := size
            trueSize := trueSize
            offset := offset
            physField := physField.toNat
            nullAllowed := nullAllowed != 0
            fixedSize := fixedSize }
        return field :: fields

/-- `parse` with its reads. -/
def parseAt (data : Bytes) (cached : Option (List ColumnDesc)) : Exec NzError DbosTupleDesc :=
  if data.length < 36 then
    fail (.protocol "Invalid RowDescriptionStandard payload: descriptor header is truncated; reconnect is required.")
  else do
    let _ ← be32At data 0
    let nullsAllowed ← be32At data 4
    let _ ← be32At data 8
    let _ ← be32At data 12
    let numFixed ← be32At data 16
    let numVarying ← be32At data 20
    let fixedFieldsSize ← be32At data 24
    let maxRecordSize ← be32At data 28
    let numFields ← be32At data 32
    if numFields < 0 ∨ 100000 < numFields then
      fail (.protocol s!"Invalid RowDescriptionStandard payload: field count {numFields} is out of range; reconnect is required.")
    else if numFixed < 0 ∨ numVarying < 0 ∨ numFields < numFixed ∨ numFields < numVarying ∨
        fixedFieldsSize < 0 ∨ maxRecordSize < 0 then
      fail (.protocol "invalid DBOS field counts or record sizes")
    else if (cached.map fun columns => decide (columns.length ≠ numFields.toNat)) = some true then
      fail (.protocol "text and DBOS column counts differ")
    else
      let fieldBytes ← mulWord 64 numFields.toNat 36
      let descriptorLen ← addWord 64 36 fieldBytes
      let descriptorLen ← addWord 64 descriptorLen 8
      let _ ← lift (validateProtocolLength descriptorLen "rowDescriptionStandardDescriptor" true)
      if data.length < descriptorLen then
        fail (.protocol s!"Invalid RowDescriptionStandard payload: expected at least {descriptorLen} bytes, received {data.length}; reconnect is required.")
      else
        let fields ← parseFieldsAt data cached numFields.toNat 0 36
        return ⟨nullsAllowed, numVarying, fixedFieldsSize, fields⟩

theorem be32At_eq {data : Bytes} {off : Nat} (h : off + 4 ≤ data.length) (hsmall : off < 2 ^ 32) :
    be32At data off = .ok (be32 data off) := by
  rw [be32At, addWord_eq (by omega), ok_bind, slice_eq (by omega) h, ok_bind,
    Nat.add_sub_cancel_left]
  rfl

theorem be32_drop (data : Bytes) (idx off : Nat) : be32 (data.drop idx) off = be32 data (idx + off) := by
  rw [be32, be32, List.drop_drop]

/-- With all bytes there, reading the fields is reading them off the string. -/
theorem parseFieldsAt_eq {data : Bytes} (cached : Option (List ColumnDesc)) (count ix idx : Nat)
    (h : idx + count * 36 + 8 ≤ data.length) (hsmall : idx + count * 36 < 2 ^ 30) :
    parseFieldsAt data cached count ix idx =
      lift (parseFields cached count ix (data.drop idx)) := by
  induction count generalizing ix idx with
  | zero =>
      rw [parseFieldsAt, be32At_eq (by omega) (by omega), ok_bind, addWord_eq (by omega), ok_bind,
        be32At_eq (by omega) (by omega), ok_bind]
      rfl
  | succ count ih =>
      rw [parseFieldsAt]
      simp (disch := omega) only [be32At_eq, addWord_eq, ok_bind]
      rw [parseFields]
      simp only [be32_drop, Nat.add_zero, List.drop_drop]
      by_cases hbad : be32 data (idx + 16) < 0 ∨ 100000 < be32 data (idx + 16) ∨
          be32 data (idx + 4) < -1 ∨ be32 data (idx + 8) < -1 ∨ be32 data (idx + 12) < 0 ∨
            be32 data (idx + 28) < 0
      · rw [if_pos hbad, if_pos hbad]
        rfl
      · rw [if_neg hbad, if_neg hbad, ih (ix + 1) (idx + 36) (by omega) (by omega)]
        cases parseFields cached count (ix + 1) (data.drop (idx + 36)) with
        | ok fields => rfl
        | error e => rfl

/-- Reading a descriptor never panics: it ends as `parse` does. -/
theorem parseAt_eq (data : Bytes) (cached : Option (List ColumnDesc)) :
    parseAt data cached = lift (parse data cached) := by
  unfold parseAt parse
  by_cases hshort : data.length < 36
  · rw [if_pos hshort, if_pos hshort]
    rfl
  rw [if_neg hshort, if_neg hshort]
  dsimp only
  simp (disch := omega) only [be32At_eq, ok_bind]
  by_cases hcount : be32 data 32 < 0 ∨ 100000 < be32 data 32
  · rw [if_pos hcount, if_pos hcount]
    rfl
  rw [if_neg hcount, if_neg hcount]
  split
  · rfl
  split
  · rfl
  rw [mulWord_eq (by omega), ok_bind, addWord_eq (by omega), ok_bind, addWord_eq (by omega), ok_bind]
  cases validateProtocolLength ((36 + (be32 data 32).toNat * 36 + 8 : Nat) : Int)
      "rowDescriptionStandardDescriptor" true with
  | error e => rfl
  | ok n =>
      rw [lift, ok_bind]
      dsimp only
      split
      · rfl
      rw [parseFieldsAt_eq cached _ 0 36 (by omega) (by omega)]
      cases parseFields cached (be32 data 32).toNat 0 (data.drop 36) with
      | ok fields => rfl
      | error e => rfl

/-! ## The layout of a row -/

def protocolTrunc (i : Nat) : NzError :=
  .protocol s!"Invalid RowStandard payload: field {i} is truncated; reconnect is required."

def invalidRow (detail : String) : NzError :=
  .protocol s!"Invalid RowStandard payload: {detail}; reconnect is required."

/-- The vectors of the descriptor have equal lengths by construction. -/
def validateRowBitmap (desc : DbosTupleDesc) (row : Bytes) : Exec NzError Unit :=
  if desc.numVaryingFields < 0 ∨ (desc.numFields : Int) < desc.numVaryingFields then
    fail (.protocol "inconsistent DBOS descriptor")
  else if row.length < 2 ∨
      desc.nullsAllowed ≠ 0 ∧ desc.fields.any fun f => decide (row.length ≤ f.nullByteOffset) then
    fail (.protocol "truncated DBOS row null bitmap")
  else .ok ()

def isNull (desc : DbosTupleDesc) (row : Bytes) (f : DbosField) : Exec NzError Bool :=
  if desc.nullsAllowed = 0 then .ok false
  else if row.length ≤ f.nullByteOffset then .ok false
  else do
    let byte ← index row f.nullByteOffset
    return byte &&& f.nullBitMask != 0

/-- The start of a field, from the starts of the varying ones. -/
def rowFieldStart (desc : DbosTupleDesc) (row : Bytes) (i : Nat) (f : DbosField)
    (varyingStarts : List Nat) : Exec NzError Nat :=
  if f.fixedSize ≠ 0 then
    if f.fixedSize < 0 then fail (invalidRow s!"fixed field {i} size is invalid")
    else if f.offset < 0 then fail (invalidRow s!"fixed field {i} offset is invalid")
    else do
      let width ← lift (fixedWidth f)
      if overruns row (addChecked 64 f.offset.toNat width) then
        fail (invalidRow s!"fixed field {i} extends beyond the row")
      else return f.offset.toNat
  else if varyingStarts ≠ [] then
    if f.offset < 0 ∨ varyingStarts.length ≤ f.offset.toNat then
      fail (invalidRow s!"varying field {i} index is invalid")
    else do
      let start ← index varyingStarts f.offset.toNat
      let encoded ← lengthAt row start
      if encoded < 2 ∨ overruns row (addChecked 64 start encoded) then
        fail (invalidRow s!"varying field {i} extends beyond the row")
      else return start
  else if desc.fixedFieldsSize < 0 then fail (invalidRow "fixed-field area offset is invalid")
  else if row.length < desc.fixedFieldsSize.toNat then
    fail (invalidRow s!"field {i} starts outside the row")
  else .ok desc.fixedFieldsSize.toNat

/-- The end of a fixed field's area. -/
def fixedEnd (i : Nat) (f : DbosField) (start : Nat) : Exec NzError (Option Nat) :=
  if f.fixedSize ≠ 0 then do
    let width ← lift (fixedWidth f)
    let stop ← orFail (protocolTrunc i) (addChecked 64 start width)
    return some stop
  else .ok none

def validateRowFieldStorage (row : Bytes) (i : Nat) (f : DbosField) (start : Nat) :
    Exec NzError Unit := do
  let bound ← fixedEnd i f start
  match f.kind with
  | .char =>
      if f.size < 0 then fail (protocolTrunc i)
      else
        let stop ← orFail (protocolTrunc i) (addChecked 64 start f.size.toNat)
        if row.length < stop ∨ bound.any (fun b => decide (b < stop)) then fail (protocolTrunc i)
        else return ()
  | .nchar | .varchar =>
      if overruns row (addChecked 64 start 2) then fail (protocolTrunc i)
      else
        let prefixEnd ← addWord 64 start 2
        if bound.any (fun b => decide (b < prefixEnd)) then fail (protocolTrunc i)
        else
          let encoded ← lengthAt row start
          let stop ← orFail (protocolTrunc i) (addChecked 64 start encoded)
          if encoded < 2 ∨ row.length < stop ∨ bound.any (fun b => decide (b < stop)) then
            fail (protocolTrunc i)
          else return ()
  | .timetz =>
      if f.size < 0 then fail (protocolTrunc i)
      else
        let stop ← orFail (protocolTrunc i) (addChecked 64 start f.size.toNat)
        if f.size < 12 ∨ row.length < stop ∨ bound.any (fun b => decide (b < stop)) then
          fail (protocolTrunc i)
        else return ()
  | _ => return ()

/-- A start and an end of 32 bits each in one word. -/
def packSpan (start stop : Nat) : UInt64 :=
  UInt64.ofNat start <<< 32 ||| UInt64.ofNat stop

/-- The spans of the varying fields, as `validate_row_layout` walks over them. -/
def varyingSpans (row : Bytes) : (count j cursor : Nat) → Exec NzError (List UInt64)
  | 0, _, _ => .ok []
  | count + 1, j, cursor =>
      if overruns row (addChecked 64 cursor 2) then
        fail (invalidRow s!"varying field {j} length prefix is truncated")
      else do
        let encoded ← lengthAt row cursor
        let valueEnd := addChecked 64 cursor encoded
        if encoded < 2 ∨ overruns row valueEnd then
          fail (invalidRow s!"varying field {j} length is invalid")
        else
          match valueEnd with
          | none => panics
          | some valueEnd =>
              if 2 ^ 32 ≤ cursor then fail (invalidRow "varying field offset is out of range")
              else if 2 ^ 32 ≤ valueEnd then fail (invalidRow "varying field end is out of range")
              else
                let next ← (if encoded % 2 ≠ 0 then addWord 64 valueEnd 1 else .ok valueEnd)
                if row.length < next then
                  fail (invalidRow s!"varying field {j} padding is truncated")
                else
                  let spans ← varyingSpans row count (j + 1) next
                  return packSpan cursor valueEnd :: spans

/-- The place of every field that is not null. -/
def checkPlaces (desc : DbosTupleDesc) (row : Bytes) : Nat → List DbosField → Exec NzError Unit
  | _, [] => .ok ()
  | i, f :: fields => do
      let null ← desc.isNull row f
      if null then checkPlaces desc row (i + 1) fields
      else if f.fixedSize ≠ 0 then
        if f.fixedSize < 0 then fail (invalidRow s!"fixed field {i} size is invalid")
        else if f.offset < 0 then fail (invalidRow s!"fixed field {i} offset is invalid")
        else
          let width ← lift (fixedWidth f)
          if overruns row (addChecked 64 f.offset.toNat width) then
            fail (invalidRow s!"fixed field {i} extends beyond the row")
          else checkPlaces desc row (i + 1) fields
      else if 0 < desc.numVaryingFields then
        if f.offset < 0 ∨ desc.numVaryingFields.toNat ≤ f.offset.toNat then
          fail (invalidRow s!"varying field {i} index is invalid")
        else checkPlaces desc row (i + 1) fields
      else if desc.fixedFieldsSize < 0 ∨ row.length < desc.fixedFieldsSize.toNat then
        fail (invalidRow s!"field {i} starts outside the row")
      else checkPlaces desc row (i + 1) fields

def validateRowLayout (desc : DbosTupleDesc) (row : Bytes) : Exec NzError (List UInt64) := do
  desc.validateRowBitmap row
  let numVarying := desc.numVaryingFields.toNat
  let cursor ← (if numVarying = 0 then .ok 0
    else if desc.fixedFieldsSize < 0 then fail (invalidRow "fixed-field area offset is invalid")
    else .ok desc.fixedFieldsSize.toNat)
  let spans ← varyingSpans row numVarying 0 cursor
  desc.checkPlaces row 0 desc.fields
  return spans

/-! ## The values of a row -/

section Values

variable {N : Numerics} (ops : NumberOps N)

def trimEndMatches (c : Char) (text : Text) : Text :=
  (text.reverse.dropWhile (· == c)).reverse

/-- `from_utf8` of a field. -/
def utf8Field (i : Nat) (bytes : Bytes) : Exec NzError Text :=
  orFail (.protocol s!"invalid UTF-8 field {i}") (fromUtf8 bytes)

/-- The bytes behind a length prefix, as the text types read them. -/
def prefixedBytes (row : Bytes) (off i : Nat) : Exec NzError Bytes := do
  let prefixEnd ← addWord 64 off 2
  if row.length < prefixEnd then fail (protocolTrunc i)
  else
    let length ← lengthAt row off
    if length < 2 then fail (protocolTrunc i)
    else
      let stop ← addWord 64 prefixEnd (length - 2)
      if row.length < stop then fail (protocolTrunc i)
      else slice row prefixEnd stop

/-- `row[off..off + n]` behind its bounds check. -/
def fixedBytes (row : Bytes) (off n i : Nat) : Exec NzError Bytes := do
  let stop ← addWord 64 off n
  if row.length < stop then fail (protocolTrunc i)
  else slice row off stop

/-- The byte at an offset behind its bounds check. -/
def fixedByte (row : Bytes) (off i : Nat) : Exec NzError UInt8 :=
  if row.length ≤ off then fail (protocolTrunc i) else index row off

/-- Types without a decoder keep their bytes. -/
def opaqueBytes (row : Bytes) (off i : Nat) (f : DbosField) : Exec NzError Bytes :=
  if f.fixedSize ≠ 0 then do
    let width ← lift (fixedWidth f)
    orFail (protocolTrunc i) ((addChecked 64 off width).bind fun stop => getSlice row off stop)
  else do
    let lengthBytes ← orFail (protocolTrunc i)
      ((addChecked 64 off 2).bind fun stop => getSlice row off stop)
    let length := leNat lengthBytes
    if length < 2 then fail (protocolTrunc i)
    else
      match addChecked 64 off length with
      | none => fail (protocolTrunc i)
      | some stop => do
          let start ← addWord 64 off 2
          orFail (protocolTrunc i) (getSlice row start stop)

/-- `parse_field_into`. -/
def parseField (row : Bytes) (off i : Nat) (f : DbosField) : Exec NzError (NzValue N) :=
  match f.kind with
  | .char => do
      -- A size of `-1` wraps to a length that no row has.
      let bytes ← orFail (protocolTrunc i)
        ((addChecked 64 off (asWord 64 f.size)).bind fun stop => getSlice row off stop)
      let text ← utf8Field i bytes
      return .text (trimEndMatches ' ' text)
  | .nchar => do
      let text ← utf8Field i (← prefixedBytes row off i)
      return .text (trimEndMatches '\x00' text)
  | .varchar => do
      let text ← utf8Field i (← prefixedBytes row off i)
      return .text text
  | .int8 => do
      let bytes ← fixedBytes row off 8 i
      return .int8 (Int64.ofInt (leInt bytes))
  | .int => do
      let bytes ← fixedBytes row off 4 i
      return .int4 (Int32.ofInt (leInt bytes))
  | .int2 => do
      let bytes ← fixedBytes row off 2 i
      return .int2 (Int16.ofInt (leInt bytes))
  | .int1 => do
      let byte ← fixedByte row off i
      return .int2 (Int16.ofInt (leInt [byte]))
  | .double => do
      let bytes ← fixedBytes row off 8 i
      return .float8 (ops.f64OfBits (leNat bytes))
  | .float => do
      let bytes ← fixedBytes row off 4 i
      return .float4 (ops.f32OfBits (leNat bytes))
  | .date => do
      let bytes ← fixedBytes row off 4 i
      let text ← Machine.dateFrom4bytes (leInt bytes)
      return .date text
  | .time => do
      let bytes ← fixedBytes row off 8 i
      let text ← Machine.timeFrom8bytes (leInt bytes)
      return .time text
  | .interval => do
      let bytes ← fixedBytes row off 12 i
      let text ← Machine.intervalFrom12bytes bytes
      return .interval text
  | .timetz =>
      if overruns row (addChecked 64 off (asWord 64 f.size)) ∨ asWord 64 f.size < 12 then
        fail (protocolTrunc i)
      else do
        let stop ← addWord 64 off (asWord 64 f.size)
        let bytes ← slice row off stop
        let text ← Machine.timetzFromBytes bytes (asWord 64 f.size)
        return .timetz text
  | .timestamp => do
      let bytes ← fixedBytes row off 8 i
      let text ← Machine.timestampFrom8bytes (leInt bytes)
      return .timestamp text
  | .bool => do
      let byte ← fixedByte row off i
      if byte = 0 then return .bool false
      else if byte = 1 then return .bool true
      else fail (.protocol "invalid binary BOOLEAN")
  | .numeric => do
      let start := min off row.length
      let bytes ← slice row start row.length
      let decoded ← Numeric.getCsNumeric ops bytes (fieldPrecision f.size) (fieldScale f.size)
        (f.trueSize.tdiv 4)
      return decoded.value
  | .opaqueBytes => do
      let bytes ← opaqueBytes row off i f
      return .bytea bytes

/-- The starts of the varying fields, as the eager parser walks over them. -/
def varyingStarts (row : Bytes) : (count j voff : Nat) → Exec NzError (List Nat)
  | 0, _, _ => .ok []
  | count + 1, j, voff => do
      let prefixEnd ← addWord 64 voff 2
      if row.length < prefixEnd then
        fail (invalidRow s!"varying field {j} length prefix is truncated")
      else
        let vlen ← lengthAt row voff
        if vlen < 2 then fail (invalidRow s!"varying field {j} length is invalid")
        else
          let stop ← addWord 64 voff vlen
          if row.length < stop then fail (invalidRow s!"varying field {j} length is invalid")
          else
            let next ← (if vlen % 2 ≠ 0 then addWord 64 stop 1 else .ok stop)
            if row.length < next then
              fail (invalidRow s!"varying field {j} padding is truncated")
            else
              let starts ← varyingStarts row count (j + 1) next
              return voff :: starts

def allStarts (desc : DbosTupleDesc) (row : Bytes) : Exec NzError (List Nat) :=
  if 0 < desc.numVaryingFields then
    if desc.fixedFieldsSize < 0 then fail (invalidRow "fixed-field area offset is invalid")
    else varyingStarts row desc.numVaryingFields.toNat 0 desc.fixedFieldsSize.toNat
  else .ok []

/-- The storage of every field is checked before any value is converted. -/
def checkStorage (desc : DbosTupleDesc) (row : Bytes) (starts : List Nat) :
    Nat → List DbosField → Exec NzError Unit
  | _, [] => .ok ()
  | i, f :: fields => do
      let null ← desc.isNull row f
      if null then checkStorage desc row starts (i + 1) fields
      else
        let start ← desc.rowFieldStart row i f starts
        validateRowFieldStorage row i f start
        checkStorage desc row starts (i + 1) fields

/-- The field stage goes with every error that a computation reports. -/
def staged {α : Type} (fieldStage : Bool) : Exec NzError α → Exec (NzError × Bool) α
  | .ok a => .ok a
  | .error (.error e) => fail (e, fieldStage)
  | .error .panic => panics

/-- The conversion of the fields; the stage stays set from the first one on. -/
def convertFields (desc : DbosTupleDesc) (row : Bytes) (starts : List Nat) :
    Nat → Bool → List DbosField → Exec (NzError × Bool) (List (NzValue N))
  | _, _, [] => .ok []
  | i, fieldStage, f :: fields => do
      let null ← staged fieldStage (desc.isNull row f)
      if null then
        let values ← convertFields desc row starts (i + 1) fieldStage fields
        return .null :: values
      else
        let start ← staged fieldStage (desc.rowFieldStart row i f starts)
        let value ← staged true (parseField ops row start i f)
        let values ← convertFields desc row starts (i + 1) true fields
        return value :: values

/-- `parse_row_classified`: an error comes with whether the layout was fine. -/
def parseRowClassified (desc : DbosTupleDesc) (row : Bytes) :
    Exec (NzError × Bool) (List (NzValue N)) := do
  staged false (desc.validateRowBitmap row)
  let starts ← staged false (desc.allStarts row)
  staged false (desc.checkStorage row starts 0 desc.fields)
  desc.convertFields ops row starts 0 false desc.fields

def unstaged {α : Type} : Exec (NzError × Bool) α → Exec NzError α
  | .ok a => .ok a
  | .error (.error e) => fail e.1
  | .error .panic => panics

def parseRow (desc : DbosTupleDesc) (row : Bytes) : Exec NzError (List (NzValue N)) :=
  unstaged (desc.parseRowClassified ops row)

end Values

end DbosTupleDesc

end NzRust
