import NzRust.Row.Lazy
import NzRust.Row.NumericReads
import NzRust.Types.SqlText

/-!
# Typed reads

`try_get` on lazy and on decoded rows. A cell of a lazy binary row carries its
bytes and the place of its field, and the integers, BOOL, the text types and the
temporal types are read off the bytes; a decoded row has only its values left.
-/

namespace NzRust

open ByteString Checked

/-! ## Cells of rows -/

namespace RawRow

variable {N : Numerics}

/-- The bytes of a binary field within its span: a varying one leaves its length out. -/
def storedBytes (payload : Bytes) (desc : DbosTupleDesc) (i start stop : Nat) :
    Exec NzError Bytes :=
  if (desc.fields[i]?.map (·.fixedSize)).getD 0 ≠ 0 then
    orFail (.protocol "DBOS fixed field is out of bounds") (getSlice payload start stop)
  else if desc.numVaryingFields = 0 then
    orFail (.protocol "DBOS field is out of bounds") (getSlice payload start stop)
  else do
    let prefixEnd ← orFail (.protocol "DBOS field prefix overflow") (addChecked 64 start 2)
    let lengthBytes ← orFail (.protocol "DBOS field prefix is truncated")
      (getSlice payload start prefixEnd)
    let stop ← orFail (.protocol "DBOS field length overflow")
      (addChecked 64 start (leNat lengthBytes))
    orFail (.protocol "DBOS varying field is out of bounds") (getSlice payload prefixEnd stop)

/-- `field_bytes`: none for a null. -/
def fieldBytes (row : RawRow N) (i : Nat) : Exec NzError (Option Bytes) × Progress :=
  match row.kind with
  | .text =>
      match textSpan row.payload row.columns row.progress i with
      | (.error e, p) => (.error e, p)
      | (.ok none, p) => (.ok none, p)
      | (.ok (some span), p) =>
          (do
            let bytes ← orFail (.protocol "text row field is out of bounds")
              (getSlice row.payload span.1 span.2)
            return some bytes, p)
  | .dbos desc =>
      match dbosSpan row.payload desc row.progress i with
      | (.error e, p) => (.error e, p)
      | (.ok none, p) => (.ok none, p)
      | (.ok (some span), p) =>
          (do
            let bytes ← storedBytes row.payload desc i span.1 span.2
            return some bytes, p)

/-- `try_get_raw_value` by ordinal. -/
def tryGetRawValue (row : RawRow N) (i : Nat) : Exec NzError (RawValue N) × RawRow N :=
  match row.columns[i]? with
  | none => (fail (.config s!"row index out of range: ordinal {i}"), row)
  | some column =>
      match row.fieldBytes i with
      | (.error e, p) => (.error e, { row with progress := p })
      | (.ok bytes, p) =>
          match row.kind with
          | .text =>
              (.ok ⟨bytes, none, column.typeOid, column.typeMod, column.format, none⟩,
                { row with progress := p })
          | .dbos desc =>
              match dbosSpan row.payload desc p i with
              | (.error e, p) => (.error e, { row with progress := p })
              | (.ok span, p) =>
                  -- the span of a null starts at zero
                  (.ok ⟨bytes, none, column.typeOid, column.typeMod, 1,
                      some (desc, row.payload, (span.map (·.1)).getD 0, i)⟩,
                    { row with progress := p })

end RawRow

/-- A row that was decoded as a whole: `RowStorage::Values`. -/
structure ValuesRow (N : Numerics) where
  columns : List ColumnDesc
  values : List (NzValue N)
  dbos : Option DbosTupleDesc

namespace ValuesRow

variable {N : Numerics}

def fromSharedDbos (columns : List ColumnDesc) (values : List (NzValue N))
    (desc : DbosTupleDesc) : ValuesRow N :=
  ⟨columns, values, some desc⟩

def tryGetRawValue (row : ValuesRow N) (i : Nat) : Exec NzError (RawValue N) := do
  let column ← orFail (.config s!"row index out of range: ordinal {i}") row.columns[i]?
  let value ← orFail (.protocol "row values do not match columns") row.values[i]?
  return .eager value row.dbos column i

end ValuesRow

/-! ## What is read -/

inductive IntType where
  | i16
  | i32
  | i64
  | u8
  | u16
  | u32
  deriving DecidableEq, Repr

namespace IntType

def name : IntType → String
  | i16 => "i16"
  | i32 => "i32"
  | i64 => "i64"
  | u8 => "u8"
  | u16 => "u16"
  | u32 => "u32"

/-- The least value and the one behind the greatest. -/
def range : IntType → Int × Int
  | i16 => (-(2 ^ 15), 2 ^ 15)
  | i32 => (-(2 ^ 31), 2 ^ 31)
  | i64 => (-(2 ^ 63), 2 ^ 63)
  | u8 => (0, 2 ^ 8)
  | u16 => (0, 2 ^ 16)
  | u32 => (0, 2 ^ 32)

/-- `try_from` of an `i128`. -/
def tryFrom (t : IntType) (n : Int) : Option Int :=
  if t.range.1 ≤ n ∧ n < t.range.2 then some n else none

def outOfRange (t : IntType) (shown : Text) : NzError :=
  .config s!"value {String.ofList shown} out of range for {t.name}"

end IntType

/-- What the reads call on `Decimal`, and how a value prints itself. -/
structure ReadOps (N : Numerics) where
  /-- `fract().is_zero().then(|| to_i128()).flatten()`. -/
  wholeDecimal : N.Decimal → Option Int
  /-- `{:?}`. -/
  debug : NzValue N → String

namespace ReadOps

variable {N : Numerics} (reads : ReadOps N)

def unexpected (value : NzValue N) (expected : String) : NzError :=
  .config s!"unexpected SQL type \"{expected}\" for value {reads.debug value}"

/-! ## Decoded values -/

def boolFromSql : NzValue N → NzResult Bool
  | .bool value => .ok value
  | other => .error (reads.unexpected other "BOOL")

/-- An integer that was printed, or none. -/
def orOutOfRange (t : IntType) (shown : Text) : Option Int → NzResult Int
  | some n => .ok n
  | none => .error (t.outOfRange shown)

def decodeInt (t : IntType) : NzValue N → NzResult Int
  | .int2 v => orOutOfRange t (displayInt v.toInt) (t.tryFrom v.toInt)
  | .int4 v => orOutOfRange t (displayInt v.toInt) (t.tryFrom v.toInt)
  | .int8 v => orOutOfRange t (displayInt v.toInt) (t.tryFrom v.toInt)
  | .numeric text => orOutOfRange t text ((parseSigned 128 (trim text)).bind t.tryFrom)
  | .text text => orOutOfRange t text ((parseSigned 128 (trim text)).bind t.tryFrom)
  | .decimal v =>
      orOutOfRange t (N.displayDecimal v) ((reads.wholeDecimal v).bind t.tryFrom)
  | other => .error (reads.unexpected other "integer")

def stringFromSql : NzValue N → NzResult Text
  | .text s => .ok s
  | .numeric s => .ok s
  | .date s => .ok s
  | .time s => .ok s
  | .timetz s => .ok s
  | .timestamp s => .ok s
  | .interval s => .ok s
  | .decimal value => .ok (N.displayDecimal value)
  | other => .error (reads.unexpected other "text")

def bytesFromSql : NzValue N → NzResult Bytes
  | .bytea bytes => .ok bytes
  | other => .error (reads.unexpected other "bytea")

end ReadOps

/-! ## Binary temporal values -/

def NzDate.fromBytes (bytes : Bytes) : NzResult NzDate :=
  .ok ⟨Int32.ofInt (leInt bytes)⟩

def NzTime.fromBytes (bytes : Bytes) : NzResult NzTime :=
  NzTime.new (leInt bytes)

def NzTimestamp.fromBytes (bytes : Bytes) : NzResult NzTimestamp :=
  .ok ⟨Int64.ofInt (leInt bytes)⟩

def NzInterval.fromBytes (bytes : Bytes) : NzResult NzInterval :=
  .ok ⟨leInt (bytes.drop 8), leInt (bytes.take 8)⟩

/-- The zone is stored with the opposite sign. -/
def NzTimetz.fromBytes (bytes : Bytes) : NzResult NzTimetz := do
  let time ← NzTime.new (leInt (bytes.take 8))
  let offset ← orInvalid (intChecked 32 (-leInt (bytes.drop 8)))
  NzTimetz.new time offset

/-! ## Cells -/

namespace RawValue

variable {N : Numerics} (ops : NumberOps N) (reads : ReadOps N)

/-- The result is none where a cell is not that of a binary BOOL. -/
def decodeBoolDbos (v : RawValue N) : Option (NzResult Bool) :=
  if v.isNull then none
  else do
    let (desc, row, offset, i) ← v.dbos
    let f ← desc.fields[i]?
    if f.kind ≠ .bool then none
    else
      let byte ← row[offset]?
      some (if byte = 0 then .ok false
        else if byte = 1 then .ok true
        else .error (.protocol "invalid binary BOOLEAN"))

def intAt (row : Bytes) (offset width : Nat) : Exec NzError (Option Int) := do
  let stop ← addWord 64 offset width
  return (getSlice row offset stop).map leInt

/-- The integer of a cell of one of the integer types. -/
def decodeIntDbos (v : RawValue N) : Exec NzError (Option Int) :=
  if v.isNull then .ok none
  else
    match v.dbos with
    | none => .ok none
    | some (desc, row, offset, i) =>
        match desc.fields[i]? with
        | none => .ok none
        | some f =>
            match f.kind with
            | .int8 => intAt row offset 8
            | .int => intAt row offset 4
            | .int2 => intAt row offset 2
            | .int1 => .ok (row[offset]?.map fun byte => leInt [byte])
            | _ => .ok none

/-- `binary`: the bytes of a temporal field, or none for a cell that is not binary. -/
def binary (v : RawValue N) (expected : FieldKind) (width : Nat) : Exec NzError (Option Bytes) :=
  if v.isNull then fail invalidTemporal
  else
    match v.dbos with
    | none => .ok none
    | some (desc, row, offset, i) => do
        let f ← index desc.fields i
        if f.kind ≠ expected then fail invalidTemporal
        else
          let bytes ← orFail (.protocol "truncated temporal field")
            ((addChecked 64 offset width).bind fun stop => getSlice row offset stop)
          return some bytes

/-- `from_raw` of the temporal types. -/
def temporalFromRaw {α : Type} (expected : FieldKind) (width : Nat) (fromBytes : Bytes → NzResult α)
    (fromSql : NzValue N → NzResult α) (v : RawValue N) : Exec NzError α := do
  match ← v.binary expected width with
  | some bytes => lift (fromBytes bytes)
  | none => do
      let value ← v.toNzValue ops
      lift (fromSql value)

def dateFromRaw (v : RawValue N) : Exec NzError NzDate :=
  v.temporalFromRaw ops .date 4 NzDate.fromBytes NzDate.fromSql

def timeFromRaw (v : RawValue N) : Exec NzError NzTime :=
  v.temporalFromRaw ops .time 8 NzTime.fromBytes NzTime.fromSql

def timestampFromRaw (v : RawValue N) : Exec NzError NzTimestamp :=
  v.temporalFromRaw ops .timestamp 8 NzTimestamp.fromBytes NzTimestamp.fromSql

def intervalFromRaw (v : RawValue N) : Exec NzError NzInterval :=
  v.temporalFromRaw ops .interval 12 NzInterval.fromBytes NzInterval.fromSql

def timetzFromRaw (v : RawValue N) : Exec NzError NzTimetz :=
  v.temporalFromRaw ops .timetz 12 NzTimetz.fromBytes NzTimetz.fromSql

def boolFromRaw (v : RawValue N) : Exec NzError Bool :=
  match v.decoded with
  | some decoded => lift (reads.boolFromSql decoded)
  | none =>
      match v.decodeBoolDbos with
      | some result => lift result
      | none => do
          let value ← v.toNzValue ops
          lift (reads.boolFromSql value)

def intFromRaw (t : IntType) (v : RawValue N) : Exec NzError Int :=
  match v.decoded with
  | some decoded => lift (reads.decodeInt t decoded)
  | none => do
      match ← v.decodeIntDbos with
      | some number => lift (ReadOps.orOutOfRange t (displayInt number) (t.tryFrom number))
      | none => do
          let value ← v.toNzValue ops
          lift (reads.decodeInt t value)

def bytesFromRaw (v : RawValue N) : Exec NzError Bytes :=
  match v.decoded with
  | some decoded => lift (reads.bytesFromSql decoded)
  | none => do
      let value ← v.toNzValue ops
      lift (reads.bytesFromSql value)

def isTextualOid (oid : Int) : Bool :=
  [18, 19, 25, 1042, 1043, 2522, 2530].contains oid

def isTextualKind (kind : FieldKind) : Bool :=
  kind == .char || kind == .nchar || kind == .varchar

/-- Whether a cell has the bytes of a text. -/
def isTextual (v : RawValue N) : Exec NzError Bool :=
  match v.dbos with
  | some (desc, _, _, i) => do
      let f ← index desc.fields i
      return isTextualKind f.kind
  | none => .ok (isTextualOid v.typeOid)

/-- `from_sql_raw` of `&str`. -/
def strFromSqlRaw (v : RawValue N) : Exec NzError Text :=
  match v.bytes with
  | some bytes => do
      let text ← orFail (.config "invalid UTF-8 SQL text") (fromUtf8 bytes)
      match v.dbos with
      | some (desc, _, _, i) => do
          let f ← index desc.fields i
          match f.kind with
          | .char => return DbosTupleDesc.trimEndMatches ' ' text
          | .nchar => return DbosTupleDesc.trimEndMatches '\x00' text
          | .varchar => return text
          | _ => fail (.config "binary field is not text")
      | none => return text
  | none =>
      match v.decoded with
      | some (.decimal value) => fail (reads.unexpected (.decimal value) "text")
      | some value => lift (reads.stringFromSql value)
      | none => fail (.config "cannot decode SQL NULL as text")

def stringFromRaw (v : RawValue N) : Exec NzError Text :=
  match v.bytes with
  | some _ => do
      if ← v.isTextual then v.strFromSqlRaw reads
      else
        let value ← v.toNzValue ops
        lift (reads.stringFromSql value)
  | none =>
      match v.decoded with
      | some decoded => lift (reads.stringFromSql decoded)
      | none => do
          let value ← v.toNzValue ops
          lift (reads.stringFromSql value)

end RawValue

/-! ## The types that are read -/

inductive Getter where
  | bool
  | int (t : IntType)
  | string
  | bytes
  | date
  | time
  | timestamp
  | interval
  | timetz
  | option (inner : Getter)
  deriving DecidableEq, Repr

namespace Getter

def Value : Getter → Type
  | bool => Bool
  | int _ => Int
  | string => Text
  | bytes => Bytes
  | date => NzDate
  | time => NzTime
  | timestamp => NzTimestamp
  | interval => NzInterval
  | timetz => NzTimetz
  | option inner => Option inner.Value

variable {N : Numerics} (ops : NumberOps N) (reads : ReadOps N)

/-- `from_raw`. -/
def fromRaw : (getter : Getter) → RawValue N → Exec NzError getter.Value
  | bool, v => v.boolFromRaw ops reads
  | int t, v => v.intFromRaw ops reads t
  | string, v => v.stringFromRaw ops reads
  | bytes, v => v.bytesFromRaw ops reads
  | date, v => v.dateFromRaw ops
  | time, v => v.timeFromRaw ops
  | timestamp, v => v.timestampFromRaw ops
  | interval, v => v.intervalFromRaw ops
  | timetz, v => v.timetzFromRaw ops
  | option inner, v =>
      if v.isNull then .ok none
      else do
        let value ← inner.fromRaw v
        return some value

end Getter

section Rows

variable {N : Numerics} (ops : NumberOps N) (reads : ReadOps N)

/-- `try_get` on a lazy row. -/
def RawRow.tryGet (row : RawRow N) (getter : Getter) (i : Nat) :
    Exec NzError getter.Value × RawRow N :=
  match row.tryGetRawValue i with
  | (.error e, row) => (.error e, row)
  | (.ok value, row) => (getter.fromRaw ops reads value, row)

/-- `try_get` on a decoded row. -/
def ValuesRow.tryGet (row : ValuesRow N) (getter : Getter) (i : Nat) :
    Exec NzError getter.Value := do
  let value ← row.tryGetRawValue i
  getter.fromRaw ops reads value

end Rows

end NzRust
