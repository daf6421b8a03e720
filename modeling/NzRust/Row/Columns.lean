import NzRust.Lib.Bytes
import NzRust.Types.Value

/-!
# Row descriptions

The text (`T`) and binary (`X`) descriptions of a result set. A binary
descriptor keeps one record for each field, so the vectors of the source have
equal lengths by construction; header words that nothing reads are left out.
-/

namespace NzRust

open ByteString

structure ColumnDesc where
  name : Text
  typeOid : Int
  typeLen : Int
  typeMod : Int
  format : UInt8
  deriving DecidableEq, Repr

def be32 (data : Bytes) (off : Nat) : Int :=
  beInt ((data.drop off).take 4)

def be16 (data : Bytes) (off : Nat) : Int :=
  beInt ((data.drop off).take 2)

def nameNotTerminated (i : Nat) : NzError :=
  .protocol s!"Invalid RowDescription payload: column {i} name is not terminated; reconnect is required."

def metadataTruncated (i : Nat) : NzError :=
  .protocol s!"Invalid RowDescription payload: column {i} metadata is truncated; reconnect is required."

/-- The columns `i` and following of a text description. -/
def parseColumns : (count i : Nat) → Bytes → NzResult (List ColumnDesc)
  | 0, _, _ => .ok []
  | count + 1, i, data =>
      let name := data.takeWhile (· != 0)
      match data.dropWhile (· != 0) with
      | [] => .error (nameNotTerminated i)
      | _ :: rest =>
          if rest.length < 11 then .error (metadataTruncated i)
          else
            (parseColumns count (i + 1) (rest.drop 11)).map fun columns =>
              { name := fromUtf8Lossy name
                typeOid := be32 rest 0
                typeLen := be16 rest 4
                typeMod := be32 rest 6
                format := rest.getD 10 0 } :: columns

def parseRowDescription (data : Bytes) : NzResult (List ColumnDesc) :=
  if data.length < 2 then
    .error (.protocol "Invalid RowDescription payload: column count is truncated; reconnect is required.")
  else parseColumns (beNat (data.take 2)) 0 (data.drop 2)

/-! ## The binary descriptor -/

/-- One field of a tuple descriptor. -/
structure DbosField where
  fieldType : Int
  size : Int
  trueSize : Int
  offset : Int
  physField : Nat
  nullAllowed : Bool
  fixedSize : Int
  deriving DecidableEq, Repr

def DbosField.nullByteOffset (f : DbosField) : Nat :=
  2 + f.physField / 8

def DbosField.nullBitMask (f : DbosField) : UInt8 :=
  1 <<< UInt8.ofNat (f.physField % 8)

structure DbosTupleDesc where
  nullsAllowed : Int
  numVaryingFields : Int
  fixedFieldsSize : Int
  fields : List DbosField
  deriving DecidableEq, Repr

namespace DbosTupleDesc

def numFields (desc : DbosTupleDesc) : Nat :=
  desc.fields.length

/-- An INT whose text column is an abstime keeps its own type. -/
def restoredType (ft : Int) (oid : Option Int) : Int :=
  if ft = 3 ∧ oid = some 702 then 39 else ft

/-- The fields `ix` and following, 36 bytes each. -/
def parseFields (cached : Option (List ColumnDesc)) : (count ix : Nat) → Bytes →
    NzResult (List DbosField)
  | 0, _, _ => .ok []
  | count + 1, ix, data =>
      let physField := be32 data 16
      if physField < 0 ∨ 100000 < physField ∨ be32 data 4 < -1 ∨ be32 data 8 < -1 ∨
          be32 data 12 < 0 ∨ be32 data 28 < 0 then
        .error (.protocol s!"invalid DBOS column {ix} layout")
      else
        (parseFields cached count (ix + 1) (data.drop 36)).map fun fields =>
          { fieldType :=
              restoredType (be32 data 0) ((cached.bind fun columns => columns[ix]?).map (·.typeOid))
            size := be32 data 4
            trueSize := be32 data 8
            offset := be32 data 12
            physField := physField.toNat
            nullAllowed := be32 data 24 != 0
            fixedSize := be32 data 28 } :: fields

/-- `parse`: the header, the count checks and the fields. -/
def parse (data : Bytes) (cached : Option (List ColumnDesc)) : NzResult DbosTupleDesc :=
  if data.length < 36 then
    .error (.protocol "Invalid RowDescriptionStandard payload: descriptor header is truncated; reconnect is required.")
  else
    let numFields := be32 data 32
    let numFixed := be32 data 16
    let numVarying := be32 data 20
    if numFields < 0 ∨ 100000 < numFields then
      .error (.protocol s!"Invalid RowDescriptionStandard payload: field count {numFields} is out of range; reconnect is required.")
    else if numFixed < 0 ∨ numVarying < 0 ∨ numFields < numFixed ∨ numFields < numVarying ∨
        be32 data 24 < 0 ∨ be32 data 28 < 0 then
      .error (.protocol "invalid DBOS field counts or record sizes")
    else if (cached.map fun columns => decide (columns.length ≠ numFields.toNat)) = some true then
      .error (.protocol "text and DBOS column counts differ")
    else
      let descriptorLen := 36 + numFields.toNat * 36 + 8
      match validateProtocolLength descriptorLen "rowDescriptionStandardDescriptor" true with
      | .error e => .error e
      | .ok _ =>
          if data.length < descriptorLen then
            .error (.protocol s!"Invalid RowDescriptionStandard payload: expected at least {descriptorLen} bytes, received {data.length}; reconnect is required.")
          else
            (parseFields cached numFields.toNat 0 (data.drop 36)).map fun fields =>
              { nullsAllowed := be32 data 4
                numVaryingFields := numVarying
                fixedFieldsSize := be32 data 24
                fields := fields }

/-- The width of a field in the fixed area. -/
def fixedWidth (f : DbosField) : NzResult Nat :=
  let width : Int :=
    if f.fieldType = 2 ∨ f.fieldType = 8 ∨ f.fieldType = 9 ∨ f.fieldType = 20 then 8
    else if f.fieldType = 3 ∨ f.fieldType = 4 ∨ f.fieldType = 6 then 4
    else if f.fieldType = 19 then 2
    else if f.fieldType = 12 ∨ f.fieldType = 13 then 1
    else if f.fieldType = 10 ∨ f.fieldType = 11 then 12
    else if f.fieldType = 15 then f.size
    else f.trueSize
  if width < 0 then .error (.protocol "invalid fixed field width") else .ok width.toNat

def fieldPrecision (size : Int) : Int :=
  size / 256 % 128

def fieldScale (size : Int) : Int :=
  size % 256

/-- The type OID that a DBOS type is reported as. -/
def oidOfType (fieldType : Int) : Int :=
  if fieldType = 2 then 701
  else if fieldType = 3 then 23
  else if fieldType = 4 then 700
  else if fieldType = 6 then 1082
  else if fieldType = 7 then 1700
  else if fieldType = 8 then 1083
  else if fieldType = 9 then 1114
  else if fieldType = 10 then 1186
  else if fieldType = 11 then 1266
  else if fieldType = 12 then 16
  else if fieldType = 13 then 2500
  else if fieldType = 14 ∨ fieldType = 23 then 17
  else if fieldType = 15 then 1042
  else if fieldType = 16 ∨ fieldType = 21 then 1043
  else if fieldType = 19 then 21
  else if fieldType = 20 then 20
  else if fieldType = 25 then 2522
  else if fieldType = 26 then 2530
  else 0

def typeLenOf (f : DbosField) : Int :=
  if f.fixedSize = 0 ∨ f.fieldType = 7 ∨ f.fieldType = 15 ∨ f.fieldType = 25 then -1
  else
    match fixedWidth f with
    | .ok width => if width < 2 ^ 15 then width else -1
    | .error _ => -1

def typeModOf (f : DbosField) : Int :=
  if f.fieldType = 7 then fieldPrecision f.size * 65536 + fieldScale f.size + 16
  else if f.fieldType = 15 ∨ f.fieldType = 16 ∨ f.fieldType = 21 ∨ f.fieldType = 25 ∨
      f.fieldType = 26 then
    min (f.size + 16) (2 ^ 31 - 1)
  else -1

def columnOf (i : Nat) (f : DbosField) : ColumnDesc where
  name := "col".toList ++ Nat.toDigits 10 (i + 1)
  typeOid := oidOfType f.fieldType
  typeLen := typeLenOf f
  typeMod := typeModOf f
  format := 1

/-- Columns `col1..colN` for a binary result set without a text description. -/
def toColumnDescs (desc : DbosTupleDesc) : List ColumnDesc :=
  desc.fields.mapIdx columnOf

end DbosTupleDesc

/-! ## What the descriptions accept -/

theorem parseColumns_error {count i : Nat} {data : Bytes} {e : NzError}
    (h : parseColumns count i data = .error e) : e.isProtocolFault = true := by
  induction count generalizing i data with
  | zero => cases h
  | succ count ih =>
      unfold parseColumns at h
      split at h
      · cases h; rfl
      case h_2 rest _ =>
        split at h
        · cases h; rfl
        · cases hrest : parseColumns count (i + 1) (rest.drop 11) with
          | error e' =>
              rw [hrest] at h
              cases h
              exact ih hrest
          | ok columns =>
              rw [hrest] at h
              cases h

theorem parseRowDescription_error {data : Bytes} {e : NzError}
    (h : parseRowDescription data = .error e) : e.isProtocolFault = true := by
  unfold parseRowDescription at h
  split at h
  · cases h; rfl
  · exact parseColumns_error h

namespace DbosTupleDesc

theorem parseFields_error {cached : Option (List ColumnDesc)} {count ix : Nat} {data : Bytes}
    {e : NzError} (h : parseFields cached count ix data = .error e) :
    e.isProtocolFault = true := by
  induction count generalizing ix data with
  | zero => cases h
  | succ count ih =>
      dsimp only [parseFields] at h
      split at h
      · cases h; rfl
      · cases hrest : parseFields cached count (ix + 1) (data.drop 36) with
        | error e' =>
            rw [hrest] at h
            cases h
            exact ih hrest
        | ok fields =>
            rw [hrest] at h
            cases h

theorem parseFields_length {cached : Option (List ColumnDesc)} {count ix : Nat} {data : Bytes}
    {fields : List DbosField} (h : parseFields cached count ix data = .ok fields) :
    fields.length = count := by
  induction count generalizing ix data fields with
  | zero => cases h; rfl
  | succ count ih =>
      dsimp only [parseFields] at h
      split at h
      · cases h
      · cases hrest : parseFields cached count (ix + 1) (data.drop 36) with
        | error e' =>
            rw [hrest] at h
            cases h
        | ok rest =>
            rw [hrest] at h
            cases h
            simp [ih hrest]

/-- Columns without an abstime leave every type as it is. -/
theorem parseFields_none {columns : List ColumnDesc} (h : ∀ c ∈ columns, c.typeOid ≠ 702)
    (count ix : Nat) (data : Bytes) :
    parseFields (some columns) count ix data = parseFields none count ix data := by
  induction count generalizing ix data with
  | zero => rfl
  | succ count ih =>
      have htype (ft : Int) : restoredType ft (columns[ix]?.map (·.typeOid)) = restoredType ft none := by
        have hne : columns[ix]?.map (·.typeOid) ≠ some 702 := by
          intro heq
          obtain ⟨c, hc, hoid⟩ := Option.map_eq_some_iff.mp heq
          exact h c (List.mem_of_getElem? hc) hoid
        simp [restoredType, hne]
      simp only [parseFields, ih, Option.bind_some, Option.bind_none, Option.map_none, htype]

theorem parse_error {data : Bytes} {cached : Option (List ColumnDesc)} {e : NzError}
    (h : parse data cached = .error e) : e.isProtocolFault = true := by
  dsimp only [parse] at h
  repeat' split at h
  case h_1 heq =>
    cases h
    exact validateProtocolLength_error heq
  case h_2.isFalse =>
    cases hfields : parseFields cached (be32 data 32).toNat 0 (data.drop 36) with
    | error e' =>
        rw [hfields] at h
        cases h
        exact parseFields_error hfields
    | ok fields =>
        rw [hfields] at h
        cases h
  all_goals
    cases h
    rfl

/-- What an accepted descriptor has passed. -/
theorem parse_ok {data : Bytes} {cached : Option (List ColumnDesc)} {desc : DbosTupleDesc}
    (h : parse data cached = .ok desc) :
    (∀ columns, cached = some columns → columns.length = desc.numFields) ∧
      ∃ fields, parseFields cached (be32 data 32).toNat 0 (data.drop 36) = .ok fields ∧
        desc = ⟨be32 data 4, be32 data 20, be32 data 24, fields⟩ := by
  dsimp only [parse] at h
  repeat' split at h
  case h_2.isFalse hcount _ _ _ _ =>
    cases hfields : parseFields cached (be32 data 32).toNat 0 (data.drop 36) with
    | error e' =>
        rw [hfields] at h
        cases h
    | ok fields =>
        rw [hfields] at h
        cases h
        have hlen := parseFields_length hfields
        refine ⟨?_, fields, rfl, rfl⟩
        rintro columns rfl
        simp only [Option.map_some, Option.some.injEq, decide_eq_true_eq, ne_eq,
          Decidable.not_not] at hcount
        exact hcount.trans hlen.symm
  all_goals cases h

theorem toColumnDescs_length (desc : DbosTupleDesc) :
    desc.toColumnDescs.length = desc.numFields := by
  simp [toColumnDescs, numFields]

theorem oidOfType_ne_abstime (fieldType : Int) : oidOfType fieldType ≠ 702 := by
  unfold oidOfType
  omega

/-- Binary columns restore no type. -/
theorem parse_toColumnDescs {data : Bytes} {earlier desc desc' : DbosTupleDesc}
    (h : parse data (some earlier.toColumnDescs) = .ok desc) (h' : parse data none = .ok desc') :
    desc = desc' := by
  have hnone : ∀ c ∈ earlier.toColumnDescs, c.typeOid ≠ 702 := by
    intro c hc
    obtain ⟨i, hi, rfl⟩ := List.mem_mapIdx.mp hc
    exact oidOfType_ne_abstime _
  obtain ⟨-, fields, hfields, rfl⟩ := parse_ok h
  obtain ⟨-, fields', hfields', rfl⟩ := parse_ok h'
  rw [parseFields_none hnone, hfields'] at hfields
  cases hfields
  rfl

end DbosTupleDesc

end NzRust
