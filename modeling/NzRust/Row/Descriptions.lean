import NzRust.Lib.Terminated
import NzRust.Row.Dbos
import NzRust.Types.Utf8

/-!
# Descriptions read by offset

`parse_row_description` and `DbosTupleDesc::parse` with every word that they
keep, and what they make of an encoded description.
-/

namespace NzRust

open ByteString Checked Terminated

/-! ## Text descriptions -/

/-- `from_be_bytes(data[off..off + width])`; offsets into a slice do not overflow. -/
def readBe (width : Nat) (data : Bytes) (off : Nat) : Exec NzError Int := do
  let bytes ← slice data off (off + width)
  .ok (beInt bytes)

/-- The columns `i` and following of a text description, from `offset` on. -/
def parseColumnsAt (data : Bytes) : (count i offset : Nat) → Exec NzError (List ColumnDesc)
  | 0, _, _ => .ok []
  | count + 1, i, nameStart => do
      let stop ← scanUntil (· == 0) data nameStart
      if stop ≥ data.length then fail (nameNotTerminated i)
      else
        let name ← slice data nameStart stop
        let offset := stop + 1
        if offset + 11 > data.length then fail (metadataTruncated i)
        else
          let typeOid ← readBe 4 data offset
          let typeLen ← readBe 2 data (offset + 4)
          let typeMod ← readBe 4 data (offset + 6)
          let format ← index data (offset + 10)
          let columns ← parseColumnsAt data count (i + 1) (offset + 11)
          .ok ({ name := fromUtf8Lossy name, typeOid, typeLen, typeMod, format } :: columns)

def parseRowDescriptionAt (data : Bytes) : Exec NzError (List ColumnDesc) :=
  if data.length < 2 then
    fail (.protocol "Invalid RowDescription payload: column count is truncated; reconnect is required.")
  else do
    let count ← slice data 0 2
    parseColumnsAt data (beNat count) 0 2

theorem readBe_eq {width off : Nat} {data : Bytes} (h : off + width ≤ data.length) :
    readBe width data off = .ok (beInt ((data.drop off).take width)) := by
  rw [readBe, slice_eq (by omega) h, ok_bind, Nat.add_sub_cancel_left]

/-- Reading columns by offset never panics: it ends as reading them off the string. -/
theorem parseColumnsAt_eq (data : Bytes) (count i : Nat) {offset : Nat}
    (h : offset ≤ data.length) :
    parseColumnsAt data count i offset = lift (parseColumns count i (data.drop offset)) := by
  induction count generalizing i offset with
  | zero => rfl
  | succ count ih =>
      have hlen := length_upTo_le (p := (· == (0 : UInt8))) (data.drop offset)
      have hname := slice_upTo (p := (· == (0 : UInt8))) (ε := NzError) data h
      have hscan := drop_scan (p := (· == (0 : UInt8))) data offset
      rw [List.length_drop] at hlen
      have hrest : (data.drop offset).dropWhile (· != 0) =
          fromOn (· == (0 : UInt8)) (data.drop offset) := rfl
      rw [parseColumnsAt, scanUntil_eq, ok_bind, parseColumns, hrest, ← hscan]
      generalize offset + (upTo (· == (0 : UInt8)) (data.drop offset)).length = stop at hname
      by_cases hstop : stop ≥ data.length
      · rw [if_pos hstop, List.drop_eq_nil_of_le hstop]
        rfl
      · rw [if_neg hstop, hname, ok_bind, List.drop_eq_getElem_cons (Nat.not_le.mp hstop)]
        dsimp only
        by_cases hshort : stop + 1 + 11 > data.length
        · rw [if_pos hshort, if_pos (by rw [List.length_drop]; omega)]
          rfl
        · have hindex : stop + 1 + 10 < data.length := by omega
          have hformat : (data.drop (stop + 1)).getD 10 0 = data[stop + 1 + 10] := by
            simp [List.getD_eq_getElem?_getD, hindex]
          rw [if_neg hshort, if_neg (by rw [List.length_drop]; omega), readBe_eq (by omega),
            ok_bind, readBe_eq (by omega), ok_bind, readBe_eq (by omega), ok_bind, index_eq hindex,
            ok_bind, ih (i + 1) (by omega), List.drop_drop, hformat]
          cases parseColumns count (i + 1) (data.drop (stop + 1 + 11)) with
          | error e => rfl
          | ok columns =>
              simp only [be32, be16, List.drop_drop, Nat.add_zero]
              rfl

theorem parseRowDescriptionAt_eq (data : Bytes) :
    parseRowDescriptionAt data = lift (parseRowDescription data) := by
  unfold parseRowDescriptionAt parseRowDescription
  by_cases hshort : data.length < 2
  · rw [if_pos hshort, if_pos hshort]
    rfl
  · rw [if_neg hshort, if_neg hshort, slice_eq (by omega) (by omega), ok_bind, List.drop_zero,
      parseColumnsAt_eq data _ 0 (by omega)]

theorem parseColumns_length {count i : Nat} {data : Bytes} {columns : List ColumnDesc}
    (h : parseColumns count i data = .ok columns) : columns.length = count := by
  induction count generalizing i data columns with
  | zero =>
      cases h
      rfl
  | succ count ih =>
      rw [parseColumns] at h
      cases hrest : data.dropWhile (· != 0) with
      | nil =>
          rw [hrest] at h
          cases h
      | cons b rest =>
          rw [hrest] at h
          dsimp only at h
          by_cases hshort : rest.length < 11
          · rw [if_pos hshort] at h
            cases h
          · rw [if_neg hshort] at h
            cases htail : parseColumns count (i + 1) (rest.drop 11) with
            | error e =>
                rw [htail] at h
                cases h
            | ok tail =>
                rw [htail] at h
                cases h
                rw [List.length_cons, ih htail]

theorem parseRowDescription_length {data : Bytes} {columns : List ColumnDesc}
    (h : parseRowDescription data = .ok columns) : columns.length = beNat (data.take 2) := by
  unfold parseRowDescription at h
  by_cases hshort : data.length < 2
  · rw [if_pos hshort] at h
    cases h
  · rw [if_neg hshort] at h
    exact parseColumns_length h

/-- A column that the wire format has room for. -/
structure ColumnDesc.Encodable (c : ColumnDesc) : Prop where
  nulFree : '\x00' ∉ c.name
  oid : -(2 ^ 31) ≤ c.typeOid ∧ c.typeOid < 2 ^ 31
  len : -(2 ^ 15) ≤ c.typeLen ∧ c.typeLen < 2 ^ 15
  mod : -(2 ^ 31) ≤ c.typeMod ∧ c.typeMod < 2 ^ 31

/-- What stands behind the name of a column. -/
def ColumnDesc.encodeMetadata (c : ColumnDesc) : Bytes :=
  toBe 4 c.typeOid ++ (toBe 2 c.typeLen ++ (toBe 4 c.typeMod ++ [c.format]))

def ColumnDesc.encode (c : ColumnDesc) : Bytes :=
  toUtf8 c.name ++ 0 :: c.encodeMetadata

def encodeRowDescription (columns : List ColumnDesc) : Bytes :=
  natToBe 2 columns.length ++ columns.flatMap ColumnDesc.encode

theorem ColumnDesc.encodeMetadata_length (c : ColumnDesc) : c.encodeMetadata.length = 11 := by
  simp [encodeMetadata]

theorem take_drop_middle {α : Type} {n w : Nat} (front mid back : List α) (hn : front.length = n)
    (hw : mid.length = w) : ((front ++ (mid ++ back)).drop n).take w = mid := by
  rw [List.drop_left' hn, List.take_left' hw]

/-- The metadata of a column is read back. -/
theorem ColumnDesc.Encodable.metadata {c : ColumnDesc} (h : c.Encodable) (rest : Bytes) :
    be32 (c.encodeMetadata ++ rest) 0 = c.typeOid ∧ be16 (c.encodeMetadata ++ rest) 4 = c.typeLen ∧
      be32 (c.encodeMetadata ++ rest) 6 = c.typeMod ∧
      (c.encodeMetadata ++ rest).getD 10 0 = c.format := by
  have hoid := toBe_length 4 c.typeOid
  have hlen := toBe_length 2 c.typeLen
  have hmod := toBe_length 4 c.typeMod
  have h₁ : beInt (toBe 4 c.typeOid) = c.typeOid := beInt_toBe (by decide) h.oid.1 h.oid.2
  have h₂ : beInt (toBe 2 c.typeLen) = c.typeLen := beInt_toBe (by decide) h.len.1 h.len.2
  have h₃ : beInt (toBe 4 c.typeMod) = c.typeMod := beInt_toBe (by decide) h.mod.1 h.mod.2
  unfold encodeMetadata
  generalize toBe 4 c.typeOid = oid at hoid h₁
  generalize toBe 2 c.typeLen = len at hlen h₂
  generalize toBe 4 c.typeMod = mod at hmod h₃
  refine ⟨?_, ?_, ?_, ?_⟩
  · have hread := take_drop_middle [] oid (len ++ (mod ++ ([c.format] ++ rest))) rfl hoid
    rw [be32, ← h₁]
    refine congrArg beInt ?_
    simpa using hread
  · have hread := take_drop_middle oid len (mod ++ ([c.format] ++ rest)) hoid hlen
    rw [be16, ← h₂]
    refine congrArg beInt ?_
    simpa using hread
  · have hread := take_drop_middle (oid ++ len) mod ([c.format] ++ rest)
      (n := 6) (by simp [hoid, hlen])
      hmod
    rw [be32, ← h₃]
    refine congrArg beInt ?_
    simpa using hread
  · have hlast : (oid ++ (len ++ mod)).length = 10 := by simp [hoid, hlen, hmod]
    rw [List.getD_eq_getElem?_getD]
    have hsplit : oid ++ (len ++ (mod ++ [c.format])) ++ rest =
        (oid ++ (len ++ mod)) ++ c.format :: rest := by
      simp
    rw [hsplit, List.getElem?_append_right (Nat.le_of_eq hlast), hlast]
    rfl

theorem parseColumns_encode {columns : List ColumnDesc} (h : ∀ c ∈ columns, c.Encodable) (i : Nat)
    (rest : Bytes) :
    parseColumns columns.length i (columns.flatMap ColumnDesc.encode ++ rest) = .ok columns := by
  induction columns generalizing i with
  | nil => rfl
  | cons c columns ih =>
      have hc := h c List.mem_cons_self
      have htail := ih (fun d hd => h d (List.mem_cons_of_mem c hd)) (i + 1)
      have hdata : (c :: columns).flatMap ColumnDesc.encode ++ rest =
          toUtf8 c.name ++ 0 :: (c.encodeMetadata ++
            (columns.flatMap ColumnDesc.encode ++ rest)) := by
        simp [ColumnDesc.encode]
      generalize columns.flatMap ColumnDesc.encode ++ rest = more at htail hdata
      have hfree : ∀ b ∈ toUtf8 c.name, (b == (0 : UInt8)) = false := by
        intro b hb
        rw [beq_eq_false_iff_ne]
        intro hzero
        exact zero_not_mem_toUtf8 hc.nulFree (hzero ▸ hb)
      have hname : (toUtf8 c.name ++ 0 :: (c.encodeMetadata ++ more)).takeWhile (· != 0) =
          toUtf8 c.name := upTo_append hfree (beq_self_eq_true 0)
      have hbehind : (toUtf8 c.name ++ 0 :: (c.encodeMetadata ++ more)).dropWhile (· != 0) =
          0 :: (c.encodeMetadata ++ more) := fromOn_append hfree (beq_self_eq_true 0)
      obtain ⟨hoid, hlen, hmod, hformat⟩ := hc.metadata more
      have hlength : ¬ (c.encodeMetadata ++ more).length < 11 := by
        rw [List.length_append, c.encodeMetadata_length]
        omega
      rw [hdata, List.length_cons, parseColumns, hbehind]
      dsimp only
      rw [if_neg hlength, List.drop_left' c.encodeMetadata_length, htail, hname, hoid, hlen, hmod,
        hformat, fromUtf8Lossy_toUtf8]
      rfl

theorem parseRowDescription_encode {columns : List ColumnDesc} (hcount : columns.length ≤ 65535)
    (h : ∀ c ∈ columns, c.Encodable) (rest : Bytes) :
    parseRowDescription (encodeRowDescription columns ++ rest) = .ok columns := by
  have hlen := natToBe_length 2 columns.length
  have hread : beNat (natToBe 2 columns.length) = columns.length := by
    rw [beNat_natToBe, Nat.mod_eq_of_lt (by omega)]
  rw [encodeRowDescription, List.append_assoc]
  generalize natToBe 2 columns.length = count at hlen hread
  rw [parseRowDescription, if_neg (by rw [List.length_append]; omega), List.take_left' hlen,
    List.drop_left' hlen, hread, parseColumns_encode h]

/-! ## Tuple descriptors -/

/-- The entries of one field in the vectors of the source. -/
structure TupleField where
  fieldType : Int
  fieldSize : Int
  trueSize : Int
  fieldOffset : Int
  physField : Int
  logField : Int
  nullAllowed : Bool
  nullByteOffset : Nat
  nullBitMask : UInt8
  fixedSize : Int
  springField : Int
  deriving DecidableEq, Repr

/-- `DbosTupleDesc` with every member. -/
structure TupleDesc where
  version : Int
  nullsAllowed : Int
  sizeWord : Int
  sizeWordSize : Int
  numFixedFields : Int
  numVaryingFields : Int
  fixedFieldsSize : Int
  maxRecordSize : Int
  numFields : Nat
  fields : List TupleField
  dateStyle : Int
  euroDates : Int
  deriving DecidableEq, Repr

namespace TupleDesc

/-- The fields `ix` and following from offset `idx` on, and the two words behind the last one. -/
def parseFieldsAt (data : Bytes) (cached : Option (List ColumnDesc)) :
    (count ix idx : Nat) → Exec NzError (List TupleField × Int × Int)
  | 0, _, idx => do
      let dateStyle ← DbosTupleDesc.be32At data idx
      let euroDates ← DbosTupleDesc.be32At data (← addWord 64 idx 4)
      return ([], dateStyle, euroDates)
  | count + 1, ix, idx => do
      let ft ← DbosTupleDesc.be32At data idx
      let fieldSize ← DbosTupleDesc.be32At data (← addWord 64 idx 4)
      let trueSize ← DbosTupleDesc.be32At data (← addWord 64 idx 8)
      let fieldOffset ← DbosTupleDesc.be32At data (← addWord 64 idx 12)
      let physField ← DbosTupleDesc.be32At data (← addWord 64 idx 16)
      let fixedSize ← DbosTupleDesc.be32At data (← addWord 64 idx 28)
      if physField < 0 ∨ 100000 < physField ∨ fieldSize < -1 ∨ trueSize < -1 ∨ fieldOffset < 0 ∨
          fixedSize < 0 then
        fail (.protocol s!"invalid DBOS column {ix} layout")
      else
        let logField ← DbosTupleDesc.be32At data (← addWord 64 idx 20)
        let nullAllowed ← DbosTupleDesc.be32At data (← addWord 64 idx 24)
        let springField ← DbosTupleDesc.be32At data (← addWord 64 idx 32)
        let (fields, dates) ← parseFieldsAt data cached count (ix + 1) (← addWord 64 idx 36)
        let field : TupleField :=
          { fieldType := DbosTupleDesc.restoredType ft
              ((cached.bind fun columns => columns[ix]?).map (·.typeOid))
            fieldSize, trueSize, fieldOffset, physField, logField
            nullAllowed := nullAllowed != 0
            nullByteOffset := 2 + (physField / 8).toNat
            nullBitMask := 1 <<< UInt8.ofNat (physField % 8).toNat
            fixedSize, springField }
        return (field :: fields, dates)

/-- `DbosTupleDesc::parse`. -/
def parseAt (data : Bytes) (cached : Option (List ColumnDesc)) : Exec NzError TupleDesc :=
  if data.length < 36 then
    fail (.protocol "Invalid RowDescriptionStandard payload: descriptor header is truncated; reconnect is required.")
  else do
    let version ← DbosTupleDesc.be32At data 0
    let nullsAllowed ← DbosTupleDesc.be32At data 4
    let sizeWord ← DbosTupleDesc.be32At data 8
    let sizeWordSize ← DbosTupleDesc.be32At data 12
    let numFixedFields ← DbosTupleDesc.be32At data 16
    let numVaryingFields ← DbosTupleDesc.be32At data 20
    let fixedFieldsSize ← DbosTupleDesc.be32At data 24
    let maxRecordSize ← DbosTupleDesc.be32At data 28
    let numFields ← DbosTupleDesc.be32At data 32
    if numFields < 0 ∨ 100000 < numFields then
      fail (.protocol s!"Invalid RowDescriptionStandard payload: field count {numFields} is out of range; reconnect is required.")
    else if numFixedFields < 0 ∨ numVaryingFields < 0 ∨ numFields < numFixedFields ∨
        numFields < numVaryingFields ∨ fixedFieldsSize < 0 ∨ maxRecordSize < 0 then
      fail (.protocol "invalid DBOS field counts or record sizes")
    else if (cached.map fun columns => decide (columns.length ≠ numFields.toNat)) = some true then
      fail (.protocol "text and DBOS column counts differ")
    else
      let fieldBytes ← mulWord 64 numFields.toNat 36
      let descriptorLen ← addWord 64 36 fieldBytes
      let descriptorLen ← addWord 64 descriptorLen 8
      let _ ← lift (validateProtocolLength descriptorLen "rowDescriptionStandardDescriptor" true)
      if data.length < descriptorLen then
        fail (.protocol s!"Invalid RowDescriptionStandard payload: expected at least {descriptorLen} bytes, received {data.length}; reconnect is required.")
      else
        let (fields, dateStyle, euroDates) ← parseFieldsAt data cached numFields.toNat 0 36
        return { version, nullsAllowed, sizeWord, sizeWordSize, numFixedFields, numVaryingFields,
                 fixedFieldsSize, maxRecordSize, numFields := numFields.toNat, fields, dateStyle,
                 euroDates }

/-- The part of a field that the row decoders read. -/
def fieldToDbos (f : TupleField) : DbosField where
  fieldType := f.fieldType
  size := f.fieldSize
  trueSize := f.trueSize
  offset := f.fieldOffset
  physField := f.physField.toNat
  nullAllowed := f.nullAllowed
  fixedSize := f.fixedSize

/-- The part of a descriptor that the row decoders read. -/
def toDbos (desc : TupleDesc) : DbosTupleDesc where
  nullsAllowed := desc.nullsAllowed
  numVaryingFields := desc.numVaryingFields
  fixedFieldsSize := desc.fixedFieldsSize
  fields := desc.fields.map fieldToDbos

theorem parseFieldsAt_toDbos (data : Bytes) (cached : Option (List ColumnDesc))
    (count ix idx : Nat) :
    (fun p => p.1.map fieldToDbos) <$> parseFieldsAt data cached count ix idx =
      DbosTupleDesc.parseFieldsAt data cached count ix idx := by
  induction count generalizing ix idx with
  | zero =>
      simp only [parseFieldsAt, DbosTupleDesc.parseFieldsAt, map_bind, map_pure]
      rfl
  | succ count ih =>
      simp only [parseFieldsAt, DbosTupleDesc.parseFieldsAt, map_bind]
      -- the six words in front of the layout check, five of them behind an offset
      iterate 11 refine bind_congr fun _ => ?_
      split
      · rfl
      · simp only [map_bind, ← ih, bind_map_left]
        iterate 8 refine bind_congr fun _ => ?_
        rfl

/-- The decoders read their descriptor off the one with every member. -/
theorem parseAt_toDbos (data : Bytes) (cached : Option (List ColumnDesc)) :
    toDbos <$> parseAt data cached = DbosTupleDesc.parseAt data cached := by
  unfold parseAt DbosTupleDesc.parseAt
  by_cases hshort : data.length < 36
  · rw [if_pos hshort, if_pos hshort]
    rfl
  rw [if_neg hshort, if_neg hshort]
  simp only [map_bind]
  iterate 9 refine bind_congr fun _ => ?_
  split
  · rfl
  split
  · rfl
  split
  · rfl
  simp only [map_bind]
  iterate 4 refine bind_congr fun _ => ?_
  split
  · rfl
  rw [← parseFieldsAt_toDbos, bind_map_left, map_bind]
  rfl

/-! ## Encoded descriptors -/

/-- The words of one field on the wire. -/
structure FieldWords where
  fieldType : Int
  fieldSize : Int
  trueSize : Int
  fieldOffset : Int
  physField : Int
  logField : Int
  nullAllowed : Int
  fixedSize : Int
  springField : Int
  deriving DecidableEq, Repr

def FieldWords.words (f : FieldWords) : List Int :=
  [f.fieldType, f.fieldSize, f.trueSize, f.fieldOffset, f.physField, f.logField, f.nullAllowed,
    f.fixedSize, f.springField]

/-- A signed word of 32 bits. -/
def IsWord (w : Int) : Prop :=
  -(2 ^ 31) ≤ w ∧ w < 2 ^ 31

instance (w : Int) : Decidable (IsWord w) :=
  inferInstanceAs (Decidable (_ ∧ _))

/-- The checks of `parse` on a field. -/
structure FieldWords.Accepted (f : FieldWords) : Prop where
  words : ∀ w ∈ f.words, IsWord w
  physField : 0 ≤ f.physField ∧ f.physField ≤ 100000
  fieldSize : -1 ≤ f.fieldSize
  trueSize : -1 ≤ f.trueSize
  fieldOffset : 0 ≤ f.fieldOffset
  fixedSize : 0 ≤ f.fixedSize

/-- What `parse` keeps of a field whose cached column has the type OID `oid`. -/
def FieldWords.parsed (f : FieldWords) (oid : Option Int) : TupleField where
  fieldType := if f.fieldType = 3 ∧ oid = some 702 then 39 else f.fieldType
  fieldSize := f.fieldSize
  trueSize := f.trueSize
  fieldOffset := f.fieldOffset
  physField := f.physField
  logField := f.logField
  nullAllowed := f.nullAllowed != 0
  nullByteOffset := 2 + f.physField.toNat / 8
  nullBitMask := 1 <<< UInt8.ofNat (f.physField.toNat % 8)
  fixedSize := f.fixedSize
  springField := f.springField

/-- The words of a descriptor on the wire. -/
structure DescWords where
  version : Int
  nullsAllowed : Int
  sizeWord : Int
  sizeWordSize : Int
  numFixedFields : Int
  numVaryingFields : Int
  fixedFieldsSize : Int
  maxRecordSize : Int
  fields : List FieldWords
  dateStyle : Int
  euroDates : Int
  deriving DecidableEq, Repr

namespace DescWords

def header (d : DescWords) : List Int :=
  [d.version, d.nullsAllowed, d.sizeWord, d.sizeWordSize, d.numFixedFields, d.numVaryingFields,
    d.fixedFieldsSize, d.maxRecordSize, d.fields.length]

/-- The words behind the header. -/
def body (d : DescWords) : List Int :=
  d.fields.flatMap FieldWords.words ++ [d.dateStyle, d.euroDates]

/-- Words as they stand on the wire. -/
def encodeWords (words : List Int) : Bytes :=
  words.flatMap (toBe 4)

def encode (d : DescWords) : Bytes :=
  encodeWords d.header ++ encodeWords d.body

/-- The checks of `parse` on a descriptor. -/
structure Accepted (d : DescWords) : Prop where
  header : ∀ w ∈ d.header, IsWord w
  dates : IsWord d.dateStyle ∧ IsWord d.euroDates
  count : d.fields.length ≤ 100000
  numFixedFields : 0 ≤ d.numFixedFields ∧ d.numFixedFields ≤ d.fields.length
  numVaryingFields : 0 ≤ d.numVaryingFields ∧ d.numVaryingFields ≤ d.fields.length
  fixedFieldsSize : 0 ≤ d.fixedFieldsSize
  maxRecordSize : 0 ≤ d.maxRecordSize
  fields : ∀ f ∈ d.fields, f.Accepted

/-- The type OID of the cached column `ix`. -/
def cachedOid (cached : Option (List ColumnDesc)) (ix : Nat) : Option Int :=
  (cached.bind fun columns => columns[ix]?).map (·.typeOid)

/-- What `parse` keeps of the fields `ix` and following. -/
def parsedFields (cached : Option (List ColumnDesc)) : Nat → List FieldWords → List TupleField
  | _, [] => []
  | ix, f :: fields => f.parsed (cachedOid cached ix) :: parsedFields cached (ix + 1) fields

/-- What `parse` keeps of a descriptor. -/
def parsed (d : DescWords) (cached : Option (List ColumnDesc)) : TupleDesc where
  version := d.version
  nullsAllowed := d.nullsAllowed
  sizeWord := d.sizeWord
  sizeWordSize := d.sizeWordSize
  numFixedFields := d.numFixedFields
  numVaryingFields := d.numVaryingFields
  fixedFieldsSize := d.fixedFieldsSize
  maxRecordSize := d.maxRecordSize
  numFields := d.fields.length
  fields := parsedFields cached 0 d.fields
  dateStyle := d.dateStyle
  euroDates := d.euroDates

theorem encodeWords_cons (w : Int) (words : List Int) :
    encodeWords (w :: words) = toBe 4 w ++ encodeWords words := by
  rw [encodeWords, List.flatMap_cons, encodeWords]

theorem encodeWords_append (xs ys : List Int) :
    encodeWords (xs ++ ys) = encodeWords xs ++ encodeWords ys := by
  rw [encodeWords, List.flatMap_append, encodeWords, encodeWords]

theorem encodeWords_length (words : List Int) : (encodeWords words).length = 4 * words.length := by
  induction words with
  | nil => rfl
  | cons w words ih =>
      rw [encodeWords_cons, List.length_append, toBe_length, ih, List.length_cons]
      omega

/-- Word `k` of a stretch of words, read by its offset. -/
theorem be32_encodeWords {words : List Int} (h : ∀ w ∈ words, IsWord w) (front rest : Bytes)
    {k : Nat}
    {w : Int} (hw : words[k]? = some w) :
    be32 (front ++ (encodeWords words ++ rest)) (front.length + 4 * k) = w := by
  induction words generalizing front k with
  | nil => cases hw
  | cons v words ih =>
      rw [encodeWords_cons, List.append_assoc]
      cases k with
      | zero =>
          have hv : v = w := Option.some.inj hw
          obtain ⟨hlow, hhigh⟩ := h v List.mem_cons_self
          rw [be32, Nat.mul_zero, Nat.add_zero,
            take_drop_middle front (toBe 4 v) _ rfl (toBe_length 4 v),
            beInt_toBe (by decide) hlow hhigh, hv]
      | succ k =>
          have hread := ih (fun u hu => h u (List.mem_cons_of_mem v hu)) (front ++ toBe 4 v) hw
          rw [List.append_assoc, List.length_append, toBe_length] at hread
          have hoff : front.length + 4 * (k + 1) = front.length + 4 + 4 * k := by omega
          rw [hoff]
          exact hread

theorem be32At_encodeWords {words : List Int} (h : ∀ w ∈ words, IsWord w) (front rest : Bytes)
    (k off : Nat) (w : Int) (hw : words[k]? = some w) (hoff : off = front.length + 4 * k)
    (hsmall : off < 2 ^ 32) :
    DbosTupleDesc.be32At (front ++ (encodeWords words ++ rest)) off = .ok w := by
  obtain ⟨hk, -⟩ := List.getElem?_eq_some_iff.mp hw
  have hlen : off + 4 ≤ (front ++ (encodeWords words ++ rest)).length := by
    rw [List.length_append, List.length_append, encodeWords_length]
    omega
  rw [DbosTupleDesc.be32At_eq hlen hsmall, hoff, be32_encodeWords h front rest hw]

/-- The fields of an encoded descriptor are read back. -/
theorem parseFieldsAt_encode {fields : List FieldWords} (h : ∀ f ∈ fields, f.Accepted)
    {dateStyle euroDates : Int} (hdates : IsWord dateStyle ∧ IsWord euroDates)
    (cached : Option (List ColumnDesc)) (ix : Nat) (front rest : Bytes)
    (hsmall : front.length + 36 * fields.length < 2 ^ 30) :
    parseFieldsAt (front ++
        (encodeWords (fields.flatMap FieldWords.words ++ [dateStyle, euroDates]) ++ rest)) cached fields.length ix front.length =
      .ok (parsedFields cached ix fields, dateStyle, euroDates) := by
  induction fields generalizing ix front with
  | nil =>
      have hwords : ∀ w ∈ ([].flatMap FieldWords.words ++ [dateStyle, euroDates] : List Int),
          IsWord w := by
        simpa using hdates
      have read := be32At_encodeWords hwords front rest
      rw [List.length_nil, parseFieldsAt, read 0 front.length dateStyle rfl rfl (by omega), ok_bind,
        addWord_eq (by omega), ok_bind, read 1 (front.length + 4) euroDates rfl rfl (by omega),
        ok_bind]
      rfl
  | cons f fields ih =>
      have hf := h f List.mem_cons_self
      have hrest : ∀ g ∈ fields, g.Accepted := fun g hg => h g (List.mem_cons_of_mem f hg)
      have hwords : ∀ w ∈ (f :: fields).flatMap FieldWords.words ++ [dateStyle, euroDates],
          IsWord w := by
        intro w hw
        rcases List.mem_append.mp hw with hw | hw
        · obtain ⟨g, hg, hgw⟩ := List.mem_flatMap.mp hw
          exact (h g hg).words w hgw
        · simp only [List.mem_cons, List.not_mem_nil, or_false] at hw
          rcases hw with rfl | rfl
          · exact hdates.1
          · exact hdates.2
      have hfront : (front ++ encodeWords f.words).length = front.length + 36 := by
        rw [List.length_append, encodeWords_length]
        rfl
      rw [List.length_cons] at hsmall ⊢
      have hnext := ih hrest (ix + 1) (front ++ encodeWords f.words) (by omega)
      have hdata : front ++ (encodeWords ((f :: fields).flatMap FieldWords.words ++
          [dateStyle, euroDates]) ++ rest) = (front ++ encodeWords f.words) ++
            (encodeWords (fields.flatMap FieldWords.words ++ [dateStyle, euroDates]) ++ rest) := by
        simp only [List.flatMap_cons, encodeWords_append, List.append_assoc]
      rw [← hdata, hfront] at hnext
      have read := be32At_encodeWords hwords front rest
      have hchecks : ¬ (f.physField < 0 ∨ 100000 < f.physField ∨ f.fieldSize < -1 ∨ f.trueSize < -1 ∨
          f.fieldOffset < 0 ∨ f.fixedSize < 0) := by
        have h₁ := hf.physField
        have h₂ := hf.fieldSize
        have h₃ := hf.trueSize
        have h₄ := hf.fieldOffset
        have h₅ := hf.fixedSize
        omega
      have hbyte : (f.physField / 8).toNat = f.physField.toNat / 8 := by omega
      have hbit : (f.physField % 8).toNat = f.physField.toNat % 8 := by
        have hphys := hf.physField
        omega
      rw [parseFieldsAt, read 0 front.length f.fieldType rfl rfl (by omega), ok_bind,
        addWord_eq (by omega), ok_bind,
        read 1 (front.length + 4) f.fieldSize rfl rfl (by omega), ok_bind,
        addWord_eq (by omega), ok_bind,
        read 2 (front.length + 8) f.trueSize rfl rfl (by omega), ok_bind,
        addWord_eq (by omega), ok_bind,
        read 3 (front.length + 12) f.fieldOffset rfl rfl (by omega), ok_bind,
        addWord_eq (by omega), ok_bind,
        read 4 (front.length + 16) f.physField rfl rfl (by omega), ok_bind,
        addWord_eq (by omega), ok_bind,
        read 7 (front.length + 28) f.fixedSize rfl rfl (by omega), ok_bind, if_neg hchecks,
        addWord_eq (by omega), ok_bind,
        read 5 (front.length + 20) f.logField rfl rfl (by omega), ok_bind,
        addWord_eq (by omega), ok_bind,
        read 6 (front.length + 24) f.nullAllowed rfl rfl (by omega), ok_bind,
        addWord_eq (by omega), ok_bind,
        read 8 (front.length + 32) f.springField rfl rfl (by omega), ok_bind,
        addWord_eq (by omega), ok_bind, hnext,
        ok_bind]
      dsimp only
      rw [hbyte, hbit]
      rfl

/-- A descriptor that meets the checks is read back from its encoding. -/
theorem Accepted.parseAt {d : DescWords} (h : d.Accepted) {cached : Option (List ColumnDesc)}
    (hcached : ∀ columns, cached = some columns → columns.length = d.fields.length) (rest : Bytes) :
    TupleDesc.parseAt (d.encode ++ rest) cached = .ok (d.parsed cached) := by
  have hcount := h.count
  have hbody : (encodeWords d.body).length = 36 * d.fields.length + 8 := by
    have hwords : (d.fields.flatMap FieldWords.words).length = 9 * d.fields.length := by
      induction d.fields with
      | nil => rfl
      | cons f fields ih =>
          rw [List.flatMap_cons, List.length_append, ih, List.length_cons]
          have hnine : f.words.length = 9 := rfl
          omega
    rw [encodeWords_length, body, List.length_append, hwords]
    simp only [List.length_cons, List.length_nil]
    omega
  have hheader : (encodeWords d.header).length = 36 := encodeWords_length d.header
  have hlen : (d.encode ++ rest).length = 36 + 36 * d.fields.length + 8 + rest.length := by
    rw [encode, List.length_append, List.length_append, hbody, hheader]
    omega
  have hdata : d.encode ++ rest = [] ++ (encodeWords d.header ++ (encodeWords d.body ++ rest)) := by
    rw [encode, List.append_assoc, List.nil_append]
  have read := be32At_encodeWords h.header [] (encodeWords d.body ++ rest)
  have hfields := parseFieldsAt_encode h.fields h.dates cached 0 (encodeWords d.header) rest
    (by omega)
  rw [hheader] at hfields
  have hrange : ¬ ((d.fields.length : Int) < 0 ∨ 100000 < (d.fields.length : Int)) := by omega
  have hcounts : ¬ (d.numFixedFields < 0 ∨ d.numVaryingFields < 0 ∨
      (d.fields.length : Int) < d.numFixedFields ∨ (d.fields.length : Int) < d.numVaryingFields ∨
        d.fixedFieldsSize < 0 ∨ d.maxRecordSize < 0) := by
    have h₁ := h.numFixedFields
    have h₂ := h.numVaryingFields
    have h₃ := h.fixedFieldsSize
    have h₄ := h.maxRecordSize
    omega
  have hcolumns : ¬ (cached.map fun columns => decide (columns.length ≠ d.fields.length)) =
      some true := by
    cases hc : cached with
    | none => simp
    | some columns => simp [hcached columns hc]
  have hvalid : validateProtocolLength ((36 + d.fields.length * 36 + 8 : Nat) : Int)
      "rowDescriptionStandardDescriptor" true = .ok (36 + d.fields.length * 36 + 8) := by
    rw [validateProtocolLength_eq_ok]
    refine ⟨rfl, ?_, .inl rfl⟩
    simp only [maxProtocolPayload]
    omega
  unfold TupleDesc.parseAt
  rw [if_neg (by omega), hdata]
  rw [read 0 0 d.version rfl rfl (by omega), ok_bind, read 1 4 d.nullsAllowed rfl rfl (by omega),
    ok_bind, read 2 8 d.sizeWord rfl rfl (by omega), ok_bind,
    read 3 12 d.sizeWordSize rfl rfl (by omega), ok_bind,
    read 4 16 d.numFixedFields rfl rfl (by omega), ok_bind,
    read 5 20 d.numVaryingFields rfl rfl (by omega), ok_bind,
    read 6 24 d.fixedFieldsSize rfl rfl (by omega), ok_bind,
    read 7 28 d.maxRecordSize rfl rfl (by omega), ok_bind,
    read 8 32 (d.fields.length : Int) rfl rfl (by omega), ok_bind, if_neg hrange, if_neg hcounts,
    Int.toNat_natCast, if_neg hcolumns, mulWord_eq (by omega), ok_bind, addWord_eq (by omega), ok_bind,
    addWord_eq (by omega), ok_bind, hvalid, lift, ok_bind, ← hdata, if_neg (by omega), hdata]
  rw [List.nil_append, body, hfields, ok_bind]
  rfl

end DescWords

end TupleDesc

/--
Encoded descriptions are read back, a text description of any bytes has the
announced number of columns or is refused, and neither parse panics.
-/
theorem descriptions_round_trip :
    (∀ columns : List ColumnDesc, columns.length ≤ 65535 → (∀ c ∈ columns, c.Encodable) →
      ∀ rest, parseRowDescriptionAt (encodeRowDescription columns ++ rest) = .ok columns) ∧
    (∀ data, parseRowDescriptionAt data ≠ panics ∧
      ∀ columns, parseRowDescriptionAt data = .ok columns →
        columns.length = beNat (data.take 2)) ∧
    ∀ d : TupleDesc.DescWords, d.Accepted → ∀ cached : Option (List ColumnDesc),
      (∀ columns, cached = some columns → columns.length = d.fields.length) →
      ∀ rest, TupleDesc.parseAt (d.encode ++ rest) cached = .ok (d.parsed cached) := by
  refine ⟨?_, ?_, ?_⟩
  · intro columns hcount hcolumns rest
    rw [parseRowDescriptionAt_eq, parseRowDescription_encode hcount hcolumns]
    rfl
  · intro data
    rw [parseRowDescriptionAt_eq]
    refine ⟨?_, ?_⟩
    · cases parseRowDescription data with
      | ok columns =>
          intro h
          cases h
      | error e =>
          intro h
          cases h
    · intro columns h
      exact parseRowDescription_length (lift_ok h)
  · intro d h cached hcached rest
    exact h.parseAt hcached rest

theorem descriptions_round_trip_short :
    parseRowDescriptionAt (encodeRowDescription [⟨['a'], 23, 4, -1, 0⟩] ++ []) =
        .ok [⟨['a'], 23, 4, -1, 0⟩] ∧
      TupleDesc.parseAt
          (TupleDesc.DescWords.encode ⟨1, 1, 0, 0, 1, 0, 4, 7, [⟨3, 4, 4, 0, 9, 0, 1, 4, 0⟩], 0, 0⟩ ++ [])
          (some [⟨['a'], 702, 4, -1, 0⟩]) =
        .ok ⟨1, 1, 0, 0, 1, 0, 4, 7, 1, [⟨39, 4, 4, 0, 9, 0, true, 3, 2, 4, 0⟩], 0, 0⟩ := by
  constructor
  · apply descriptions_round_trip.1 _ (by decide)
    intro c hc
    rw [List.mem_singleton.mp hc]
    exact ⟨by decide, by decide, by decide, by decide⟩
  · refine descriptions_round_trip.2.2 _ ⟨by decide, by decide, by decide, by decide, by decide,
      by decide, by decide, ?_⟩ _ ?_ []
    · intro f hf
      rw [List.mem_singleton.mp hf]
      exact ⟨by decide, by decide, by decide, by decide, by decide, by decide⟩
    · intro columns hcolumns
      cases hcolumns
      rfl

end NzRust
