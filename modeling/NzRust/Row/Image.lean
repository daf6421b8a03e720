import Mathlib.Data.List.Nodup
import NzRust.Lib.Area
import NzRust.Row.TextLayout
import NzRust.Types.Utf8

/-!
# Binary rows as they are laid out

A row from the other side: the fields of a descriptor with a cell for each, put
together as two reserved bytes, a null bitmap by physical field, a fixed area
and the varying values. An `Image` keeps the places of its fields apart; the
parser reads from it what was put in.
-/

namespace NzRust.DbosTupleDesc

open ByteString Checked Area

/-! ## Cells -/

/-- The content of a field that is not null. -/
inductive Cell where
  | bool (value : Bool)
  | int1 (value : Int8)
  | int2 (value : Int16)
  | int4 (value : Int32)
  | int8 (value : Int64)
  | date (days : Int32)
  | time (micros : Int64)
  | timestamp (micros : Int64)
  | interval (micros : Int64) (months : Int32)
  | timetz (micros : Int64) (zone : Int32)
  | char (text : Text)
  | numeric (words : Bytes)
  | varchar (text : Text)
  | nvarchar (text : Text)
  | bytea (bytes : Bytes)

namespace Cell

def kind : Cell → FieldKind
  | bool _ => .bool
  | int1 _ => .int1
  | int2 _ => .int2
  | int4 _ => .int
  | int8 _ => .int8
  | date _ => .date
  | time _ => .time
  | timestamp _ => .timestamp
  | interval _ _ => .interval
  | timetz _ _ => .timetz
  | char _ => .char
  | numeric _ => .numeric
  | varchar _ => .varchar
  | nvarchar _ => .nchar
  | bytea _ => .opaqueBytes

def isVarying : Cell → Bool
  | varchar _ => true
  | nvarchar _ => true
  | bytea _ => true
  | _ => false

/-- The bytes of a cell, apart from the length of a varying one. -/
def bytes : Cell → Bytes
  | bool value => [if value then 1 else 0]
  | int1 value => toLe 1 value.toInt
  | int2 value => toLe 2 value.toInt
  | int4 value => toLe 4 value.toInt
  | int8 value => toLe 8 value.toInt
  | date days => toLe 4 days.toInt
  | time micros => toLe 8 micros.toInt
  | timestamp micros => toLe 8 micros.toInt
  | interval micros months => toLe 8 micros.toInt ++ toLe 4 months.toInt
  | timetz micros zone => toLe 8 micros.toInt ++ toLe 4 zone.toInt
  | char text => toUtf8 text
  | numeric words => words
  | varchar text => toUtf8 text
  | nvarchar text => toUtf8 text
  | bytea bytes => bytes

/-- The value that a cell stands for. -/
def value {N : Numerics} (ops : NumberOps N) (f : DbosField) : Cell → Exec NzError (NzValue N)
  | bool value => .ok (.bool value)
  | int1 value => .ok (.int2 (Int16.ofInt value.toInt))
  | int2 value => .ok (.int2 value)
  | int4 value => .ok (.int4 value)
  | int8 value => .ok (.int8 value)
  | date days => .ok (.date (Datetime.dateFrom4bytes days.toInt))
  | time micros => .ok (.time (Datetime.timeFrom8bytes micros.toInt))
  | timestamp micros => .ok (.timestamp (Datetime.timestampFrom8bytes micros.toInt))
  | interval micros months =>
      .ok (.interval (Datetime.intervalFrom12bytes micros.toInt months.toInt))
  | timetz micros zone => .ok (.timetz (Datetime.timetzFromBytes micros.toInt zone.toInt))
  | char text => .ok (.text (trimEndMatches ' ' text))
  | numeric words => do
      let decoded ← Numeric.getCsNumeric ops words (fieldPrecision f.size) (fieldScale f.size)
        (f.trueSize.tdiv 4)
      return decoded.value
  | varchar text => .ok (.text text)
  | nvarchar text => .ok (.text (trimEndMatches '\x00' text))
  | bytea bytes => .ok (.bytea bytes)

/-- A cell of the type and the size of a field. -/
structure Fits (f : DbosField) (c : Cell) : Prop where
  kind : f.kind = c.kind
  varying : c.isVarying = true → f.fixedSize = 0 ∧ c.bytes.length + 2 < 2 ^ 16
  fixed : c.isVarying = false → 0 < f.fixedSize ∧ fixedWidth f = .ok c.bytes.length
  timetz : c.kind = .timetz → f.size = 12

end Cell

/-! ## Rows -/

variable {N : Numerics} (ops : NumberOps N)

/-- A field, its cell and the value of it. -/
structure Entry where
  field : DbosField
  cell : Option Cell
  value : NzValue N
  null : cell = none → value = .null
  fits : ∀ c, cell = some c → c.Fits field ∧ c.value ops field = .ok value

/-- The bytes in front of the fixed fields. -/
def headerLen (count : Nat) : Nat :=
  2 + (count + 7) / 8

variable {ops}

namespace Entry

def isVarying (e : Entry ops) : Bool :=
  e.field.fixedSize == 0

/-- The width of a fixed field. -/
def width (e : Entry ops) : Nat :=
  (fixedWidth e.field).toOption.getD 0

/-- The bytes of a fixed field and where they stand. -/
def write (e : Entry ops) : Option (Nat × Bytes) :=
  if e.isVarying then none else e.cell.map fun c => (e.field.offset.toNat, c.bytes)

/-- Whether a field that is null has a physical number. -/
def marks (p : Nat) (e : Entry ops) : Bool :=
  e.field.physField == p && e.cell.isNone

end Entry

def byteOf (bit : Nat → Bool) : UInt8 :=
  UInt8.ofNat ((List.range 8).map fun k => (bit k).toNat * 2 ^ k).sum

/-- The null bitmap, the least significant bit of each byte first. -/
def nullBitmap (entries : List (Entry ops)) : Bytes :=
  (List.range ((entries.length + 7) / 8)).map fun b =>
    byteOf fun k => entries.any (Entry.marks (8 * b + k))

/-- A varying value: a length that counts itself, the bytes, and a byte to even size. -/
def encodeSlot (bytes : Bytes) : Bytes :=
  toLe 2 (bytes.length + 2 : Nat) ++ (bytes ++ List.replicate (bytes.length % 2) 0)

/-- The fields and cells of a row, with places of their own. -/
structure Image (ops : NumberOps N) where
  nullsAllowed : Int
  fixedFieldsSize : Nat
  entries : List (Entry ops)
  /-- The bytes of the fixed area where nothing else stands. -/
  background : Bytes
  /-- What stands in the slot of a varying field that is null. -/
  filler : Nat → Bytes
  hsize : fixedFieldsSize < 2 ^ 31
  hbackground : background.length = fixedFieldsSize
  hheader : headerLen entries.length ≤ fixedFieldsSize
  hfiller : ∀ j, (filler j).length + 2 < 2 ^ 16
  hnulls : nullsAllowed = 0 → ∀ e ∈ entries, e.cell ≠ none
  hphys : (entries.map fun e => e.field.physField).Perm (List.range entries.length)
  hfixed : ∀ e ∈ entries, e.isVarying = false → fixedWidth e.field = .ok e.width ∧
    headerLen entries.length ≤ e.field.offset ∧ e.field.offset + e.width ≤ fixedFieldsSize
  hapart : entries.Pairwise fun a b => a.isVarying = false → b.isVarying = false →
    a.field.offset + (a.width : Int) ≤ b.field.offset ∨
      b.field.offset + (b.width : Int) ≤ a.field.offset
  hvarying : ((entries.filter Entry.isVarying).map fun e => e.field.offset).Perm
    ((List.range (entries.filter Entry.isVarying).length).map Int.ofNat)

namespace Image

variable (image : Image ops)

def numVarying : Nat :=
  (image.entries.filter Entry.isVarying).length

def desc : DbosTupleDesc :=
  ⟨image.nullsAllowed, image.numVarying, image.fixedFieldsSize, image.entries.map (·.field)⟩

def values : List (NzValue N) :=
  image.entries.map (·.value)

/-- The reserved bytes, the bitmap and the fixed area. -/
def head : Bytes :=
  pokeAll (poke image.background 2 (nullBitmap image.entries)) (image.entries.filterMap Entry.write)

/-- The content of a varying slot. -/
def slot (j : Nat) : Bytes :=
  match image.entries.find? fun e => e.isVarying && e.field.offset == Int.ofNat j with
  | some e => (e.cell.map Cell.bytes).getD (image.filler j)
  | none => image.filler j

def slots : List Bytes :=
  (List.range image.numVarying).map image.slot

def row : Bytes :=
  image.head ++ image.slots.flatMap encodeSlot

end Image

/-! ## Reading one cell -/

section Read

variable {row : Bytes} {off : Nat} {bytes : Bytes}

theorem slice_at (h : At row off bytes) :
    (slice row off (off + bytes.length) : Exec NzError Bytes) = .ok bytes := by
  rw [slice_eq (by omega) h.room, Nat.add_sub_cancel_left, h.items]

theorem getSlice_at (h : At row off bytes) :
    getSlice row off (off + bytes.length) = some bytes := by
  rw [getSlice, if_pos ⟨by omega, h.room⟩, Nat.add_sub_cancel_left, h.items]

variable (hsmall : row.length < 2 ^ 63)

include hsmall

theorem overruns_at (h : At row off bytes) :
    overruns row (addChecked 64 off bytes.length) = false :=
  RawRow.overruns_add (by omega) h.room

theorem fixedBytes_at (h : At row off bytes) {n : Nat} (hn : bytes.length = n) (i : Nat) :
    fixedBytes row off n i = .ok bytes := by
  have hroom := h.room
  rw [fixedBytes, ← hn, addWord_eq (by omega), ok_bind, if_neg (by omega), slice_at h]

omit hsmall in
theorem fixedByte_at {b : UInt8} (h : At row off [b]) (i : Nat) : fixedByte row off i = .ok b := by
  have hroom : off < row.length := h.room
  have hget := h.getElem? (show 0 < [b].length from Nat.one_pos)
  rw [fixedByte, if_neg (by omega), index, show row[off]? = some b from hget]

theorem lengthAt_at {n : Nat} (h : At row off (toLe 2 n)) (hn : n < 2 ^ 16) :
    lengthAt row off = .ok n := by
  have hroom := h.room
  have hslice := slice_at h
  rw [toLe_length] at hroom hslice
  rw [lengthAt, addWord_eq (by omega), ok_bind, hslice, ok_bind, leNat_toLe hn]
  rfl

theorem prefixedBytes_at (h : At row off (toLe 2 (bytes.length + 2 : Nat) ++ bytes))
    (hlen : bytes.length + 2 < 2 ^ 16) (i : Nat) : prefixedBytes row off i = .ok bytes := by
  obtain ⟨hlead, hbytes⟩ := h.parts
  have hroom := hbytes.room
  rw [toLe_length] at hbytes hroom
  rw [prefixedBytes, addWord_eq (by omega), ok_bind, if_neg (by omega),
    lengthAt_at hsmall hlead hlen, ok_bind, if_neg (by omega), Nat.add_sub_cancel,
    addWord_eq (by omega), ok_bind, if_neg (by omega), slice_at hbytes]

omit hsmall in
theorem size_of_char {f : DbosField} (hkind : f.kind = .char) {n : Nat}
    (hwidth : fixedWidth f = .ok n) : 0 ≤ f.size ∧ f.size.toNat = n := by
  have htype : f.fieldType = 15 := f.type_of_kind (by rw [hkind]; rfl)
  have hsize : fixedWidth f =
      if f.size < 0 then .error (.protocol "invalid fixed field width") else .ok f.size.toNat := by
    simp [fixedWidth, htype]
  rw [hsize] at hwidth
  split at hwidth
  · cases hwidth
  · exact ⟨by omega, Except.ok.inj hwidth⟩

omit hsmall in
theorem parseField_numeric {f : DbosField} (hkind : f.kind = .numeric) (h : At row off bytes)
    {decoded : NumericDecoded N} (hdecoded : Numeric.getCsNumeric ops bytes (fieldPrecision f.size)
      (fieldScale f.size) (f.trueSize.tdiv 4) = .ok decoded) (i : Nat) :
    parseField ops row off i f = .ok decoded.value := by
  have hroom := h.room
  have hrest : row.drop off = bytes ++ row.drop (off + bytes.length) := by
    have hsplit := List.take_append_drop bytes.length (row.drop off)
    rw [h.items, List.drop_drop] at hsplit
    exact hsplit.symm
  rw [parseField, hkind]
  dsimp only
  rw [Nat.min_eq_left (by omega), slice_eq (by omega) (Nat.le_refl _), ok_bind,
    List.take_of_length_le (by rw [List.length_drop]), hrest,
    Numeric.getCsNumeric_append ops _ hdecoded, ok_bind]
  rfl

/-- A fixed cell is read where it stands. -/
theorem parseField_fixed {f : DbosField} {c : Cell} (hfits : c.Fits f)
    (hfixed : c.isVarying = false) (h : At row off c.bytes) {v : NzValue N}
    (hvalue : c.value ops f = .ok v) (i : Nat) : parseField ops row off i f = .ok v := by
  have hkind := hfits.kind
  have hwidth := (hfits.fixed hfixed).2
  have hroom := h.room
  cases c with
  | bool value =>
      cases hvalue
      rw [parseField, hkind]
      dsimp only [Cell.kind]
      rw [fixedByte_at h, ok_bind]
      cases value <;> rfl
  | int1 value =>
      cases hvalue
      have hsingle : ∃ b, Cell.bytes (.int1 value) = [b] :=
        List.length_eq_one_iff.mp (toLe_length 1 value.toInt)
      obtain ⟨b, hb⟩ := hsingle
      have hread : leInt [b] = value.toInt := by
        rw [← hb]
        exact leInt_toLe (by decide) value.le_toInt value.toInt_lt
      rw [hb] at h
      rw [parseField, hkind]
      dsimp only [Cell.kind]
      rw [fixedByte_at h, ok_bind, hread]
      rfl
  | int2 value =>
      cases hvalue
      rw [parseField, hkind]
      dsimp only [Cell.kind]
      rw [fixedBytes_at hsmall h (toLe_length 2 _), ok_bind, Cell.bytes,
        leInt_toLe (by decide) value.le_toInt value.toInt_lt, Int16.ofInt_toInt]
      rfl
  | int4 value =>
      cases hvalue
      rw [parseField, hkind]
      dsimp only [Cell.kind]
      rw [fixedBytes_at hsmall h (toLe_length 4 _), ok_bind, Cell.bytes,
        leInt_toLe (by decide) value.le_toInt value.toInt_lt, Int32.ofInt_toInt]
      rfl
  | int8 value =>
      cases hvalue
      rw [parseField, hkind]
      dsimp only [Cell.kind]
      rw [fixedBytes_at hsmall h (toLe_length 8 _), ok_bind, Cell.bytes,
        leInt_toLe (by decide) value.le_toInt value.toInt_lt, Int64.ofInt_toInt]
      rfl
  | date days =>
      cases hvalue
      rw [parseField, hkind]
      dsimp only [Cell.kind]
      rw [fixedBytes_at hsmall h (toLe_length 4 _), ok_bind, Cell.bytes,
        leInt_toLe (by decide) days.le_toInt days.toInt_lt,
        Machine.dateFrom4bytes_eq days.le_toInt days.toInt_lt]
      rfl
  | time micros =>
      cases hvalue
      rw [parseField, hkind]
      dsimp only [Cell.kind]
      rw [fixedBytes_at hsmall h (toLe_length 8 _), ok_bind, Cell.bytes,
        leInt_toLe (by decide) micros.le_toInt micros.toInt_lt, Machine.timeFrom8bytes_eq]
      rfl
  | timestamp micros =>
      cases hvalue
      rw [parseField, hkind]
      dsimp only [Cell.kind]
      rw [fixedBytes_at hsmall h (toLe_length 8 _), ok_bind, Cell.bytes,
        leInt_toLe (by decide) micros.le_toInt micros.toInt_lt,
        Machine.timestampFrom8bytes_eq micros.le_toInt micros.toInt_lt]
      rfl
  | interval micros months =>
      cases hvalue
      have hlen : (toLe 8 micros.toInt ++ toLe 4 months.toInt).length = 12 := by
        rw [List.length_append, toLe_length, toLe_length]
      rw [parseField, hkind]
      dsimp only [Cell.kind]
      rw [fixedBytes_at hsmall h hlen, ok_bind, Cell.bytes, Machine.intervalFrom12bytes_eq hlen,
        List.take_left' (toLe_length 8 _), List.drop_left' (toLe_length 8 _),
        leInt_toLe (by decide) micros.le_toInt micros.toInt_lt,
        leInt_toLe (by decide) months.le_toInt months.toInt_lt]
      rfl
  | timetz micros zone =>
      cases hvalue
      have hlen : (toLe 8 micros.toInt ++ toLe 4 zone.toInt).length = 12 := by
        rw [List.length_append, toLe_length, toLe_length]
      have hsize : asWord 64 f.size = 12 := by
        rw [hfits.timetz rfl]
        rfl
      have hroom : off + 12 ≤ row.length := by
        rw [← hlen]
        exact h.room
      have hover : overruns row (addChecked 64 off 12) = false :=
        RawRow.overruns_add (by omega) hroom
      have hslice : (slice row off (off + 12) : Exec NzError Bytes) =
          .ok (toLe 8 micros.toInt ++ toLe 4 zone.toInt) := by
        rw [← hlen]
        exact slice_at h
      rw [parseField, hkind]
      dsimp only [Cell.kind]
      rw [hsize, hover, if_neg (by decide), addWord_eq (by omega), ok_bind, hslice, ok_bind,
        Machine.timetzFromBytes_eq hlen (Nat.le_refl 12), List.take_left' (toLe_length 8 _),
        List.drop_left' (toLe_length 8 _),
        leInt_toLe (by decide) micros.le_toInt micros.toInt_lt,
        leInt_toLe (by decide) zone.le_toInt zone.toInt_lt]
      rfl
  | char text =>
      cases hvalue
      obtain ⟨hnonneg, hsize⟩ := size_of_char hkind hwidth
      have hword : asWord 64 f.size = (Cell.bytes (.char text)).length := by
        rw [asWord_eq hnonneg (by omega), hsize]
      rw [parseField, hkind]
      dsimp only [Cell.kind]
      rw [hword, addChecked, if_pos (by omega), Option.bind_some, getSlice_at h, orFail, ok_bind,
        utf8Field, Cell.bytes, fromUtf8_toUtf8]
      rfl
  | numeric words =>
      obtain ⟨decoded, hdecoded, hv⟩ := bind_ok hvalue
      cases hv
      exact parseField_numeric hkind h hdecoded i
  | varchar text => cases hfixed
  | nvarchar text => cases hfixed
  | bytea bytes => cases hfixed

/-- A varying cell is read behind its length. -/
theorem parseField_varying {f : DbosField} {c : Cell} (hfits : c.Fits f)
    (hvarying : c.isVarying = true)
    (h : At row off (toLe 2 (c.bytes.length + 2 : Nat) ++ c.bytes)) {v : NzValue N}
    (hvalue : c.value ops f = .ok v) (i : Nat) : parseField ops row off i f = .ok v := by
  have hkind := hfits.kind
  obtain ⟨hfixed, hlen⟩ := hfits.varying hvarying
  cases c with
  | varchar text =>
      cases hvalue
      rw [parseField, hkind]
      dsimp only [Cell.kind]
      rw [prefixedBytes_at hsmall h hlen, ok_bind, utf8Field, Cell.bytes, fromUtf8_toUtf8]
      rfl
  | nvarchar text =>
      cases hvalue
      rw [parseField, hkind]
      dsimp only [Cell.kind]
      rw [prefixedBytes_at hsmall h hlen, ok_bind, utf8Field, Cell.bytes, fromUtf8_toUtf8]
      rfl
  | bytea bytes =>
      cases hvalue
      obtain ⟨hlead, hbytes⟩ := h.parts
      have hroom := hbytes.room
      have hget := getSlice_at hlead
      have hget' := getSlice_at hbytes
      rw [toLe_length] at hbytes hroom hget hget'
      dsimp only [Cell.bytes] at hlen hroom hget hget'
      rw [parseField, hkind]
      dsimp only [Cell.kind]
      rw [opaqueBytes, if_neg (by omega), addChecked, if_pos (by omega), Option.bind_some, hget,
        orFail, ok_bind, leNat_toLe hlen, if_neg (by omega), addChecked, if_pos (by omega)]
      dsimp only
      rw [addWord_eq (by omega), ok_bind, show off + (bytes.length + 2) = off + 2 + bytes.length by
        omega, hget', orFail, ok_bind]
      rfl
  | _ => cases hvarying

/-! ## Places -/

theorem rowFieldStart_fixed {f : DbosField} {c : Cell} (hfits : c.Fits f)
    (hfixed : c.isVarying = false) (h : At row off c.bytes) (hoff : f.offset = off)
    (desc : DbosTupleDesc) (starts : List Nat) (i : Nat) :
    desc.rowFieldStart row i f starts = .ok off := by
  obtain ⟨hpos, hwidth⟩ := hfits.fixed hfixed
  have hover := overruns_at hsmall h
  rw [rowFieldStart, if_pos (by omega), if_neg (by omega), if_neg (by omega), hwidth, lift, ok_bind,
    hoff, Int.toNat_natCast, hover, if_neg (by decide)]
  rfl

theorem validateRowFieldStorage_fixed {f : DbosField} {c : Cell} (hfits : c.Fits f)
    (hfixed : c.isVarying = false) (h : At row off c.bytes) (i : Nat) :
    validateRowFieldStorage row i f off = .ok () := by
  obtain ⟨hpos, hwidth⟩ := hfits.fixed hfixed
  have hroom := h.room
  have hbound : fixedEnd i f off = .ok (some (off + c.bytes.length)) := by
    rw [fixedEnd, if_pos (by omega), hwidth, lift, ok_bind, addChecked, if_pos (by omega)]
    rfl
  rw [validateRowFieldStorage, hbound, ok_bind, hfits.kind]
  cases c with
  | timetz micros zone =>
      have hlen : (Cell.bytes (.timetz micros zone)).length = 12 := by
        rw [Cell.bytes, List.length_append, toLe_length, toLe_length]
      have hsize : f.size = 12 := hfits.timetz rfl
      rw [hlen] at hroom ⊢
      dsimp only [Cell.kind]
      rw [hsize, if_neg (by decide), addChecked, if_pos (by omega), orFail, ok_bind, if_neg]
      · rfl
      · simp
        omega
  | char text =>
      obtain ⟨hnonneg, hsize⟩ := size_of_char hfits.kind hwidth
      dsimp only [Cell.kind]
      rw [if_neg (by omega), hsize, addChecked, if_pos (by omega), orFail, ok_bind, if_neg]
      · rfl
      · simp
        omega
  | varchar text => cases hfixed
  | nvarchar text => cases hfixed
  | bytea bytes => cases hfixed
  | _ => rfl

theorem rowFieldStart_varying {f : DbosField} {c : Cell} (hfits : c.Fits f)
    (hvarying : c.isVarying = true)
    (h : At row off (toLe 2 (c.bytes.length + 2 : Nat) ++ c.bytes)) {starts : List Nat}
    (hoff : 0 ≤ f.offset) (hstart : starts[f.offset.toNat]? = some off) (desc : DbosTupleDesc)
    (i : Nat) : desc.rowFieldStart row i f starts = .ok off := by
  obtain ⟨hfixed, hlen⟩ := hfits.varying hvarying
  obtain ⟨hin, hget⟩ := List.getElem?_eq_some_iff.mp hstart
  have hroom := h.room
  rw [List.length_append, toLe_length] at hroom
  have hne : starts ≠ [] := List.ne_nil_of_length_pos (by omega)
  have hover : overruns row (addChecked 64 off (c.bytes.length + 2)) = false :=
    RawRow.overruns_add (by omega) (by omega)
  rw [rowFieldStart, if_neg (by omega), if_pos hne, if_neg (by omega), index_eq hin, hget, ok_bind,
    lengthAt_at hsmall h.parts.1 hlen, ok_bind, hover, if_neg]
  · rfl
  · rintro (hshort | hfalse)
    · omega
    · cases hfalse

theorem validateRowFieldStorage_varying {f : DbosField} {c : Cell} (hfits : c.Fits f)
    (hvarying : c.isVarying = true)
    (h : At row off (toLe 2 (c.bytes.length + 2 : Nat) ++ c.bytes)) (i : Nat) :
    validateRowFieldStorage row i f off = .ok () := by
  obtain ⟨hfixed, hlen⟩ := hfits.varying hvarying
  have hroom := h.room
  rw [List.length_append, toLe_length] at hroom
  have hbound : fixedEnd i f off = .ok none := if_neg (by omega)
  have hlead : overruns row (addChecked 64 off 2) = false :=
    RawRow.overruns_add (by omega) (by omega)
  rw [validateRowFieldStorage, hbound, ok_bind, hfits.kind]
  cases c with
  | varchar text | nvarchar text =>
      dsimp only [Cell.kind]
      rw [hlead, if_neg (by decide), addWord_eq (by omega), ok_bind, if_neg (by simp),
        lengthAt_at hsmall h.parts.1 hlen, ok_bind, addChecked, if_pos (by omega), orFail, ok_bind,
        if_neg]
      · rfl
      · simp
        omega
  | bytea bytes => rfl
  | _ => cases hvarying

end Read

/-! ## Varying slots -/

theorem encodeSlot_length (bytes : Bytes) :
    (encodeSlot bytes).length = bytes.length + 2 + (bytes.length + 2) % 2 := by
  rw [encodeSlot, List.length_append, List.length_append, toLe_length, List.length_replicate]
  omega

/-- Where slots start that follow each other. -/
def slotStarts : Nat → List Bytes → List Nat
  | _, [] => []
  | off, bytes :: slots => off :: slotStarts (off + (encodeSlot bytes).length) slots

section Slots

variable {row : Bytes} (hsmall : row.length < 2 ^ 63)

theorem slot_at {bytes rest : Bytes} {off : Nat} (hoff : off ≤ row.length)
    (hdrop : row.drop off = encodeSlot bytes ++ rest) :
    At row off (toLe 2 (bytes.length + 2 : Nat) ++ bytes) ∧
      off + (encodeSlot bytes).length ≤ row.length ∧
      row.drop (off + (encodeSlot bytes).length) = rest := by
  have hlen := congrArg List.length hdrop
  rw [List.length_drop, List.length_append, encodeSlot_length] at hlen
  refine ⟨⟨?_, ?_⟩, ?_, ?_⟩
  · rw [List.length_append, toLe_length]
    omega
  · rw [hdrop, encodeSlot, List.append_assoc, List.append_assoc, ← List.append_assoc,
      List.take_left]
  · rw [encodeSlot_length]
    omega
  · rw [← List.drop_drop, hdrop, List.drop_left]

theorem slotStarts_at (slots : List Bytes) {off : Nat} (hoff : off ≤ row.length)
    (hdrop : row.drop off = slots.flatMap encodeSlot) {j : Nat} {bytes : Bytes}
    (hj : slots[j]? = some bytes) :
    ∃ start, (slotStarts off slots)[j]? = some start ∧
      At row start (toLe 2 (bytes.length + 2 : Nat) ++ bytes) := by
  induction slots generalizing off j with
  | nil => cases hj
  | cons first slots ih =>
      rw [List.flatMap_cons] at hdrop
      obtain ⟨hat, hnext, hrest⟩ := slot_at hoff hdrop
      cases j with
      | zero =>
          cases hj
          exact ⟨off, rfl, hat⟩
      | succ j => exact ih hnext hrest hj

include hsmall

theorem varyingStarts_slots (slots : List Bytes) (hslots : ∀ b ∈ slots, b.length + 2 < 2 ^ 16)
    (j : Nat) {off : Nat} (hoff : off ≤ row.length)
    (hdrop : row.drop off = slots.flatMap encodeSlot) :
    varyingStarts row slots.length j off = .ok (slotStarts off slots) := by
  induction slots generalizing off j with
  | nil => rfl
  | cons bytes slots ih =>
      rw [List.flatMap_cons] at hdrop
      have hlen := hslots bytes List.mem_cons_self
      obtain ⟨hat, hnext, hrest⟩ := slot_at hoff hdrop
      have hroom := hat.room
      rw [List.length_append, toLe_length] at hroom
      have hpad : (if (bytes.length + 2) % 2 ≠ 0 then addWord 64 (off + (bytes.length + 2)) 1
          else .ok (off + (bytes.length + 2))) =
          (.ok (off + (encodeSlot bytes).length) : Exec NzError Nat) := by
        rw [encodeSlot_length] at hnext ⊢
        by_cases hodd : (bytes.length + 2) % 2 ≠ 0
        · rw [if_pos hodd, addWord_eq (by omega)]
          congr 1
          omega
        · rw [if_neg hodd]
          congr 1
          omega
      have hmore := ih (fun b hb => hslots b (List.mem_cons_of_mem _ hb)) (j + 1) hnext hrest
      rw [List.length_cons, varyingStarts, addWord_eq (by omega), ok_bind, if_neg (by omega),
        lengthAt_at hsmall hat.parts.1 hlen, ok_bind, if_neg (by omega), addWord_eq (by omega),
        ok_bind, if_neg (by omega), hpad, ok_bind, if_neg (by omega), hmore]
      rfl

end Slots

/-! ## The null bitmap -/

theorem byteOf_testBit (bit : Nat → Bool) {k : Nat} (hk : k < 8) :
    (byteOf bit).toNat.testBit k = bit k := by
  have hall : ∀ b₀ b₁ b₂ b₃ b₄ b₅ b₆ b₇ : Bool, ∀ k < 8,
      (UInt8.ofNat (b₀.toNat * 2 ^ 0 + (b₁.toNat * 2 ^ 1 + (b₂.toNat * 2 ^ 2 + (b₃.toNat * 2 ^ 3 +
        (b₄.toNat * 2 ^ 4 + (b₅.toNat * 2 ^ 5 + (b₆.toNat * 2 ^ 6 + (b₇.toNat * 2 ^ 7 +
          0))))))))).toNat.testBit k = [b₀, b₁, b₂, b₃, b₄, b₅, b₆, b₇].getD k false := by
    decide
  have hbyte := hall (bit 0) (bit 1) (bit 2) (bit 3) (bit 4) (bit 5) (bit 6) (bit 7) k hk
  have hget : [bit 0, bit 1, bit 2, bit 3, bit 4, bit 5, bit 6, bit 7].getD k false = bit k := by
    have hcases : k = 0 ∨ k = 1 ∨ k = 2 ∨ k = 3 ∨ k = 4 ∨ k = 5 ∨ k = 6 ∨ k = 7 := by
      omega
    rcases hcases with rfl | rfl | rfl | rfl | rfl | rfl | rfl | rfl <;> rfl
  exact hbyte.trans hget

namespace Image

variable (image : Image ops)

theorem phys_lt {e : Entry ops} (he : e ∈ image.entries) :
    e.field.physField < image.entries.length := by
  have hmem : e.field.physField ∈ image.entries.map fun e => e.field.physField :=
    List.mem_map_of_mem he
  exact List.mem_range.mp (image.hphys.mem_iff.mp hmem)

/-- No two fields have one physical number, so that the bit of a field is its own. -/
theorem marks_phys {e : Entry ops} (he : e ∈ image.entries) :
    image.entries.any (Entry.marks e.field.physField) = e.cell.isNone := by
  have hnodup : (image.entries.map fun e => e.field.physField).Nodup :=
    image.hphys.nodup_iff.mpr List.nodup_range
  cases hnone : e.cell.isNone with
  | true =>
      apply List.any_eq_true.mpr
      refine ⟨e, he, ?_⟩
      rw [Entry.marks, hnone, beq_self_eq_true]
      rfl
  | false =>
      apply List.any_eq_false.mpr
      intro e' he' hmarks
      rw [Entry.marks, Bool.and_eq_true, beq_iff_eq] at hmarks
      have hsame := List.inj_on_of_nodup_map hnodup he' he hmarks.1
      rw [hsame, hnone] at hmarks
      cases hmarks.2

theorem nullBitmap_length : (nullBitmap image.entries).length = (image.entries.length + 7) / 8 := by
  rw [nullBitmap, List.length_map, List.length_range]

/-- A fixed cell as wide as its field. -/
theorem write_spec {e : Entry ops} (he : e ∈ image.entries) {w : Nat × Bytes}
    (hw : e.write = some w) : e.isVarying = false ∧ e.field.offset = w.1 ∧
      headerLen image.entries.length ≤ w.1 ∧ w.2.length = e.width ∧
      w.1 + w.2.length ≤ image.fixedFieldsSize := by
  unfold Entry.write at hw
  by_cases hvarying : e.isVarying = true
  · rw [if_pos hvarying] at hw
    cases hw
  have hfixed : e.isVarying = false := by
    simpa using hvarying
  rw [if_neg hvarying] at hw
  obtain ⟨c, hc, rfl⟩ := Option.map_eq_some_iff.mp hw
  obtain ⟨hwidth, hlow, hhigh⟩ := image.hfixed e he hfixed
  obtain ⟨hfits, -⟩ := e.fits c hc
  have hcell : c.isVarying = false := by
    cases hkind : c.isVarying with
    | false => rfl
    | true =>
        have hzero := (hfits.varying hkind).1
        rw [Entry.isVarying, hzero] at hfixed
        cases hfixed
  have hlen : c.bytes.length = e.width := by
    have h := (hfits.fixed hcell).2
    rw [hwidth] at h
    exact (Except.ok.inj h).symm
  dsimp only
  rw [hlen]
  refine ⟨hfixed, ?_, ?_, rfl, ?_⟩ <;> omega

theorem writes_room {w : Nat × Bytes} (hw : w ∈ image.entries.filterMap Entry.write) :
    w.1 + w.2.length ≤ (poke image.background 2 (nullBitmap image.entries)).length := by
  obtain ⟨e, he, hwrite⟩ := List.mem_filterMap.mp hw
  have hheader := image.hheader
  rw [headerLen] at hheader
  rw [poke_length, image.hbackground]
  · exact (image.write_spec he hwrite).2.2.2.2
  · rw [image.hbackground, nullBitmap_length]
    exact hheader

theorem head_length : image.head.length = image.fixedFieldsSize := by
  have hheader := image.hheader
  rw [headerLen] at hheader
  rw [head, pokeAll_length fun w hw => image.writes_room hw, poke_length, image.hbackground]
  rw [image.hbackground, nullBitmap_length]
  exact hheader

theorem writes_apart : (image.entries.filterMap Entry.write).Pairwise Apart := by
  have hmem : image.entries.Pairwise fun a b => a ∈ image.entries ∧ b ∈ image.entries ∧
      (a.isVarying = false → b.isVarying = false →
        a.field.offset + (a.width : Int) ≤ b.field.offset ∨
          b.field.offset + (b.width : Int) ≤ a.field.offset) :=
    List.Pairwise.and_mem.mp image.hapart
  refine hmem.filterMap _ ?_
  rintro a b ⟨ha, hb, h⟩ w hw w' hw'
  obtain ⟨hfixed, hoff, -, hlen, -⟩ := image.write_spec ha hw
  obtain ⟨hfixed', hoff', -, hlen', -⟩ := image.write_spec hb hw'
  have hplaces := h hfixed hfixed'
  rw [Apart]
  omega

/-- A fixed cell stands at its offset. -/
theorem fixed_at {e : Entry ops} (he : e ∈ image.entries) (hfixed : e.isVarying = false) {c : Cell}
    (hc : e.cell = some c) : At image.row e.field.offset.toNat c.bytes := by
  have hwrite : e.write = some (e.field.offset.toNat, c.bytes) := by
    rw [Entry.write, hfixed, if_neg (by decide), hc]
    rfl
  have hw : (e.field.offset.toNat, c.bytes) ∈ image.entries.filterMap Entry.write :=
    List.mem_filterMap.mpr ⟨e, he, hwrite⟩
  exact (pokeAll_at (fun w hw => image.writes_room hw) image.writes_apart hw).append _

theorem nullBitmap_at : At image.row 2 (nullBitmap image.entries) := by
  have hheader := image.hheader
  rw [headerLen] at hheader
  have hroom : 2 + (nullBitmap image.entries).length ≤ image.background.length := by
    rw [image.hbackground, nullBitmap_length]
    exact hheader
  refine ((poke_at hroom).pokeAll (fun w hw => image.writes_room hw) fun w hw => ?_).append _
  obtain ⟨e, he, hwrite⟩ := List.mem_filterMap.mp hw
  have hlow := (image.write_spec he hwrite).2.2.1
  rw [headerLen] at hlow
  right
  rw [nullBitmap_length]
  exact hlow

theorem isNull_row {e : Entry ops} (he : e ∈ image.entries) :
    image.desc.isNull image.row e.field = .ok e.cell.isNone := by
  by_cases hallowed : image.desc.nullsAllowed = 0
  · have hsome : e.cell.isNone = false :=
      Option.isNone_eq_false_iff.mpr (Option.ne_none_iff_isSome.mp (image.hnulls hallowed e he))
    rw [isNull, if_pos hallowed, hsome]
  · have hphys := image.phys_lt he
    have hat := image.nullBitmap_at
    have hroom := hat.room
    have hindex : e.field.physField / 8 < (nullBitmap image.entries).length := by
      rw [nullBitmap_length]
      omega
    have hbyte : image.row[e.field.nullByteOffset]? = some (byteOf fun k =>
        image.entries.any (Entry.marks (8 * (e.field.physField / 8) + k))) := by
      rw [DbosField.nullByteOffset, hat.getElem? hindex, List.getElem?_eq_getElem hindex]
      simp [nullBitmap]
    have hlen : e.field.nullByteOffset < image.row.length :=
      (List.getElem?_eq_some_iff.mp hbyte).1
    rw [isNull, if_neg hallowed, if_neg (by omega), index, hbyte, ok_bind, DbosField.nullBitMask,
      mask_testBit _ (by omega), byteOf_testBit _ (by omega), Nat.div_add_mod, image.marks_phys he]
    rfl

/-! ## The slots of an image -/

theorem offset_of_varying {e : Entry ops} (he : e ∈ image.entries)
    (hvarying : e.isVarying = true) :
    ∃ j, e.field.offset = Int.ofNat j ∧ j < image.numVarying := by
  have hmem : e.field.offset ∈
      (image.entries.filter Entry.isVarying).map fun e => e.field.offset :=
    List.mem_map_of_mem (List.mem_filter.mpr ⟨he, hvarying⟩)
  obtain ⟨j, hj, hoff⟩ := List.mem_map.mp (image.hvarying.mem_iff.mp hmem)
  exact ⟨j, hoff.symm, List.mem_range.mp hj⟩

/-- No two varying fields have one slot. -/
theorem slot_varying {e : Entry ops} (he : e ∈ image.entries) (hvarying : e.isVarying = true)
    {j : Nat} (hj : e.field.offset = Int.ofNat j) :
    image.slot j = (e.cell.map Cell.bytes).getD (image.filler j) := by
  have hinjective : Function.Injective Int.ofNat := fun a b h => Int.ofNat.inj h
  have hnodup : ((image.entries.filter Entry.isVarying).map fun e => e.field.offset).Nodup :=
    image.hvarying.nodup_iff.mpr (List.nodup_range.map hinjective)
  have hfound : (image.entries.find? fun e => e.isVarying && e.field.offset == Int.ofNat j) =
      some e := by
    cases hfind : image.entries.find? fun e => e.isVarying && e.field.offset == Int.ofNat j with
    | none =>
        have hnone := List.find?_eq_none.mp hfind e he
        rw [hvarying, hj, beq_self_eq_true] at hnone
        exact absurd rfl hnone
    | some e' =>
        have hmatch := List.find?_some hfind
        rw [Bool.and_eq_true, beq_iff_eq] at hmatch
        have he' := List.mem_of_find?_eq_some hfind
        have hsame := List.inj_on_of_nodup_map hnodup (List.mem_filter.mpr ⟨he', hmatch.1⟩)
          (List.mem_filter.mpr ⟨he, hvarying⟩) (hmatch.2.trans hj.symm)
        rw [hsame]
  rw [slot, hfound]

theorem cell_isVarying {e : Entry ops} {c : Cell} (hc : e.cell = some c) :
    c.isVarying = e.isVarying := by
  obtain ⟨hfits, -⟩ := e.fits c hc
  cases hkind : c.isVarying with
  | true => rw [Entry.isVarying, (hfits.varying hkind).1, beq_self_eq_true]
  | false =>
      have hpos := (hfits.fixed hkind).1
      rw [Entry.isVarying, eq_comm, beq_eq_false_iff_ne]
      omega

theorem slot_length (j : Nat) : (image.slot j).length + 2 < 2 ^ 16 := by
  rw [slot]
  split
  · next e hfind =>
      have hmatch := List.find?_some hfind
      rw [Bool.and_eq_true] at hmatch
      cases hc : e.cell with
      | none => exact image.hfiller j
      | some c =>
          have hvarying := (cell_isVarying hc).trans hmatch.1
          exact ((e.fits c hc).1.varying hvarying).2
  · exact image.hfiller j

theorem slots_length : image.slots.length = image.numVarying := by
  rw [slots, List.length_map, List.length_range]

theorem drop_head : image.row.drop image.fixedFieldsSize = image.slots.flatMap encodeSlot :=
  List.drop_left' image.head_length

theorem fixedFieldsSize_le : image.fixedFieldsSize ≤ image.row.length := by
  rw [row, List.length_append, image.head_length]
  omega

def starts : List Nat :=
  slotStarts image.fixedFieldsSize image.slots

theorem allStarts_row (hsmall : image.row.length < 2 ^ 63) :
    image.desc.allStarts image.row = .ok image.starts := by
  have hwalk := varyingStarts_slots hsmall image.slots
    (fun b hb => by
      obtain ⟨j, -, rfl⟩ := List.mem_map.mp hb
      exact image.slot_length j) 0 image.fixedFieldsSize_le image.drop_head
  rw [slots_length] at hwalk
  unfold allStarts desc
  dsimp only
  by_cases hpos : (0 : Int) < image.numVarying
  · rw [if_pos hpos, if_neg (by omega)]
    exact hwalk
  · have hnone : image.slots = [] := List.length_eq_zero_iff.mp (by
      rw [slots_length]
      omega)
    rw [if_neg hpos, starts, hnone]
    rfl

theorem varying_at {e : Entry ops} (he : e ∈ image.entries) (hvarying : e.isVarying = true)
    {c : Cell} (hc : e.cell = some c) :
    0 ≤ e.field.offset ∧ ∃ start, image.starts[e.field.offset.toNat]? = some start ∧
      At image.row start (toLe 2 (c.bytes.length + 2 : Nat) ++ c.bytes) := by
  obtain ⟨j, hj, hlt⟩ := image.offset_of_varying he hvarying
  have hslot : image.slots[j]? = some c.bytes := by
    rw [slots, List.getElem?_map, List.getElem?_range hlt, Option.map_some,
      image.slot_varying he hvarying hj, hc]
    rfl
  rw [hj]
  exact ⟨Int.natCast_nonneg j, slotStarts_at image.slots image.fixedFieldsSize_le image.drop_head hslot⟩

/-! ## The whole row -/

section Parse

variable (hsmall : image.row.length < 2 ^ 63)

include hsmall

omit hsmall in
theorem validateRowBitmap_row : image.desc.validateRowBitmap image.row = .ok () := by
  have hcount : image.numVarying ≤ image.entries.length := List.length_filter_le _ _
  have hfields : image.desc.numFields = image.entries.length := List.length_map _
  have hroom := image.nullBitmap_at.room
  rw [nullBitmap_length] at hroom
  have hbits : (image.desc.fields.any fun f => decide (image.row.length ≤ f.nullByteOffset)) =
      false := by
    apply List.any_eq_false.mpr
    intro f hf
    obtain ⟨e, he, rfl⟩ := List.mem_map.mp hf
    have hphys := image.phys_lt he
    rw [DbosField.nullByteOffset]
    simp only [decide_eq_true_eq]
    omega
  rw [validateRowBitmap, hfields, if_neg, if_neg]
  · rintro (hshort | ⟨-, hfalse⟩)
    · omega
    · rw [hbits] at hfalse
      cases hfalse
  · show ¬((image.numVarying : Int) < 0 ∨ (image.entries.length : Int) < (image.numVarying : Int))
    omega

/-- A field that is not null has a place, and is read there. -/
theorem entry_reads {e : Entry ops} (he : e ∈ image.entries) {c : Cell} (hc : e.cell = some c)
    (i : Nat) :
    ∃ start, image.desc.rowFieldStart image.row i e.field image.starts = .ok start ∧
      validateRowFieldStorage image.row i e.field start = .ok () ∧
      parseField ops image.row start i e.field = .ok e.value := by
  obtain ⟨hfits, hvalue⟩ := e.fits c hc
  have hkind := cell_isVarying hc
  cases hvarying : e.isVarying with
  | true =>
      rw [hvarying] at hkind
      obtain ⟨hoff, start, hstart, hat⟩ := image.varying_at he hvarying hc
      exact ⟨start, rowFieldStart_varying hsmall hfits hkind hat hoff hstart _ i,
        validateRowFieldStorage_varying hsmall hfits hkind hat i,
        parseField_varying hsmall hfits hkind hat hvalue i⟩
  | false =>
      rw [hvarying] at hkind
      have hat := image.fixed_at he hvarying hc
      have hoff : e.field.offset = (e.field.offset.toNat : Int) := by
        have hlow := (image.hfixed e he hvarying).2.1
        omega
      exact ⟨_, rowFieldStart_fixed hsmall hfits hkind hat hoff _ _ i,
        validateRowFieldStorage_fixed hsmall hfits hkind hat i,
        parseField_fixed hsmall hfits hkind hat hvalue i⟩

theorem checkStorage_row (entries : List (Entry ops)) (hsub : ∀ e ∈ entries, e ∈ image.entries)
    (i : Nat) :
    image.desc.checkStorage image.row image.starts i (entries.map (·.field)) = .ok () := by
  induction entries generalizing i with
  | nil => rfl
  | cons e entries ih =>
      have hrest := ih (fun e' he' => hsub e' (List.mem_cons_of_mem _ he')) (i + 1)
      have he := hsub e List.mem_cons_self
      rw [List.map_cons, checkStorage, image.isNull_row he, ok_bind]
      cases hc : e.cell with
      | none => exact hrest
      | some c =>
          obtain ⟨start, hstart, hstorage, -⟩ := image.entry_reads hsmall he hc i
          rw [Option.isNone_some, if_neg (by decide), hstart, ok_bind, hstorage, ok_bind, hrest]

theorem convertFields_row (entries : List (Entry ops)) (hsub : ∀ e ∈ entries, e ∈ image.entries)
    (i : Nat) (stage : Bool) :
    image.desc.convertFields ops image.row image.starts i stage (entries.map (·.field)) =
      .ok (entries.map (·.value)) := by
  induction entries generalizing i stage with
  | nil => rfl
  | cons e entries ih =>
      have hrest (stage : Bool) :=
        ih (fun e' he' => hsub e' (List.mem_cons_of_mem _ he')) (i + 1) stage
      have he := hsub e List.mem_cons_self
      rw [List.map_cons, convertFields, image.isNull_row he, staged, ok_bind]
      cases hc : e.cell with
      | none =>
          rw [Option.isNone_none, if_pos rfl, hrest, ok_bind, List.map_cons, e.null hc]
          rfl
      | some c =>
          obtain ⟨start, hstart, -, hvalue⟩ := image.entry_reads hsmall he hc i
          rw [Option.isNone_some, if_neg (by decide), hstart, staged, ok_bind, hvalue, staged,
            ok_bind, hrest]
          rfl

/-- A row that was put together out of cells is parsed to the values of these cells. -/
theorem parseRow_row : image.desc.parseRow ops image.row = .ok image.values := by
  have hchecked := image.checkStorage_row hsmall image.entries (fun _ he => he) 0
  have hconverted := image.convertFields_row hsmall image.entries (fun _ he => he) 0 false
  rw [parseRow, parseRowClassified, image.validateRowBitmap_row, staged, ok_bind,
    image.allStarts_row hsmall, staged, ok_bind,
    show image.desc.checkStorage _ _ _ image.desc.fields = _ from hchecked, staged, ok_bind,
    show image.desc.convertFields _ _ _ _ _ image.desc.fields = _ from hconverted]
  rfl

end Parse

/-! ## The descriptor -/

/-- The words of a field in a descriptor. -/
def fieldWords (f : DbosField) : List Int :=
  [f.fieldType, f.size, f.trueSize, f.offset, f.physField, 0, f.nullAllowed.toNat, f.fixedSize, 0]

def encodeWords (words : List Int) : Bytes :=
  words.flatMap (toBe 4)

/-- The words in front of the fields. -/
def headerWords : List Int :=
  [1, image.nullsAllowed, 0, 0, (image.entries.length - image.numVarying : Nat), image.numVarying,
    image.fixedFieldsSize, 0, image.entries.length]

/-- The payload that describes an image. -/
def descriptor : Bytes :=
  encodeWords image.headerWords ++
    ((image.entries.flatMap fun e => encodeWords (fieldWords e.field)) ++ encodeWords [0, 0])

/-- What a descriptor can carry: words of 32 bits and as many fields as `parse` takes. -/
structure OnWire : Prop where
  count : image.entries.length ≤ 100000
  nullsAllowed : -(2 ^ 31) ≤ image.nullsAllowed ∧ image.nullsAllowed < 2 ^ 31
  words : ∀ e ∈ image.entries, ∀ w ∈ fieldWords e.field, -(2 ^ 31) ≤ w ∧ w < 2 ^ 31
  sizes : ∀ e ∈ image.entries, -1 ≤ e.field.size ∧ -1 ≤ e.field.trueSize ∧ 0 ≤ e.field.offset ∧
    0 ≤ e.field.fixedSize

theorem encodeWords_length (words : List Int) : (encodeWords words).length = 4 * words.length := by
  induction words with
  | nil => rfl
  | cons w words ih =>
      rw [encodeWords, List.flatMap_cons, List.length_append, toBe_length, List.length_cons]
      rw [encodeWords] at ih
      omega

theorem be32_words {words : List Int} (hwords : ∀ w ∈ words, -(2 ^ 31) ≤ w ∧ w < 2 ^ 31)
    (tail : Bytes) {k : Nat} {w : Int} (hk : words[k]? = some w) :
    be32 (encodeWords words ++ tail) (4 * k) = w := by
  induction words generalizing k with
  | nil => cases hk
  | cons first words ih =>
      have hhead := hwords first List.mem_cons_self
      have hsplit : encodeWords (first :: words) ++ tail =
          toBe 4 first ++ (encodeWords words ++ tail) := by
        rw [encodeWords, List.flatMap_cons, List.append_assoc]
        rfl
      rw [hsplit]
      cases k with
      | zero =>
          cases hk
          rw [be32, Nat.mul_zero, List.drop_zero, List.take_left' (toBe_length 4 _)]
          exact beInt_toBe (by decide) hhead.1 hhead.2
      | succ k =>
          have hrest := ih (fun w' hw' => hwords w' (List.mem_cons_of_mem _ hw')) hk
          rw [← hrest, be32, be32, show 4 * (k + 1) = 4 + 4 * k by omega, ← List.drop_drop,
            List.drop_left' (toBe_length 4 _)]

theorem parseFields_words {entries : List (Entry ops)} (tail : Bytes) (ix : Nat)
    (hwords : ∀ e ∈ entries, ∀ w ∈ fieldWords e.field, -(2 ^ 31) ≤ w ∧ w < 2 ^ 31)
    (hsizes : ∀ e ∈ entries, -1 ≤ e.field.size ∧ -1 ≤ e.field.trueSize ∧ 0 ≤ e.field.offset ∧
      0 ≤ e.field.fixedSize)
    (hphys : ∀ e ∈ entries, e.field.physField ≤ 100000) :
    parseFields none entries.length ix
        ((entries.flatMap fun e => encodeWords (fieldWords e.field)) ++ tail) =
      .ok (entries.map (·.field)) := by
  induction entries generalizing ix with
  | nil => rfl
  | cons e entries ih =>
      have hread {k : Nat} {w : Int} (hk : (fieldWords e.field)[k]? = some w) :=
        be32_words (hwords e List.mem_cons_self)
          ((entries.flatMap fun e => encodeWords (fieldWords e.field)) ++ tail) hk
      have hsize := hsizes e List.mem_cons_self
      have hplace := hphys e List.mem_cons_self
      have hrest := ih (ix + 1) (fun e' he' => hwords e' (List.mem_cons_of_mem _ he'))
        (fun e' he' => hsizes e' (List.mem_cons_of_mem _ he'))
        fun e' he' => hphys e' (List.mem_cons_of_mem _ he')
      have hlen : (encodeWords (fieldWords e.field)).length = 36 := encodeWords_length _
      rw [List.flatMap_cons, List.append_assoc, List.length_cons, parseFields,
        hread (k := 4) rfl, hread (k := 1) rfl, hread (k := 2) rfl, hread (k := 3) rfl,
        hread (k := 7) rfl, hread (k := 0) rfl, hread (k := 6) rfl, List.drop_left' hlen, hrest,
        if_neg (by omega)]
      have hnull : ((e.field.nullAllowed.toNat : Int) != 0) = e.field.nullAllowed := by
        cases e.field.nullAllowed <;> rfl
      have htype : restoredType e.field.fieldType none = e.field.fieldType :=
        if_neg fun h => by cases h.2
      simp only [Except.map, hnull, Int.toNat_natCast, Option.bind_none, Option.map_none, htype,
        List.map_cons]

theorem parse_descriptor (h : image.OnWire) : parse image.descriptor none = .ok image.desc := by
  have hcount := h.count
  have hvarying : image.numVarying ≤ image.entries.length := List.length_filter_le _ _
  have hsize := image.hsize
  have hheader : ∀ w ∈ image.headerWords, -(2 ^ 31) ≤ w ∧ w < 2 ^ 31 := by
    intro w hw
    simp only [headerWords, List.mem_cons, List.not_mem_nil, or_false] at hw
    have hallowed := h.nullsAllowed
    rcases hw with rfl | rfl | rfl | rfl | rfl | rfl | rfl | rfl | rfl <;> omega
  have hread {k : Nat} {w : Int} (hk : image.headerWords[k]? = some w) :
      be32 image.descriptor (4 * k) = w := be32_words hheader _ hk
  have hlen : (encodeWords image.headerWords).length = 36 := encodeWords_length _
  have hfields : ((image.entries.flatMap fun e => encodeWords (fieldWords e.field))).length =
      36 * image.entries.length := by
    rw [List.length_flatMap]
    simp [encodeWords_length, fieldWords, Nat.mul_comm]
  have htotal : image.descriptor.length = 36 + 36 * image.entries.length + 8 := by
    rw [descriptor, List.length_append, List.length_append, hlen, hfields, encodeWords_length]
    rfl
  have hparsed := parseFields_words (encodeWords [0, 0]) 0 h.words h.sizes
    fun e he => Nat.le_trans (Nat.le_of_lt (image.phys_lt he)) hcount
  have hdrop : image.descriptor.drop 36 =
      (image.entries.flatMap fun e => encodeWords (fieldWords e.field)) ++ encodeWords [0, 0] :=
    List.drop_left' hlen
  have hprotocol : validateProtocolLength ((36 + image.entries.length * 36 + 8 : Nat) : Int)
      "rowDescriptionStandardDescriptor" true = .ok (36 + image.entries.length * 36 + 8) := by
    apply validateProtocolLength_eq_ok.mpr
    refine ⟨rfl, ?_, .inl rfl⟩
    rw [maxProtocolPayload]
    omega
  unfold parse
  rw [if_neg (by omega)]
  dsimp only
  rw [hread (k := 8) rfl, hread (k := 4) rfl, hread (k := 5) rfl, hread (k := 6) rfl,
    hread (k := 7) rfl, if_neg (by omega), if_neg (by omega), if_neg (by simp),
    Int.toNat_natCast, hprotocol]
  dsimp only
  rw [if_neg (by omega), hdrop, hparsed, hread (k := 1) rfl]
  rfl

/-- A row that was put together out of cells is parsed to the values of these cells, under the
descriptor that its own payload is parsed to. -/
theorem parse_image (hsmall : image.row.length < 2 ^ 63) :
    image.desc.parseRow ops image.row = .ok image.values ∧
      (image.OnWire → parse image.descriptor none = .ok image.desc) :=
  ⟨image.parseRow_row hsmall, image.parse_descriptor⟩

/-! ## Three fields -/

def sampleInt : Entry RawRow.bitOps where
  field := ⟨3, 4, 4, 4, 2, true, 4⟩
  cell := some (.int4 42)
  value := .int4 42
  null := by
    intro h
    cases h
  fits := by
    rintro c ⟨⟩
    exact ⟨⟨rfl, fun h => absurd h (by decide), fun _ => ⟨by decide, rfl⟩,
      fun h => absurd h (by decide)⟩, rfl⟩

def sampleText : Entry RawRow.bitOps where
  field := ⟨16, 10, 10, 1, 0, true, 0⟩
  cell := some (.varchar ['a'])
  value := .text ['a']
  null := by
    intro h
    cases h
  fits := by
    rintro c ⟨⟩
    exact ⟨⟨rfl, fun _ => ⟨rfl, by decide⟩, fun h => absurd h (by decide),
      fun h => absurd h (by decide)⟩, rfl⟩

def sampleNull : Entry RawRow.bitOps where
  field := ⟨26, 10, 10, 0, 1, true, 0⟩
  cell := none
  value := .null
  null := fun _ => rfl
  fits := by
    intro c h
    cases h

/-- An INT behind a VARCHAR and a null NVARCHAR by physical number, with the slots the other way
round. -/
def sample : Image RawRow.bitOps where
  nullsAllowed := 1
  fixedFieldsSize := 8
  entries := [sampleInt, sampleText, sampleNull]
  background := List.replicate 8 255
  filler := fun _ => []
  hsize := by decide
  hbackground := by decide
  hheader := by decide
  hfiller := by
    intro _
    decide
  hnulls := by decide
  hphys := by decide
  hfixed := by decide
  hapart := by decide
  hvarying := by decide

theorem sample_parsed :
    sample.row = [255, 255, 2, 255, 42, 0, 0, 0, 2, 0, 3, 0, 97, 0] ∧
      sample.desc.parseRow RawRow.bitOps sample.row = .ok [.int4 42, .text ['a'], .null] :=
  ⟨by decide, (sample.parse_image (by decide)).1⟩

end Image

end NzRust.DbosTupleDesc
