import NzRust.Row.Classified
import NzRust.Row.TypedReads
import NzRust.Types.Utf8

/-!
# Fields in their places

What the eager parser has seen of a row where it accepts it: the value of each
field is a function of the bytes at its place, and the lazy row gives these
bytes out.
-/

namespace NzRust.DbosTupleDesc

open ByteString Checked

/-- The `width` bytes from an offset of a row. -/
def window (row : Bytes) (off width : Nat) : Bytes :=
  (row.drop off).take width

/-- The bytes behind the length at an offset, which counts itself. -/
def behindPrefix (row : Bytes) (off : Nat) : Bytes :=
  (window row off (leNat (window row off 2))).drop 2

/-- A range of a row whose end is a word. -/
structure Fits (row : Bytes) (off width : Nat) : Prop where
  word : off + width < 2 ^ 64
  room : off + width ≤ row.length

/-- A length at an offset that stays within the row. -/
structure Prefixed (row : Bytes) (off : Nat) : Prop where
  least : 2 ≤ leNat (window row off 2)
  fits : Fits row off (leNat (window row off 2))

/-- The integer of some bytes is one of as many bits. -/
theorem leInt_bounds {bytes : Bytes} {n : Nat} (hlen : bytes.length = n) (hpos : 0 < n) :
    -(2 ^ (8 * n - 1)) ≤ leInt bytes ∧ leInt bytes < 2 ^ (8 * n - 1) := by
  have hlt : leNat bytes < 2 ^ (8 * n) := by
    have h := leNat_lt bytes
    rwa [hlen, show 256 = 2 ^ 8 from rfl, ← pow_mul] at h
  have hhalf : (2 : Nat) ^ (8 * n) = 2 * 2 ^ (8 * n - 1) := by
    rw [← pow_succ', Nat.sub_add_cancel (by omega)]
  have hcast : ((2 ^ (8 * n - 1) : Nat) : Int) = 2 ^ (8 * n - 1) := by
    push_cast
    rfl
  have hfull : (2 : Int) ^ (8 * n) = 2 * 2 ^ (8 * n - 1) := by
    exact_mod_cast hhalf
  rw [leInt, hlen, signed, hfull, ← hcast]
  split <;> omega

section Reads

variable {row bytes : Bytes} {off i n : Nat} {f : DbosField}

theorem Fits.window_length (h : Fits row off n) : (window row off n).length = n := by
  have hroom := h.room
  rw [window, List.length_take, List.length_drop]
  omega

theorem Fits.getSlice (h : Fits row off n) : getSlice row off (off + n) = some (window row off n) := by
  rw [Checked.getSlice, if_pos ⟨Nat.le_add_right off n, h.room⟩, Nat.add_sub_cancel_left]
  rfl

theorem Fits.addChecked (h : Fits row off n) : addChecked 64 off n = some (off + n) :=
  if_pos h.word

theorem window_take {m : Nat} (hle : m ≤ n) : (window row off n).take m = window row off m := by
  rw [window, List.take_take, Nat.min_eq_left hle]
  rfl

theorem window_drop (k : Nat) : (window row off n).drop k = window row (off + k) (n - k) := by
  rw [window, List.drop_take, List.drop_drop]
  rfl

theorem Prefixed.behindPrefix_length (h : Prefixed row off) :
    (behindPrefix row off).length + 2 = leNat (window row off 2) := by
  have hleast := h.least
  rw [behindPrefix, List.length_drop, h.fits.window_length]
  omega

theorem fits_of_overruns (h : overruns row (addChecked 64 off n) = false) : Fits row off n := by
  obtain ⟨stop, hstop, hroom⟩ := overruns_eq_false h
  obtain ⟨rfl, hword⟩ := addChecked_eq_some hstop
  exact ⟨hword, hroom⟩

theorem prefixedBytes_ok (h : prefixedBytes row off i = .ok bytes) :
    Prefixed row off ∧ bytes = behindPrefix row off := by
  obtain ⟨prefixEnd, hlead, h⟩ := bind_ok h
  obtain ⟨rfl, -⟩ := addWord_ok hlead
  by_cases hshort : row.length < off + 2
  · rw [if_pos hshort] at h
    cases h
  rw [if_neg hshort] at h
  obtain ⟨length, hlength, h⟩ := bind_ok h
  obtain ⟨-, hvalue⟩ := lengthAt_ok hlength
  change length = leNat (window row off 2) at hvalue
  by_cases htiny : length < 2
  · rw [if_pos htiny] at h
    cases h
  rw [if_neg htiny] at h
  obtain ⟨stop, hstop, h⟩ := bind_ok h
  obtain ⟨rfl, hword⟩ := addWord_ok hstop
  by_cases hover : row.length < off + 2 + (length - 2)
  · rw [if_pos hover] at h
    cases h
  rw [if_neg hover] at h
  obtain ⟨-, -, rfl⟩ := slice_ok h
  subst hvalue
  refine ⟨⟨by omega, by omega, by omega⟩, ?_⟩
  rw [behindPrefix, window_drop, Nat.add_sub_cancel_left]
  rfl

theorem fixedBytes_ok (h : fixedBytes row off n i = .ok bytes) :
    Fits row off n ∧ bytes = window row off n := by
  obtain ⟨stop, hstop, h⟩ := bind_ok h
  obtain ⟨rfl, hword⟩ := addWord_ok hstop
  by_cases hover : row.length < off + n
  · rw [if_pos hover] at h
    cases h
  rw [if_neg hover] at h
  obtain ⟨-, -, rfl⟩ := slice_ok h
  refine ⟨⟨hword, by omega⟩, ?_⟩
  rw [Nat.add_sub_cancel_left]
  rfl

theorem fixedByte_ok {b : UInt8} (h : fixedByte row off i = .ok b) : row[off]? = some b := by
  unfold fixedByte at h
  by_cases hover : row.length ≤ off
  · rw [if_pos hover] at h
    cases h
  rw [if_neg hover, index_eq (by omega)] at h
  rw [List.getElem?_eq_getElem (by omega), Except.ok.inj h]

theorem windowed_ok {e : NzError}
    (h : orFail e ((addChecked 64 off n).bind fun stop => getSlice row off stop) = .ok bytes) :
    Fits row off n ∧ bytes = window row off n := by
  obtain ⟨stop, hstop, hslice⟩ := Option.bind_eq_some_iff.mp (orFail_ok h)
  obtain ⟨rfl, hword⟩ := addChecked_eq_some hstop
  obtain ⟨-, hroom, rfl⟩ := getSlice_eq_some hslice
  refine ⟨⟨hword, hroom⟩, ?_⟩
  rw [Nat.add_sub_cancel_left]
  rfl

/-- The bytes of a field that no type reads. -/
def keptBytes (row : Bytes) (f : DbosField) (off : Nat) : Bytes :=
  if f.fixedSize ≠ 0 then window row off ((fixedWidth f).toOption.getD 0) else behindPrefix row off

theorem opaqueBytes_ok (h : opaqueBytes row off i f = .ok bytes) : bytes = keptBytes row f off := by
  unfold opaqueBytes at h
  unfold keptBytes
  by_cases hfixed : f.fixedSize ≠ 0
  · rw [if_pos hfixed] at h ⊢
    obtain ⟨width, hwidth, h⟩ := bind_ok h
    rw [lift_ok hwidth]
    exact (windowed_ok h).2
  · rw [if_neg hfixed] at h ⊢
    obtain ⟨lengthBytes, hlength, h⟩ := bind_ok h
    obtain ⟨-, rfl⟩ := windowed_ok hlength
    dsimp only at h
    by_cases htiny : leNat (window row off 2) < 2
    · rw [if_pos htiny] at h
      cases h
    rw [if_neg htiny] at h
    cases hstop : addChecked 64 off (leNat (window row off 2)) with
    | none =>
        rw [hstop] at h
        cases h
    | some stop =>
        rw [hstop] at h
        obtain ⟨start, hstart, h⟩ := bind_ok h
        obtain ⟨rfl, -⟩ := addWord_ok hstart
        obtain ⟨rfl, -⟩ := addChecked_eq_some hstop
        obtain ⟨-, -, rfl⟩ := getSlice_eq_some (orFail_ok h)
        rw [behindPrefix, window_drop, window]
        congr 1
        omega

end Reads

/-! ## Values -/

section Values

variable {N : Numerics}

/-- The value of a field of each kind, from the bytes at its place. -/
inductive Parsed (row : Bytes) (off : Nat) (f : DbosField) : FieldKind → NzValue N → Prop where
  | char {text : Text} (h : Fits row off (asWord 64 f.size))
      (htext : fromUtf8 (window row off (asWord 64 f.size)) = some text) :
      Parsed row off f .char (.text (trimEndMatches ' ' text))
  | nchar {text : Text} (h : Prefixed row off)
      (htext : fromUtf8 (behindPrefix row off) = some text) :
      Parsed row off f .nchar (.text (trimEndMatches '\x00' text))
  | varchar {text : Text} (h : Prefixed row off)
      (htext : fromUtf8 (behindPrefix row off) = some text) :
      Parsed row off f .varchar (.text text)
  | int8 (h : Fits row off 8) :
      Parsed row off f .int8 (.int8 (Int64.ofInt (leInt (window row off 8))))
  | int (h : Fits row off 4) :
      Parsed row off f .int (.int4 (Int32.ofInt (leInt (window row off 4))))
  | int2 (h : Fits row off 2) :
      Parsed row off f .int2 (.int2 (Int16.ofInt (leInt (window row off 2))))
  | int1 {b : UInt8} (h : row[off]? = some b) :
      Parsed row off f .int1 (.int2 (Int16.ofInt (leInt [b])))
  | double {number : N.F64} : Parsed row off f .double (.float8 number)
  | float {number : N.F32} : Parsed row off f .float (.float4 number)
  | date (h : Fits row off 4) :
      Parsed row off f .date (.date (Datetime.dateFrom4bytes (leInt (window row off 4))))
  | time (h : Fits row off 8) :
      Parsed row off f .time (.time (Datetime.timeFrom8bytes (leInt (window row off 8))))
  | interval (h : Fits row off 12) :
      Parsed row off f .interval (.interval (Datetime.intervalFrom12bytes
        (leInt (window row off 8)) (leInt (window row (off + 8) 4))))
  | timetz (hsize : 12 ≤ asWord 64 f.size) (h : Fits row off (asWord 64 f.size)) :
      Parsed row off f .timetz (.timetz (Datetime.timetzFromBytes
        (leInt (window row off 8)) (leInt (window row (off + (asWord 64 f.size - 4)) 4))))
  | timestamp (h : Fits row off 8) :
      Parsed row off f .timestamp
        (.timestamp (Datetime.timestampFrom8bytes (leInt (window row off 8))))
  | bool {value : Bool} (h : row[off]? = some (if value then 1 else 0)) :
      Parsed row off f .bool (.bool value)
  | numeric {decoded : NumericDecoded N} : Parsed row off f .numeric decoded.value
  | opaqueBytes : Parsed row off f .opaqueBytes (.bytea (keptBytes row f off))

variable {ops : NumberOps N} {row : Bytes} {off i : Nat} {f : DbosField} {v : NzValue N}

theorem parseField_parsed (h : parseField ops row off i f = .ok v) : Parsed row off f f.kind v := by
  rw [parseField] at h
  cases hkind : f.kind with
  | char =>
      rw [hkind] at h
      obtain ⟨bytes, hbytes, h⟩ := bind_ok h
      obtain ⟨hfits, rfl⟩ := windowed_ok hbytes
      obtain ⟨text, htext, h⟩ := bind_ok h
      cases h
      exact .char hfits (orFail_ok htext)
  | nchar =>
      rw [hkind] at h
      obtain ⟨bytes, hbytes, h⟩ := bind_ok h
      obtain ⟨hprefixed, rfl⟩ := prefixedBytes_ok hbytes
      obtain ⟨text, htext, h⟩ := bind_ok h
      cases h
      exact .nchar hprefixed (orFail_ok htext)
  | varchar =>
      rw [hkind] at h
      obtain ⟨bytes, hbytes, h⟩ := bind_ok h
      obtain ⟨hprefixed, rfl⟩ := prefixedBytes_ok hbytes
      obtain ⟨text, htext, h⟩ := bind_ok h
      cases h
      exact .varchar hprefixed (orFail_ok htext)
  | int8 =>
      rw [hkind] at h
      obtain ⟨bytes, hbytes, h⟩ := bind_ok h
      obtain ⟨hfits, rfl⟩ := fixedBytes_ok hbytes
      cases h
      exact .int8 hfits
  | int =>
      rw [hkind] at h
      obtain ⟨bytes, hbytes, h⟩ := bind_ok h
      obtain ⟨hfits, rfl⟩ := fixedBytes_ok hbytes
      cases h
      exact .int hfits
  | int2 =>
      rw [hkind] at h
      obtain ⟨bytes, hbytes, h⟩ := bind_ok h
      obtain ⟨hfits, rfl⟩ := fixedBytes_ok hbytes
      cases h
      exact .int2 hfits
  | int1 =>
      rw [hkind] at h
      obtain ⟨byte, hbyte, h⟩ := bind_ok h
      cases h
      exact .int1 (fixedByte_ok hbyte)
  | double =>
      rw [hkind] at h
      obtain ⟨bytes, -, h⟩ := bind_ok h
      cases h
      exact .double
  | float =>
      rw [hkind] at h
      obtain ⟨bytes, -, h⟩ := bind_ok h
      cases h
      exact .float
  | date =>
      rw [hkind] at h
      obtain ⟨bytes, hbytes, h⟩ := bind_ok h
      obtain ⟨hfits, rfl⟩ := fixedBytes_ok hbytes
      obtain ⟨hlow, hhigh⟩ := Numeric.leInt_range hfits.window_length
      rw [Machine.dateFrom4bytes_eq hlow hhigh] at h
      cases h
      exact .date hfits
  | time =>
      rw [hkind] at h
      obtain ⟨bytes, hbytes, h⟩ := bind_ok h
      obtain ⟨hfits, rfl⟩ := fixedBytes_ok hbytes
      rw [Machine.timeFrom8bytes_eq] at h
      cases h
      exact .time hfits
  | interval =>
      rw [hkind] at h
      obtain ⟨bytes, hbytes, h⟩ := bind_ok h
      obtain ⟨hfits, rfl⟩ := fixedBytes_ok hbytes
      rw [Machine.intervalFrom12bytes_eq hfits.window_length, window_take (by decide),
        window_drop] at h
      cases h
      exact .interval hfits
  | timetz =>
      rw [hkind] at h
      dsimp only at h
      by_cases hshort : overruns row (addChecked 64 off (asWord 64 f.size)) ∨ asWord 64 f.size < 12
      · rw [if_pos hshort] at h
        cases h
      rw [if_neg hshort] at h
      rw [not_or, Bool.not_eq_true] at hshort
      have hfits := fits_of_overruns hshort.1
      have hsize : 12 ≤ asWord 64 f.size := Nat.not_lt.mp hshort.2
      obtain ⟨stop, hstop, h⟩ := bind_ok h
      obtain ⟨rfl, -⟩ := addWord_ok hstop
      obtain ⟨bytes, hbytes, h⟩ := bind_ok h
      obtain ⟨-, -, rfl⟩ := slice_ok hbytes
      rw [Nat.add_sub_cancel_left] at h
      change (Machine.timetzFromBytes (window row off (asWord 64 f.size)) _ >>= _) = _ at h
      rw [Machine.timetzFromBytes_eq hfits.window_length hsize, window_take (by omega),
        window_drop, Nat.sub_sub_self (by omega)] at h
      cases h
      exact .timetz hsize hfits
  | timestamp =>
      rw [hkind] at h
      obtain ⟨bytes, hbytes, h⟩ := bind_ok h
      obtain ⟨hfits, rfl⟩ := fixedBytes_ok hbytes
      obtain ⟨hlow, hhigh⟩ := leInt_range8 hfits.window_length
      rw [Machine.timestampFrom8bytes_eq hlow hhigh] at h
      cases h
      exact .timestamp hfits
  | bool =>
      rw [hkind] at h
      obtain ⟨byte, hbyte, h⟩ := bind_ok h
      have hget := fixedByte_ok hbyte
      by_cases hzero : byte = 0
      · rw [if_pos hzero] at h
        cases h
        have hfalse : row[off]? = some (if false then 1 else 0) := hzero ▸ hget
        exact .bool hfalse
      rw [if_neg hzero] at h
      by_cases hone : byte = 1
      · rw [if_pos hone] at h
        cases h
        have htrue : row[off]? = some (if true then 1 else 0) := hone ▸ hget
        exact .bool htrue
      · rw [if_neg hone] at h
        cases h
  | numeric =>
      rw [hkind] at h
      obtain ⟨bytes, -, h⟩ := bind_ok h
      obtain ⟨decoded, -, h⟩ := bind_ok h
      cases h
      exact .numeric
  | opaqueBytes =>
      rw [hkind] at h
      obtain ⟨bytes, hbytes, h⟩ := bind_ok h
      cases h
      rw [opaqueBytes_ok hbytes]
      exact .opaqueBytes

theorem Parsed.not_null {kind : FieldKind} (h : Parsed row off f kind v) : v ≠ .null := by
  cases h with
  | @numeric decoded => cases decoded <;> exact nofun
  | _ => exact nofun

end Values

/-! ## Rows that both parsers accept -/

section Rows

open RawRow

variable {N : Numerics} {ops : NumberOps N} {desc : DbosTupleDesc} {row : Bytes}
  {starts : List Nat} {spans : List UInt64}

/-- Where both walks over the varying fields end well, they have found the same places. -/
theorem varyingSpans_starts (count j : Nat) {cursor : Nat} {spans : List UInt64}
    {starts : List Nat} (hspans : varyingSpans row count j cursor = .ok spans)
    (hstarts : varyingStarts row count j cursor = .ok starts) :
    spans.map spanStart = starts ∧ spans.length = count := by
  induction count generalizing j cursor spans starts with
  | zero =>
      cases hspans
      cases hstarts
      exact ⟨rfl, rfl⟩
  | succ count ih =>
      rw [varyingSpans] at hspans
      rw [varyingStarts] at hstarts
      by_cases hlead : overruns row (addChecked 64 cursor 2) = true
      · rw [if_pos hlead] at hspans
        cases hspans
      rw [if_neg hlead] at hspans
      obtain ⟨prefixEnd, -, hstarts⟩ := bind_ok hstarts
      obtain ⟨encoded, hlength, hspans⟩ := bind_ok hspans
      dsimp only at hspans
      split at hspans
      · cases hspans
      case isFalse hvalue =>
        split at hstarts
        · cases hstarts
        rw [hlength, ok_bind] at hstarts
        split at hstarts
        · cases hstarts
        obtain ⟨stop, hstop, hstarts⟩ := bind_ok hstarts
        obtain ⟨rfl, hword⟩ := addWord_ok hstop
        rw [addChecked, if_pos hword] at hspans
        dsimp only at hspans
        split at hstarts
        · cases hstarts
        obtain ⟨next, hnext, hstarts⟩ := bind_ok hstarts
        split at hstarts
        · cases hstarts
        obtain ⟨rest, hrest, hstarts⟩ := bind_ok hstarts
        cases hstarts
        by_cases hlow : 2 ^ 32 ≤ cursor
        · rw [if_pos hlow] at hspans
          cases hspans
        rw [if_neg hlow] at hspans
        by_cases hhigh : 2 ^ 32 ≤ cursor + encoded
        · rw [if_pos hhigh] at hspans
          cases hspans
        rw [if_neg hhigh, hnext, ok_bind] at hspans
        split at hspans
        · cases hspans
        obtain ⟨more, hmore, hspans⟩ := bind_ok hspans
        cases hspans
        obtain ⟨hmap, hcount⟩ := ih (j + 1) hmore hrest
        constructor
        · rw [List.map_cons, hmap, spanStart_packSpan (by omega) (by omega)]
        · rw [List.length_cons, hcount]

/-- What is known of a row that the eager parser has accepted and the lazy row was built over. -/
structure Accepted (ops : NumberOps N) (desc : DbosTupleDesc) (row : Bytes) (spans : List UInt64)
    (vs : List (NzValue N)) : Prop where
  laid : Laid ops desc row spans vs
  starts : desc.allStarts row = .ok (spans.map spanStart)
  storage : desc.checkStorage row (spans.map spanStart) 0 desc.fields = .ok ()

theorem accepted_of_parsed {columns : List ColumnDesc} {vs : List (NzValue N)} {raw : RawRow N}
    (hrow : desc.parseRowClassified ops row = .ok vs)
    (hraw : fromDbosRaw columns row desc = .ok raw) :
    ∃ spans, raw = ⟨columns, row, .dbos desc, none, none, desc.fixedFieldsSize.toNat, spans⟩ ∧
      Accepted ops desc row spans vs := by
  obtain ⟨passed, hbitmap, hrow⟩ := bind_ok hrow
  obtain ⟨starts, hstarts, hrow⟩ := bind_ok hrow
  obtain ⟨stored, hstorage, hrow⟩ := bind_ok hrow
  obtain ⟨spans, hlayout, hraw⟩ := bind_ok hraw
  obtain ⟨passed', -, hlayout⟩ := bind_ok hlayout
  obtain ⟨cursor, hcursor, hlayout⟩ := bind_ok hlayout
  obtain ⟨spans', hspans, hlayout⟩ := bind_ok hlayout
  obtain ⟨placed, -, hlayout⟩ := bind_ok hlayout
  cases hlayout
  have hstarts := staged_ok hstarts
  have hcount : 0 ≤ desc.numVaryingFields := by
    by_contra hneg
    have hbitmap := staged_ok hbitmap
    rw [validateRowBitmap, if_pos (.inl (by omega))] at hbitmap
    cases hbitmap
  obtain ⟨hmap, hlen⟩ : spans.map spanStart = starts ∧
      spans.length = desc.numVaryingFields.toNat := by
    have hall := hstarts
    unfold allStarts at hall
    by_cases hpos : 0 < desc.numVaryingFields
    · rw [if_neg (by omega)] at hcursor
      rw [if_pos hpos] at hall
      by_cases hsize : desc.fixedFieldsSize < 0
      · rw [if_pos hsize] at hall
        cases hall
      rw [if_neg hsize] at hall hcursor
      cases hcursor
      exact varyingSpans_starts _ 0 hspans hall
    · rw [if_neg hpos] at hall
      cases hall
      have hzero : desc.numVaryingFields.toNat = 0 := by omega
      rw [hzero] at hspans ⊢
      cases hspans
      exact ⟨rfl, rfl⟩
  subst hmap
  cases hraw
  exact ⟨spans, rfl, ⟨hcount, hlen, convertFields_ok _ hrow⟩, hstarts, staged_ok hstorage⟩

/-- A varying field starts with a length. -/
theorem prefixed_of_rowFieldStart {i start : Nat} {f : DbosField} (hfixed : f.fixedSize = 0)
    (hstarts : starts ≠ []) (h : desc.rowFieldStart row i f starts = .ok start) :
    Prefixed row start := by
  unfold rowFieldStart at h
  rw [if_neg (by omega), if_pos hstarts] at h
  split at h
  · cases h
  obtain ⟨place, hplace, h⟩ := bind_ok h
  obtain ⟨encoded, hlength, h⟩ := bind_ok h
  by_cases hover : encoded < 2 ∨ overruns row (addChecked 64 place encoded) = true
  · rw [if_pos hover] at h
    cases h
  rw [if_neg hover] at h
  cases h
  rw [not_or, Bool.not_eq_true] at hover
  obtain ⟨-, rfl⟩ := lengthAt_ok hlength
  exact ⟨Nat.not_lt.mp hover.1, fits_of_overruns hover.2⟩

/-- The bytes of a field in its own storage. -/
def ownBytes (desc : DbosTupleDesc) (row : Bytes) (f : DbosField) (off : Nat) : Bytes :=
  if f.fixedSize ≠ 0 then window row off ((fixedWidth f).toOption.getD 0)
  else if desc.numVaryingFields = 0 then row.drop off
  else behindPrefix row off

variable {vs : List (NzValue N)} {i start : Nat} {f : DbosField}

theorem storedBytes_eq {stop : Nat} (hcount : 0 ≤ desc.numVaryingFields)
    (hlen : starts.length = desc.numVaryingFields.toNat) (hf : desc.fields[i]? = some f)
    (hstart : desc.rowFieldStart row i f starts = .ok start)
    (hfixed : f.fixedSize ≠ 0 →
      ∃ width, fixedWidth f = .ok width ∧ addChecked 64 start width = some stop)
    (hlast : f.fixedSize = 0 → desc.numVaryingFields = 0 → stop = row.length) :
    storedBytes row desc i start stop = .ok (ownBytes desc row f start) := by
  have hsize : (desc.fields[i]?.map (·.fixedSize)).getD 0 = f.fixedSize := by
    rw [hf]
    rfl
  unfold storedBytes ownBytes
  rw [hsize]
  obtain ⟨hpos, -, rfl, width, hwidth, hroom⟩ | ⟨hzero, hsome, -, -⟩ |
    ⟨hzero, hnone, -, hroom, rfl⟩ := rowFieldStart_ok hstart
  · obtain ⟨width', hwidth', hstop⟩ := hfixed (by omega)
    cases hwidth.symm.trans hwidth'
    obtain ⟨rfl, -⟩ := addChecked_eq_some hstop
    rw [if_pos (by omega), if_pos (by omega), (fits_of_overruns hroom).getSlice, hwidth]
    rfl
  · have hvarying : desc.numVaryingFields ≠ 0 := by
      intro hnone
      rw [hnone] at hlen
      exact hsome (List.length_eq_zero_iff.mp hlen)
    have hprefixed := prefixed_of_rowFieldStart hzero hsome hstart
    have hlength : Fits row start 2 := by
      have hfits := hprefixed.fits
      have hleast := hprefixed.least
      exact ⟨by have := hfits.word; omega, by have := hfits.room; omega⟩
    have hbehind : Checked.getSlice row (start + 2) (start + leNat (window row start 2)) =
        some (behindPrefix row start) := by
      have hroom := hprefixed.fits.room
      have hleast := hprefixed.least
      rw [Checked.getSlice, if_pos ⟨by omega, hroom⟩, behindPrefix, window_drop,
        Nat.add_sub_add_left]
      rfl
    rw [if_neg (by omega), if_neg hvarying, if_neg (by omega), if_neg hvarying,
      hlength.addChecked, orFail, ok_bind, hlength.getSlice, orFail, ok_bind,
      hprefixed.fits.addChecked, orFail, ok_bind, hbehind]
    rfl
  · have hnovarying : desc.numVaryingFields = 0 := by
      rw [hnone] at hlen
      have := hlen.symm
      rw [List.length_nil] at this
      omega
    rw [if_neg (by omega), if_pos hnovarying, if_neg (by omega), if_pos hnovarying,
      hlast hzero hnovarying, Checked.getSlice, if_pos ⟨hroom, Nat.le_refl _⟩,
      List.take_of_length_le (by rw [List.length_drop])]
    rfl

/-- What both rows give for a field: a null, or a value that was parsed at its place. -/
theorem Accepted.field (h : Accepted ops desc row spans vs) (hf : desc.fields[i]? = some f) :
    ∃ v, vs[i]? = some v ∧ Field ops desc row (spans.map spanStart) i f v := by
  obtain ⟨hi, rfl⟩ := List.getElem?_eq_some_iff.mp hf
  have hvs : i < vs.length := by
    rw [h.laid.length]
    exact hi
  have hfield := h.laid.fields.get (by simpa using hi) hvs
  simp only [List.get_eq_getElem, List.getElem_zipIdx, Nat.zero_add] at hfield
  exact ⟨_, List.getElem?_eq_getElem hvs, hfield⟩

end Rows

end NzRust.DbosTupleDesc
