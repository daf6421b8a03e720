import NzRust.Row.Total

/-!
# Layout errors and data errors

`parse_row_classified` tells a row with a broken layout from a row with a bad
value. Most of a layout is checked before the first conversion; a NUMERIC, and a
type of fixed width that is stored as a varying field, are left to the decoder,
which then reports a truncation as if it were a bad value.
-/

namespace NzRust.DbosTupleDesc

open ByteString Checked

/-! ## What a decoder reads -/

/-- The end of a value behind its length, where the length is in the row and counts itself. -/
def prefixedEnd (row : Bytes) (start : Nat) : Option Nat :=
  if row.length < start + 2 ∨ leNat ((row.drop start).take 2) < 2 then none
  else some (start + leNat ((row.drop start).take 2))

/-- The width of the types that have one. -/
def plainWidth : FieldKind → Option Nat
  | .int8 | .double | .time | .timestamp => some 8
  | .int | .float | .date => some 4
  | .int2 => some 2
  | .int1 | .bool => some 1
  | .interval => some 12
  | _ => none

/-- A NUMERIC of a shape that no column has is refused before a word of it is read. -/
def numericEnd (f : DbosField) (start : Nat) : Nat :=
  if fieldPrecision f.size ≤ 38 ∧ fieldScale f.size ≤ 38 ∧ 0 ≤ f.trueSize.tdiv 4 ∧
      f.trueSize.tdiv 4 ≤ 5 then
    start + Numeric.partCount (fieldPrecision f.size) (f.trueSize.tdiv 4) * 4
  else start

/-- The end of the bytes that the decoder of a field reads, if it has one. -/
def readEnd (row : Bytes) (f : DbosField) (start : Nat) : Option Nat :=
  match f.kind with
  | .char => if f.size < 0 then none else some (start + f.size.toNat)
  | .nchar | .varchar => prefixedEnd row start
  | .timetz => if f.size < 12 then none else some (start + f.size.toNat)
  | .numeric => some (numericEnd f start)
  | .opaqueBytes =>
      if f.fixedSize ≠ 0 then (fixedWidth f).toOption.map (start + ·) else prefixedEnd row start
  | kind => (plainWidth kind).map (start + ·)

/-- A decoder that stays in the row and, for a fixed field, in the field. -/
def InBounds (row : Bytes) (f : DbosField) (start : Nat) : Prop :=
  ∃ stop, readEnd row f start = some stop ∧ stop ≤ row.length ∧
    (f.fixedSize ≠ 0 → ∃ width, fixedWidth f = .ok width ∧ stop ≤ start + width)

/-! ## Rows -/

/-- A field that is not null, and its start. -/
structure Present (desc : DbosTupleDesc) (row : Bytes) (starts : List Nat) (i : Nat) (f : DbosField)
    (start : Nat) : Prop where
  field : desc.fields[i]? = some f
  notNull : desc.isNull row f = .ok false
  place : desc.rowFieldStart row i f starts = .ok start

/-- Every field that is not null has a start, and its decoder stays in bounds there. -/
def Sound (desc : DbosTupleDesc) (row : Bytes) : Prop :=
  desc.validateRowBitmap row = .ok () ∧ ∃ starts, desc.allStarts row = .ok starts ∧
    ∀ i f, desc.fields[i]? = some f → desc.isNull row f = .ok false →
      ∃ start, desc.rowFieldStart row i f starts = .ok start ∧ InBounds row f start

/-- The errors about the bytes of a value. -/
def Conversion (i : Nat) (f : DbosField) (e : NzError) : Prop :=
  match f.kind with
  | .char | .nchar | .varchar => e = .protocol s!"invalid UTF-8 field {i}"
  | .bool => e = .protocol "invalid binary BOOLEAN"
  | .numeric => e = Numeric.invalidShape
  | _ => False

/-- The checks before the conversion pass. -/
structure LaidOut (desc : DbosTupleDesc) (row : Bytes) (starts : List Nat) : Prop where
  bitmap : desc.validateRowBitmap row = .ok ()
  walk : desc.allStarts row = .ok starts
  storage : desc.checkStorage row starts 0 desc.fields = .ok ()

/-- The fields whose bytes these checks do not cover. -/
def Unchecked (desc : DbosTupleDesc) (f : DbosField) : Prop :=
  match f.kind with
  | .char | .nchar | .varchar | .timetz => False
  | .numeric => f.fixedSize = 0 ∨ f.trueSize < 4
  | .opaqueBytes => f.fixedSize = 0 ∧ desc.numVaryingFields = 0
  | _ => f.fixedSize = 0

/-- A row is classified by its layout. -/
structure Classifies {N : Numerics} (ops : NumberOps N) (desc : DbosTupleDesc) (row : Bytes) :
    Prop where
  /-- The field stage is reported of a sound row and for the bytes of a value only. -/
  data : ∀ e, desc.parseRowClassified ops row = fail (e, true) →
    desc.Sound row ∧ ∃ starts i f start, desc.allStarts row = .ok starts ∧
      Present desc row starts i f start ∧ parseField ops row start i f = fail e ∧ Conversion i f e
  /-- A field out of bounds is reported as such. -/
  layout : ¬desc.Sound row → ∃ e, desc.parseRowClassified ops row = fail (e, false)

/-! ## Widths -/

theorem fixedWidth_plain {f : DbosField} {n : Nat} (h : plainWidth f.kind = some n) :
    fixedWidth f = .ok n := by
  have htype : ∀ t, f.kind.types = [t] → f.fieldType = t := fun t => f.type_of_kind
  cases hkind : f.kind <;> rw [hkind] at h htype <;> cases h <;>
    simp [fixedWidth, htype _ rfl]

theorem trueSize_of_numeric {f : DbosField} (hkind : f.kind = .numeric) {n : Nat}
    (h : fixedWidth f = .ok n) : 0 ≤ f.trueSize ∧ f.trueSize.toNat = n := by
  have htype : f.fieldType = 7 := f.type_of_kind (by rw [hkind]; rfl)
  have hwidth : fixedWidth f =
      if f.trueSize < 0 then .error (.protocol "invalid fixed field width")
      else .ok f.trueSize.toNat := by
    simp [fixedWidth, htype]
  rw [hwidth] at h
  split at h
  · cases h
  · exact ⟨by omega, Except.ok.inj h⟩

theorem numericEnd_le {f : DbosField} (h : 4 ≤ f.trueSize) (start : Nat) :
    numericEnd f start ≤ start + f.trueSize.toNat := by
  have hdiv : f.trueSize.tdiv 4 = f.trueSize / 4 := Int.tdiv_eq_ediv_of_nonneg (by omega)
  rw [numericEnd, hdiv]
  split
  · rw [Numeric.partCount, if_pos (by omega)]
    omega
  · omega

/-! ## The checks -/

section Checks

variable {row : Bytes} {start : Nat} {i : Nat} {f : DbosField}

theorem lengthAt_ok {n : Nat} (h : lengthAt row start = .ok n) :
    start + 2 ≤ row.length ∧ n = leNat ((row.drop start).take 2) := by
  obtain ⟨stop, hstop, h⟩ := bind_ok h
  obtain ⟨rfl, -⟩ := addWord_ok hstop
  obtain ⟨bytes, hbytes, h⟩ := bind_ok h
  obtain ⟨-, hroom, rfl⟩ := slice_ok hbytes
  rw [Nat.add_sub_cancel_left] at h
  exact ⟨hroom, (Except.ok.inj h).symm⟩

theorem prefixedEnd_of_length {n : Nat} (h : lengthAt row start = .ok n) (hn : ¬n < 2) :
    prefixedEnd row start = some (start + n) := by
  obtain ⟨hroom, rfl⟩ := lengthAt_ok h
  rw [prefixedEnd, if_neg (by omega)]

/-- The bound of the checks is the width of a fixed field. -/
theorem fixedEnd_ok {bound : Option Nat} (h : fixedEnd i f start = .ok bound) {stop : Nat}
    (hstop : ¬bound.any (fun b => decide (b < stop)) = true) (hfixed : f.fixedSize ≠ 0) :
    ∃ width, fixedWidth f = .ok width ∧ stop ≤ start + width := by
  rw [fixedEnd, if_pos hfixed] at h
  obtain ⟨width, hwidth, h⟩ := bind_ok h
  obtain ⟨b, hb, h⟩ := bind_ok h
  obtain ⟨rfl, -⟩ := addChecked_eq_some (orFail_ok hb)
  cases h
  refine ⟨width, lift_ok hwidth, ?_⟩
  simpa using hstop

theorem storage_char (hkind : f.kind = .char)
    (h : validateRowFieldStorage row i f start = .ok ()) : InBounds row f start := by
  obtain ⟨bound, hbound, h⟩ := bind_ok h
  rw [hkind] at h
  dsimp only at h
  by_cases hneg : f.size < 0
  · rw [if_pos hneg] at h
    cases h
  rw [if_neg hneg] at h
  obtain ⟨stop, hstop, h⟩ := bind_ok h
  obtain ⟨rfl, -⟩ := addChecked_eq_some (orFail_ok hstop)
  by_cases hout : row.length < start + f.size.toNat ∨
      bound.any (fun b => decide (b < start + f.size.toNat)) = true
  · rw [if_pos hout] at h
    cases h
  rw [not_or] at hout
  refine ⟨start + f.size.toNat, ?_, by omega, fixedEnd_ok hbound hout.2⟩
  rw [readEnd, hkind]
  dsimp only
  rw [if_neg hneg]

theorem storage_timetz (hkind : f.kind = .timetz)
    (h : validateRowFieldStorage row i f start = .ok ()) : InBounds row f start := by
  obtain ⟨bound, hbound, h⟩ := bind_ok h
  rw [hkind] at h
  dsimp only at h
  by_cases hneg : f.size < 0
  · rw [if_pos hneg] at h
    cases h
  rw [if_neg hneg] at h
  obtain ⟨stop, hstop, h⟩ := bind_ok h
  obtain ⟨rfl, -⟩ := addChecked_eq_some (orFail_ok hstop)
  by_cases hout : f.size < 12 ∨ row.length < start + f.size.toNat ∨
      bound.any (fun b => decide (b < start + f.size.toNat)) = true
  · rw [if_pos hout] at h
    cases h
  rw [not_or, not_or] at hout
  refine ⟨start + f.size.toNat, ?_, by omega, fixedEnd_ok hbound hout.2.2⟩
  rw [readEnd, hkind]
  dsimp only
  rw [if_neg hout.1]

theorem storage_prefixed (hkind : f.kind = .nchar ∨ f.kind = .varchar)
    (h : validateRowFieldStorage row i f start = .ok ()) : InBounds row f start := by
  obtain ⟨bound, hbound, h⟩ := bind_ok h
  have hend : readEnd row f start = prefixedEnd row start := by
    unfold readEnd
    obtain hkind | hkind := hkind <;> rw [hkind]
  replace h : (if overruns row (addChecked 64 start 2) then fail (protocolTrunc i)
      else do
        let prefixEnd ← addWord 64 start 2
        if bound.any (fun b => decide (b < prefixEnd)) then fail (protocolTrunc i)
        else
          let encoded ← lengthAt row start
          let stop ← orFail (protocolTrunc i) (addChecked 64 start encoded)
          if encoded < 2 ∨ row.length < stop ∨ bound.any (fun b => decide (b < stop)) then
            fail (protocolTrunc i)
          else return () : Exec NzError Unit) = .ok () := by
    obtain hkind | hkind := hkind <;> (rw [hkind] at h; exact h)
  by_cases hover : overruns row (addChecked 64 start 2) = true
  · rw [if_pos hover] at h
    cases h
  rw [if_neg hover] at h
  obtain ⟨prefixEnd, -, h⟩ := bind_ok h
  by_cases hlead : bound.any (fun b => decide (b < prefixEnd)) = true
  · rw [if_pos hlead] at h
    cases h
  rw [if_neg hlead] at h
  obtain ⟨encoded, hencoded, h⟩ := bind_ok h
  obtain ⟨stop, hstop, h⟩ := bind_ok h
  obtain ⟨rfl, -⟩ := addChecked_eq_some (orFail_ok hstop)
  by_cases hout : encoded < 2 ∨ row.length < start + encoded ∨
      bound.any (fun b => decide (b < start + encoded)) = true
  · rw [if_pos hout] at h
    cases h
  rw [not_or, not_or] at hout
  refine ⟨start + encoded, ?_, by omega, fixedEnd_ok hbound hout.2.2⟩
  rw [hend]
  exact prefixedEnd_of_length hencoded hout.1

variable {desc : DbosTupleDesc} {starts : List Nat}

/-- A start in a varying slot has the slot in the row. -/
theorem rowFieldStart_slot (hfixed : f.fixedSize = 0) (hstarts : starts ≠ [])
    (h : desc.rowFieldStart row i f starts = .ok start) :
    ∃ stop, prefixedEnd row start = some stop ∧ stop ≤ row.length := by
  rw [rowFieldStart, if_neg (not_not.mpr hfixed), if_pos hstarts] at h
  by_cases hindex : f.offset < 0 ∨ starts.length ≤ f.offset.toNat
  · rw [if_pos hindex] at h
    cases h
  rw [if_neg hindex] at h
  obtain ⟨place, -, h⟩ := bind_ok h
  obtain ⟨encoded, hencoded, h⟩ := bind_ok h
  by_cases hout : encoded < 2 ∨ overruns row (addChecked 64 place encoded) = true
  · rw [if_pos hout] at h
    cases h
  rw [if_neg hout] at h
  cases h
  rw [not_or] at hout
  exact ⟨start + encoded, prefixedEnd_of_length hencoded hout.1, add_le_of_overruns hout.2⟩

/-- A fixed field has its width in the row. -/
theorem rowFieldStart_width (hfixed : f.fixedSize ≠ 0)
    (h : desc.rowFieldStart row i f starts = .ok start) :
    ∃ width, fixedWidth f = .ok width ∧ start + width ≤ row.length := by
  obtain ⟨-, -, rfl, width, hwidth, hroom⟩ | ⟨hzero, -⟩ | ⟨hzero, -⟩ := RawRow.rowFieldStart_ok h
  · exact ⟨width, hwidth, add_le_of_overruns (by simp [hroom])⟩
  · exact absurd hzero hfixed
  · exact absurd hzero hfixed

theorem inBounds_plain {n : Nat} (hplain : plainWidth f.kind = some n) (hfixed : f.fixedSize ≠ 0)
    (h : desc.rowFieldStart row i f starts = .ok start) : InBounds row f start := by
  obtain ⟨width, hwidth, hroom⟩ := rowFieldStart_width hfixed h
  have hsame := hwidth
  rw [fixedWidth_plain hplain] at hsame
  cases hsame
  refine ⟨start + n, ?_, hroom, fun _ => ⟨n, hwidth, Nat.le_refl _⟩⟩
  rw [readEnd]
  cases hkind : f.kind <;> rw [hkind] at hplain <;> cases hplain <;> rfl

theorem inBounds_numeric (hkind : f.kind = .numeric) (hfixed : f.fixedSize ≠ 0)
    (hsize : 4 ≤ f.trueSize) (h : desc.rowFieldStart row i f starts = .ok start) :
    InBounds row f start := by
  obtain ⟨width, hwidth, hroom⟩ := rowFieldStart_width hfixed h
  obtain ⟨-, htrue⟩ := trueSize_of_numeric hkind hwidth
  have hend := numericEnd_le hsize start
  refine ⟨numericEnd f start, ?_, by omega, fun _ => ⟨width, hwidth, by omega⟩⟩
  rw [readEnd, hkind]

theorem inBounds_opaque (hkind : f.kind = .opaqueBytes)
    (hcovered : f.fixedSize = 0 → starts ≠ [])
    (h : desc.rowFieldStart row i f starts = .ok start) : InBounds row f start := by
  by_cases hfixed : f.fixedSize = 0
  · obtain ⟨stop, hstop, hroom⟩ := rowFieldStart_slot hfixed (hcovered hfixed) h
    refine ⟨stop, ?_, hroom, fun hne => absurd hfixed hne⟩
    rw [readEnd, hkind]
    dsimp only
    rw [if_neg (not_not.mpr hfixed), hstop]
  · obtain ⟨width, hwidth, hroom⟩ := rowFieldStart_width hfixed h
    refine ⟨start + width, ?_, hroom, fun _ => ⟨width, hwidth, Nat.le_refl _⟩⟩
    rw [readEnd, hkind]
    dsimp only
    rw [if_pos hfixed, hwidth]
    rfl

/-- The checks cover every field but those of `Unchecked`. -/
theorem inBounds_of_checks (hstarts : starts = [] → desc.numVaryingFields = 0)
    (hplace : desc.rowFieldStart row i f starts = .ok start)
    (hstorage : validateRowFieldStorage row i f start = .ok ()) (hcovered : ¬desc.Unchecked f) :
    InBounds row f start := by
  have hplain : ∀ n, plainWidth f.kind = some n → (desc.Unchecked f ↔ f.fixedSize = 0) →
      InBounds row f start := by
    intro n hn hsame
    exact inBounds_plain hn (fun hzero => hcovered (hsame.mpr hzero)) hplace
  unfold Unchecked at hcovered hplain
  cases hkind : f.kind <;> rw [hkind] at hcovered hplain
  case char => exact storage_char hkind hstorage
  case nchar => exact storage_prefixed (.inl hkind) hstorage
  case varchar => exact storage_prefixed (.inr hkind) hstorage
  case timetz => exact storage_timetz hkind hstorage
  case numeric =>
    dsimp only at hcovered
    rw [not_or] at hcovered
    exact inBounds_numeric hkind hcovered.1 (by omega) hplace
  case opaqueBytes =>
    exact inBounds_opaque hkind (fun hzero hnil => hcovered ⟨hzero, hstarts hnil⟩) hplace
  all_goals exact hplain _ rfl Iff.rfl

/-- The storage check has passed every field that is not null. -/
theorem checkStorage_ok (fields : List DbosField) {k : Nat}
    (h : desc.checkStorage row starts k fields = .ok ()) {j : Nat} (hj : fields[j]? = some f)
    (hnull : desc.isNull row f = .ok false) :
    ∃ start, desc.rowFieldStart row (k + j) f starts = .ok start ∧
      validateRowFieldStorage row (k + j) f start = .ok () := by
  induction fields generalizing k j with
  | nil => cases hj
  | cons g fields ih =>
      obtain ⟨null, hg, h⟩ := bind_ok h
      cases j with
      | zero =>
          cases hj
          rw [hnull] at hg
          cases hg
          obtain ⟨start, hstart, h⟩ := bind_ok h
          obtain ⟨_, hstorage, _⟩ := bind_ok h
          exact ⟨start, hstart, hstorage⟩
      | succ j =>
          have hrest : desc.checkStorage row starts (k + 1) fields = .ok () := by
            cases null with
            | true => exact h
            | false =>
                obtain ⟨start, -, h⟩ := bind_ok h
                obtain ⟨-, -, h⟩ := bind_ok h
                exact h
          have hnext := ih hrest hj
          rwa [Nat.add_right_comm, Nat.add_assoc] at hnext

theorem varyingStarts_ne_nil {count j voff : Nat}
    (h : varyingStarts row (count + 1) j voff = .ok starts) : starts ≠ [] := by
  obtain ⟨prefixEnd, -, h⟩ := bind_ok h
  split at h
  · cases h
  obtain ⟨vlen, -, h⟩ := bind_ok h
  split at h
  · cases h
  obtain ⟨stop, -, h⟩ := bind_ok h
  split at h
  · cases h
  obtain ⟨next, -, h⟩ := bind_ok h
  split at h
  · cases h
  obtain ⟨rest, -, h⟩ := bind_ok h
  cases h
  exact List.cons_ne_nil voff rest

/-- Only a descriptor without varying fields has no starts. -/
theorem allStarts_nil (hbitmap : desc.validateRowBitmap row = .ok ())
    (h : desc.allStarts row = .ok starts) (hnil : starts = []) : desc.numVaryingFields = 0 := by
  by_contra hne
  rw [validateRowBitmap] at hbitmap
  split at hbitmap
  · cases hbitmap
  next hcount =>
    rw [allStarts, if_pos (by omega)] at h
    split at h
    · cases h
    obtain ⟨count, hcount⟩ : ∃ count, desc.numVaryingFields.toNat = count + 1 :=
      ⟨desc.numVaryingFields.toNat - 1, by omega⟩
    rw [hcount] at h
    exact varyingStarts_ne_nil h hnil

theorem isNull_onlyFails (desc : DbosTupleDesc) (row : Bytes) (f : DbosField)
    (E : NzError → Prop) : OnlyFails (desc.isNull row f) E := by
  rw [isNull]
  refine .ite (fun _ => .ok _ E) fun _ => .ite (fun _ => .ok _ E) fun _ => ?_
  exact (index_onlyFails _ _ E).bind fun byte _ => .ok _ E

end Checks

/-! ## Conversions -/

section Conversions

variable {row : Bytes} {off : Nat}

theorem fixedBytes_onlyFails {n : Nat} (h : off + n ≤ row.length) (i : Nat) (E : NzError → Prop) :
    OnlyFails (fixedBytes row off n i) E := by
  apply OnlyFails.bind (.or_panics _ E)
  intro stop hstop
  obtain ⟨rfl, -⟩ := addWord_ok hstop
  rw [if_neg (by omega)]
  exact .or_panics _ E

theorem fixedByte_onlyFails (h : off + 1 ≤ row.length) (i : Nat) (E : NzError → Prop) :
    OnlyFails (fixedByte row off i) E := by
  rw [fixedByte, if_neg (by omega)]
  exact index_onlyFails row off E

/-- What the end of a prefixed value says of its length. -/
theorem prefixedEnd_some {stop : Nat} (h : prefixedEnd row off = some stop) :
    off + 2 ≤ row.length ∧ 2 ≤ leNat ((row.drop off).take 2) ∧
      stop = off + leNat ((row.drop off).take 2) := by
  rw [prefixedEnd] at h
  split at h
  · cases h
  · next hlength => exact ⟨by omega, by omega, (Option.some.inj h).symm⟩

theorem lengthAt_onlyFails (E : NzError → Prop) : OnlyFails (lengthAt row off) E := by
  apply OnlyFails.bind (.or_panics _ E)
  intro stop _
  exact OnlyFails.bind (.or_panics _ E) fun bytes _ => .ok _ E

theorem prefixedBytes_onlyFails {stop : Nat} (h : prefixedEnd row off = some stop)
    (hstop : stop ≤ row.length) (i : Nat) (E : NzError → Prop) :
    OnlyFails (prefixedBytes row off i) E := by
  obtain ⟨hroom, hlong, rfl⟩ := prefixedEnd_some h
  apply OnlyFails.bind (.or_panics _ E)
  intro prefixEnd hlead
  obtain ⟨rfl, -⟩ := addWord_ok hlead
  rw [if_neg (by omega)]
  apply OnlyFails.bind (lengthAt_onlyFails E)
  intro length hlength
  obtain ⟨-, rfl⟩ := lengthAt_ok hlength
  rw [if_neg (by omega)]
  apply OnlyFails.bind (.or_panics _ E)
  intro valueEnd hvalue
  obtain ⟨rfl, -⟩ := addWord_ok hvalue
  rw [if_neg (by omega)]
  exact .or_panics _ E

theorem getSlice_in {stop : Nat} (hle : off ≤ stop) (hstop : stop ≤ row.length) :
    getSlice row off stop = some ((row.drop off).take (stop - off)) :=
  if_pos ⟨hle, hstop⟩

theorem addChecked_eq {a b : Nat} (h : a + b < 2 ^ 64) : addChecked 64 a b = some (a + b) :=
  if_pos h

theorem opaqueBytes_onlyFails {f : DbosField} (hrow : row.length < 2 ^ 63)
    (hkind : f.kind = .opaqueBytes) (h : InBounds row f off) (i : Nat) (E : NzError → Prop) :
    OnlyFails (opaqueBytes row off i f) E := by
  obtain ⟨stop, hstop, hroom, -⟩ := h
  rw [readEnd, hkind] at hstop
  dsimp only at hstop
  rw [opaqueBytes]
  by_cases hfixed : f.fixedSize ≠ 0
  · rw [if_pos hfixed] at hstop ⊢
    cases hwidth : fixedWidth f with
    | error e =>
        rw [hwidth] at hstop
        cases hstop
    | ok width =>
        rw [hwidth] at hstop
        obtain rfl : off + width = stop := Option.some.inj hstop
        rw [lift, ok_bind, addChecked_eq (by omega), Option.bind_some,
          getSlice_in (by omega) hroom]
        exact .ok _ E
  · rw [if_neg hfixed] at hstop ⊢
    obtain ⟨hlead, hlong, rfl⟩ := prefixedEnd_some hstop
    rw [addChecked_eq (by omega), Option.bind_some, getSlice_in (by omega) hlead,
      Nat.add_sub_cancel_left, orFail, ok_bind]
    dsimp only
    rw [if_neg (by omega), addChecked_eq (by omega)]
    dsimp only
    rw [addWord_eq (by omega), ok_bind, getSlice_in (by omega) hroom]
    exact .ok _ E

theorem utf8Field_onlyFails {f : DbosField} {i : Nat}
    (hkind : f.kind = .char ∨ f.kind = .nchar ∨ f.kind = .varchar) (bytes : Bytes) :
    OnlyFails (utf8Field i bytes) (Conversion i f) := by
  intro e h
  rw [utf8Field] at h
  cases hutf8 : fromUtf8 bytes with
  | some text =>
      rw [hutf8] at h
      cases h
  | none =>
      rw [hutf8] at h
      cases h
      unfold Conversion
      obtain hkind | hkind | hkind := hkind <;> rw [hkind]

variable {N : Numerics} (ops : NumberOps N)

theorem parseField_plain {f : DbosField} {n : Nat}
    (hplain : plainWidth f.kind = some n) (hroom : off + n ≤ row.length) (i : Nat) :
    OnlyFails (parseField ops row off i f) (Conversion i f) := by
  have hbytes : ∀ E, OnlyFails (fixedBytes row off n i) E := fixedBytes_onlyFails hroom i
  have hlen : ∀ bytes, fixedBytes row off n i = .ok bytes → bytes.length = n := by
    intro bytes hread
    obtain ⟨stop, hstop, h⟩ := bind_ok hread
    obtain ⟨rfl, -⟩ := addWord_ok hstop
    rw [if_neg (by omega)] at h
    obtain ⟨-, -, rfl⟩ := slice_ok h
    rw [List.length_take, List.length_drop]
    omega
  rw [parseField]
  unfold Conversion
  cases hkind : f.kind <;> rw [hkind] at hplain <;> cases hplain <;> dsimp only
  case int8 => exact (hbytes _).bind fun bytes _ => .ok _ _
  case int => exact (hbytes _).bind fun bytes _ => .ok _ _
  case int2 => exact (hbytes _).bind fun bytes _ => .ok _ _
  case int1 => exact (fixedByte_onlyFails hroom i _).bind fun byte _ => .ok _ _
  case double => exact (hbytes _).bind fun bytes _ => .ok _ _
  case float => exact (hbytes _).bind fun bytes _ => .ok _ _
  case date =>
    refine (hbytes _).bind ?_
    intro bytes hread
    obtain ⟨hlow, hhigh⟩ := Numeric.leInt_range (hlen bytes hread)
    rw [Machine.dateFrom4bytes_eq hlow hhigh]
    exact .ok _ _
  case time =>
    refine (hbytes _).bind ?_
    intro bytes _
    rw [Machine.timeFrom8bytes_eq]
    exact .ok _ _
  case interval =>
    refine (hbytes _).bind ?_
    intro bytes hread
    rw [Machine.intervalFrom12bytes_eq (hlen bytes hread)]
    exact .ok _ _
  case timestamp =>
    refine (hbytes _).bind ?_
    intro bytes hread
    obtain ⟨hlow, hhigh⟩ := leInt_range8 (hlen bytes hread)
    rw [Machine.timestampFrom8bytes_eq hlow hhigh]
    exact .ok _ _
  case bool =>
    refine (fixedByte_onlyFails hroom i _).bind ?_
    intro byte _
    apply OnlyFails.ite
    · intro _
      exact .ok _ _
    intro _
    apply OnlyFails.ite
    · intro _
      exact .ok _ _
    intro _ e h
    exact (Fault.error.inj (Except.error.inj h)).symm

theorem parseField_char {f : DbosField} (hrow : row.length < 2 ^ 63) (hkind : f.kind = .char)
    (h : InBounds row f off) (i : Nat) :
    OnlyFails (parseField ops row off i f) (Conversion i f) := by
  obtain ⟨stop, hstop, hroom, -⟩ := h
  rw [readEnd, hkind] at hstop
  dsimp only at hstop
  split at hstop
  · cases hstop
  next hsize =>
    cases hstop
    rw [parseField, hkind]
    dsimp only
    rw [asWord_eq (by omega) (by omega), addChecked_eq (by omega), Option.bind_some,
      getSlice_in (by omega) hroom, orFail, ok_bind]
    exact (utf8Field_onlyFails (.inl hkind) _).bind fun text _ => .ok _ _

theorem parseField_prefixed {f : DbosField} (hkind : f.kind = .nchar ∨ f.kind = .varchar)
    (h : InBounds row f off) (i : Nat) :
    OnlyFails (parseField ops row off i f) (Conversion i f) := by
  obtain ⟨stop, hstop, hroom, -⟩ := h
  have hend : prefixedEnd row off = some stop := by
    unfold readEnd at hstop
    obtain hkind | hkind := hkind <;> (rw [hkind] at hstop; exact hstop)
  have htext : ∀ bytes, OnlyFails (utf8Field i bytes) (Conversion i f) :=
    utf8Field_onlyFails (.inr hkind)
  rw [parseField]
  obtain hkind | hkind := hkind
  all_goals
    rw [hkind]
    dsimp only
    refine (prefixedBytes_onlyFails hend hroom i _).bind ?_
    intro bytes _
    exact (htext bytes).bind fun text _ => .ok _ _

theorem parseField_timetz {f : DbosField} (hrow : row.length < 2 ^ 63) (hkind : f.kind = .timetz)
    (h : InBounds row f off) (i : Nat) :
    OnlyFails (parseField ops row off i f) (Conversion i f) := by
  obtain ⟨stop, hstop, hroom, -⟩ := h
  rw [readEnd, hkind] at hstop
  dsimp only at hstop
  split at hstop
  · cases hstop
  next hsize =>
    cases hstop
    have hword : asWord 64 f.size = f.size.toNat := asWord_eq (by omega) (by omega)
    have hover : overruns row (addChecked 64 off f.size.toNat) = false :=
      RawRow.overruns_add (by omega) hroom
    have hlen : ((row.drop off).take (off + f.size.toNat - off)).length = f.size.toNat := by
      rw [List.length_take, List.length_drop]
      omega
    have hshort : ¬(overruns row (addChecked 64 off f.size.toNat) = true ∨ f.size.toNat < 12) := by
      rw [hover, not_or]
      exact ⟨Bool.false_ne_true, by omega⟩
    rw [parseField, hkind]
    dsimp only
    rw [hword, if_neg hshort, addWord_eq (by omega), ok_bind, slice_eq (by omega) hroom, ok_bind,
      Machine.timetzFromBytes_eq (by omega) (by omega)]
    exact .ok _ _

theorem parseField_numeric_onlyFails {f : DbosField} (hkind : f.kind = .numeric)
    (h : InBounds row f off) (i : Nat) :
    OnlyFails (parseField ops row off i f) (Conversion i f) := by
  obtain ⟨stop, hstop, hroom, -⟩ := h
  rw [readEnd, hkind] at hstop
  cases hstop
  rw [parseField]
  unfold Conversion
  rw [hkind]
  dsimp only
  have hstart : off ≤ numericEnd f off := by
    unfold numericEnd
    split <;> omega
  rw [Nat.min_eq_left (by omega), slice_eq (by omega) (Nat.le_refl _), ok_bind]
  refine OnlyFails.bind ?_ fun decoded _ => .ok _ _
  rw [numericEnd] at hroom
  split at hroom
  · refine Numeric.getCsNumeric_onlyFails ops ?_
    rw [List.length_take, List.length_drop]
    omega
  · next hshape =>
    intro e h
    rw [Numeric.getCsNumeric, if_pos] at h
    · exact (Fault.error.inj (Except.error.inj h)).symm
    · unfold fieldPrecision fieldScale at *
      omega

/-- In bounds, only the bytes of a value are refused. -/
theorem parseField_onlyFails {f : DbosField} (hrow : row.length < 2 ^ 63) (h : InBounds row f off)
    (i : Nat) : OnlyFails (parseField ops row off i f) (Conversion i f) := by
  have hplain : ∀ n, plainWidth f.kind = some n → readEnd row f off = some (off + n) →
      OnlyFails (parseField ops row off i f) (Conversion i f) := by
    intro n hn hend
    obtain ⟨stop, hstop, hroom, -⟩ := h
    rw [hend] at hstop
    cases hstop
    exact parseField_plain ops hn hroom i
  unfold readEnd at hplain
  cases hkind : f.kind <;> rw [hkind] at hplain
  case char => exact parseField_char ops hrow hkind h i
  case nchar => exact parseField_prefixed ops (.inl hkind) h i
  case varchar => exact parseField_prefixed ops (.inr hkind) h i
  case timetz => exact parseField_timetz ops hrow hkind h i
  case numeric => exact parseField_numeric_onlyFails ops hkind h i
  case opaqueBytes =>
    rw [parseField, hkind]
    exact (opaqueBytes_onlyFails hrow hkind h i _).bind fun bytes _ => .ok _ _
  all_goals exact hplain _ rfl rfl

end Conversions

/-! ## Rows -/

section Rows

variable {N : Numerics} (ops : NumberOps N) {desc : DbosTupleDesc} {row : Bytes} {starts : List Nat}

theorem staged_onlyFails {α : Type} {stage : Bool} {x : Exec NzError α}
    {E : NzError × Bool → Prop} (h : ∀ e, x = fail e → E (e, stage)) :
    OnlyFails (staged stage x) E := by
  intro e hfail
  cases x with
  | ok a => cases hfail
  | error fault =>
      cases fault with
      | error e' =>
          cases hfail
          exact h e' rfl
      | panic => cases hfail

/-- Behind the storage check only a decoder fails, in the field stage. -/
theorem convertFields_onlyFails (fields : List DbosField) (k : Nat) (stage : Bool)
    (hplaces : ∀ j f, fields[j]? = some f → desc.isNull row f = .ok false →
      ∃ start, desc.rowFieldStart row (k + j) f starts = .ok start) :
    OnlyFails (desc.convertFields ops row starts k stage fields) fun e => e.2 = true ∧
      ∃ j f start, fields[j]? = some f ∧ desc.isNull row f = .ok false ∧
        desc.rowFieldStart row (k + j) f starts = .ok start ∧
        parseField ops row start (k + j) f = fail e.1 := by
  induction fields generalizing k stage with
  | nil => exact .ok _ _
  | cons f fields ih =>
      have hrest : ∀ stage, OnlyFails (desc.convertFields ops row starts (k + 1) stage fields)
          fun e => e.2 = true ∧ ∃ j g start, (f :: fields)[j]? = some g ∧
            desc.isNull row g = .ok false ∧
            desc.rowFieldStart row (k + j) g starts = .ok start ∧
            parseField ops row start (k + j) g = fail e.1 := by
        intro stage
        refine (ih (k + 1) stage ?_).weaken ?_
        · intro j g hg hnull
          have hplace := hplaces (j + 1) g hg hnull
          rwa [Nat.add_right_comm, Nat.add_assoc]
        · rintro e ⟨hstage, j, g, start, hg, hnull, hplace, hfail⟩
          rw [Nat.add_right_comm, Nat.add_assoc] at hplace hfail
          exact ⟨hstage, j + 1, g, start, hg, hnull, hplace, hfail⟩
      rw [convertFields]
      refine OnlyFails.bind (staged_onlyFails ?_) ?_
      · intro e h
        exact (isNull_onlyFails desc row f (fun _ => False) e h).elim
      intro null hnull
      replace hnull := RawRow.staged_ok hnull
      refine .ite ?_ ?_
      · intro _
        exact (hrest stage).bind fun values _ => .ok _ _
      intro hpresent
      rw [Bool.not_eq_true] at hpresent
      subst hpresent
      obtain ⟨start, hstart⟩ := hplaces 0 f rfl hnull
      rw [Nat.add_zero] at hstart
      rw [hstart, staged, ok_bind]
      refine OnlyFails.bind (staged_onlyFails ?_) ?_
      · intro e h
        exact ⟨rfl, 0, f, start, rfl, hnull, hstart, h⟩
      · intro value _
        exact (hrest true).bind fun values _ => .ok _ _

theorem inBounds_of_laidOut (h : desc.LaidOut row starts) {i : Nat} {f : DbosField} {start : Nat}
    (hpresent : Present desc row starts i f start) (hcovered : ¬desc.Unchecked f) :
    InBounds row f start := by
  obtain ⟨place, hplace, hstorage⟩ := checkStorage_ok _ h.storage hpresent.field hpresent.notNull
  rw [Nat.zero_add] at hplace hstorage
  have hsame := hpresent.place
  rw [hplace] at hsame
  cases hsame
  exact inBounds_of_checks (allStarts_nil h.bitmap h.walk) hplace hstorage hcovered

/-- Where the checks pass, the row is sound if the fields they leave out are in bounds. -/
theorem sound_iff (h : desc.LaidOut row starts) :
    desc.Sound row ↔ ∀ i f start, Present desc row starts i f start → desc.Unchecked f →
      InBounds row f start := by
  constructor
  · rintro ⟨-, starts', hwalk, hsound⟩ i f start hpresent -
    rw [h.walk] at hwalk
    cases hwalk
    obtain ⟨place, hplace, hin⟩ := hsound i f hpresent.field hpresent.notNull
    have hsame := hpresent.place
    rw [hplace] at hsame
    cases hsame
    exact hin
  · intro hleft
    refine ⟨h.bitmap, starts, h.walk, ?_⟩
    intro i f hf hnull
    obtain ⟨start, hplace, -⟩ := checkStorage_ok _ h.storage hf hnull
    rw [Nat.zero_add] at hplace
    refine ⟨start, hplace, ?_⟩
    by_cases hcovered : desc.Unchecked f
    · exact hleft i f start ⟨hf, hnull, hplace⟩ hcovered
    · exact inBounds_of_laidOut h ⟨hf, hnull, hplace⟩ hcovered

/-- Behind the checks the stage is that of the fields. -/
theorem classified_of_laidOut (h : desc.LaidOut row starts) :
    OnlyFails (desc.parseRowClassified ops row) fun e => e.2 = true ∧
      ∃ i f start, Present desc row starts i f start ∧ parseField ops row start i f = fail e.1 := by
  rw [parseRowClassified, h.bitmap, staged, ok_bind, h.walk, staged, ok_bind, h.storage, staged,
    ok_bind]
  refine (convertFields_onlyFails ops desc.fields 0 false ?_).weaken ?_
  · intro j f hf hnull
    obtain ⟨start, hplace, -⟩ := checkStorage_ok _ h.storage hf hnull
    exact ⟨start, hplace⟩
  · rintro e ⟨hstage, j, f, start, hf, hnull, hplace, hfail⟩
    rw [Nat.zero_add] at hplace hfail
    exact ⟨hstage, j, f, start, ⟨hf, hnull, hplace⟩, hfail⟩

theorem staged_fails {α β : Type} {x : Exec NzError α} (hsafe : x ≠ panics) (hx : ∀ a, x ≠ .ok a)
    (g : α → Exec (NzError × Bool) β) : ∃ e, (staged false x >>= g) = fail (e, false) := by
  cases x with
  | ok a => exact absurd rfl (hx a)
  | error fault =>
      cases fault with
      | error e => exact ⟨e, rfl⟩
      | panic => exact absurd rfl hsafe

/-- A check that fails is reported as a broken layout. -/
theorem classified_of_not_laidOut (hrow : row.length < 2 ^ 63) (hdesc : InRange desc)
    (h : ∀ starts, ¬desc.LaidOut row starts) :
    ∃ e, desc.parseRowClassified ops row = fail (e, false) := by
  have hbitmap : Safe (desc.validateRowBitmap row) fun _ => True := validateRowBitmap_safe desc
  have hwalk := allStarts_safe hrow hdesc
  rw [parseRowClassified]
  cases hresult : desc.validateRowBitmap row with
  | error fault =>
      rw [← hresult]
      exact staged_fails hbitmap.no_panic (by simp [hresult]) _
  | ok _ =>
      rw [staged, ok_bind]
      cases hstarts : desc.allStarts row with
      | error fault =>
          rw [← hstarts]
          exact staged_fails hwalk.no_panic (by simp [hstarts]) _
      | ok starts =>
          rw [staged, ok_bind]
          have hin : Starts row starts := hwalk.value hstarts
          have hstorage := checkStorage_safe hrow hdesc hin 0 fun f hf => hf
          refine staged_fails hstorage.no_panic ?_ _
          intro _ hok
          exact h starts ⟨hresult, hstarts, hok⟩

/-- A row is classified by its layout if and only if, where the checks pass, the fields that they
leave to the decoder are in bounds. -/
theorem classifies_iff (data : Bytes) (cached : Option (List ColumnDesc)) (desc : DbosTupleDesc)
    (hdesc : parseAt data cached = .ok desc) (row : Slice) :
    Classifies ops desc row.val ↔
      ∀ starts, desc.LaidOut row.val starts → ∀ i f start,
        Present desc row.val starts i f start → desc.Unchecked f → InBounds row.val f start := by
  rw [parseAt_eq] at hdesc
  have hrange := parse_inRange (lift_ok hdesc)
  constructor
  · intro hclass starts hlaid
    rw [← sound_iff hlaid]
    by_contra hsound
    obtain ⟨e, he⟩ := hclass.layout hsound
    obtain ⟨hstage, -⟩ := classified_of_laidOut ops hlaid _ he
    cases hstage
  · intro hleft
    by_cases hlaid : ∃ starts, desc.LaidOut row.val starts
    · obtain ⟨starts, hlaid⟩ := hlaid
      have hsound := (sound_iff hlaid).mpr (hleft starts hlaid)
      refine ⟨?_, fun hnot => absurd hsound hnot⟩
      intro e he
      obtain ⟨-, i, f, start, hpresent, hfail⟩ := classified_of_laidOut ops hlaid _ he
      have hin : InBounds row.val f start := by
        by_cases hcovered : desc.Unchecked f
        · exact hleft starts hlaid i f start hpresent hcovered
        · exact inBounds_of_laidOut hlaid hpresent hcovered
      exact ⟨hsound, starts, i, f, start, hlaid.walk, hpresent, hfail,
        parseField_onlyFails ops row.property hin i e hfail⟩
    · obtain ⟨e, he⟩ := classified_of_not_laidOut ops row.property hrange
        fun starts h => hlaid ⟨starts, h⟩
      refine ⟨?_, fun _ => ⟨e, he⟩⟩
      intro e' he'
      rw [he] at he'
      cases he'

end Rows

theorem sampleDesc_unchecked {f : DbosField} (hf : f ∈ RawRow.sampleDesc.fields) :
    ¬RawRow.sampleDesc.Unchecked f := by
  intro h
  cases hf with
  | head => exact absurd (show (4 : Int) = 0 from h) (by decide)
  | tail _ hf =>
      cases hf with
      | head => exact h
      | tail _ hf => cases hf

set_option maxRecDepth 10000 in
theorem sampleRow_classified : Classifies RawRow.bitOps RawRow.sampleDesc RawRow.sampleRow :=
  (classifies_iff RawRow.bitOps RawRow.sampleDescriptor none RawRow.sampleDesc rfl
    ⟨RawRow.sampleRow, by decide⟩).mpr
    fun _ _ _ _ _ hpresent h =>
      absurd h (sampleDesc_unchecked (List.mem_of_getElem? hpresent.field))

/-- An INT8 that is stored as a varying field. -/
def slotDescriptor : Bytes :=
  [1, 0, 0, 0, 0, 1, 2, 12, 1, 20, 8, 8, 0, 0, 0, 0, 0, 0, 0, 0].flatMap (toBe 4)

def slotDesc : DbosTupleDesc :=
  ⟨0, 1, 2, [⟨20, 8, 8, 0, 0, false, 0⟩]⟩

/-- Its slot holds a length and nothing else. -/
def slotRow : Bytes :=
  [0, 0, 2, 0]

theorem slotRow_not_sound : ¬slotDesc.Sound slotRow := by
  rintro ⟨-, starts, hwalk, hsound⟩
  cases hwalk
  obtain ⟨start, hplace, stop, hstop, hroom, -⟩ := hsound 0 _ rfl rfl
  cases hplace
  obtain rfl : 10 = stop := Option.some.inj hstop
  exact absurd hroom (by decide)

set_option maxRecDepth 10000 in
theorem slotRow_misclassified :
    parseAt slotDescriptor none = .ok slotDesc ∧
    slotDesc.parseRowClassified RawRow.bitOps slotRow = fail (protocolTrunc 0, true) ∧
    ¬slotDesc.Sound slotRow ∧ ¬Classifies RawRow.bitOps slotDesc slotRow :=
  ⟨rfl, rfl, slotRow_not_sound, fun h => slotRow_not_sound (h.data _ rfl).1⟩

end NzRust.DbosTupleDesc
