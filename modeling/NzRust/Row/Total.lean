import NzRust.Row.Lazy

/-!
# Decoding hostile rows

Nothing that a peer puts into a descriptor or a row makes the decoders panic.
What a descriptor from `parse` promises is that its offsets and sizes are words
of 32 bits; everything else is checked where it is used.
-/

namespace NzRust

open ByteString Checked

/-- The bytes of a slice: no more than `isize::MAX`. -/
abbrev Slice := { bytes : Bytes // bytes.length < 2 ^ 63 }

theorem be32_lt (data : Bytes) (off : Nat) : be32 data off < 2 ^ 31 := by
  have hlen : ((data.drop off).take 4).length ≤ 4 := List.length_take_le _ _
  rw [be32, beInt, signed]
  split
  · next hword =>
      have hpow : 2 ^ (8 * ((data.drop off).take 4).length - 1) ≤ 2 ^ 31 :=
        Nat.pow_le_pow_right (by decide) (by omega)
      omega
  · have hlt := leNat_lt ((data.drop off).take 4).reverse
    rw [List.length_reverse, show (256 : Nat) = 2 ^ 8 from rfl, ← Nat.pow_mul] at hlt
    have hcast : ((leNat ((data.drop off).take 4).reverse : Nat) : Int) <
        2 ^ (8 * ((data.drop off).take 4).length) := by
      exact_mod_cast hlt
    rw [beNat]
    omega

namespace DbosTupleDesc

/-- The words of a descriptor that the row decoders calculate with. -/
structure InRange (desc : DbosTupleDesc) : Prop where
  fixedFieldsSize : desc.fixedFieldsSize < 2 ^ 31
  offset : ∀ f ∈ desc.fields, f.offset < 2 ^ 31

theorem parseFields_offset {cached : Option (List ColumnDesc)} (count ix : Nat) {data : Bytes}
    {fields : List DbosField} (h : parseFields cached count ix data = .ok fields) :
    ∀ f ∈ fields, f.offset < 2 ^ 31 := by
  induction count generalizing ix data fields with
  | zero =>
      cases h
      intro f hf
      cases hf
  | succ count ih =>
      rw [parseFields] at h
      split at h
      · cases h
      cases hrest : parseFields cached count (ix + 1) (data.drop 36) with
      | error e =>
          rw [hrest] at h
          cases h
      | ok rest =>
          rw [hrest] at h
          cases h
          intro f hf
          cases hf with
          | head => exact be32_lt data 12
          | tail _ hf => exact ih (ix + 1) hrest f hf

theorem parse_inRange {data : Bytes} {cached : Option (List ColumnDesc)} {desc : DbosTupleDesc}
    (h : parse data cached = .ok desc) : InRange desc := by
  unfold parse at h
  dsimp only at h
  split at h
  · cases h
  split at h
  · cases h
  split at h
  · cases h
  split at h
  · cases h
  split at h
  · cases h
  split at h
  · cases h
  cases hfields : parseFields cached (be32 data 32).toNat 0 (data.drop 36) with
  | error e =>
      rw [hfields] at h
      cases h
  | ok fields =>
      rw [hfields] at h
      cases h
      exact ⟨be32_lt data 24, parseFields_offset _ _ hfields⟩

/-! ## Reads -/

variable {row : Bytes}

theorem overruns_eq_false {stop : Option Nat} (h : overruns row stop = false) :
    ∃ s, stop = some s ∧ s ≤ row.length := by
  cases stop with
  | none => cases h
  | some s => exact ⟨s, rfl, by simpa [overruns] using h⟩

/-- What a range within the row is known by. -/
theorem add_le_of_overruns {a b : Nat} (h : ¬overruns row (addChecked 64 a b) = true) :
    a + b ≤ row.length := by
  obtain ⟨s, hs, hle⟩ := overruns_eq_false (by simpa using h)
  obtain ⟨rfl, -⟩ := addChecked_eq_some hs
  exact hle

theorem fixedBytes_safe {off n : Nat} (hoff : off < 2 ^ 63) (hn : n < 2 ^ 16) (i : Nat) :
    Safe (fixedBytes row off n i) fun bytes => bytes.length = n := by
  rw [fixedBytes, addWord_eq (by omega), ok_bind]
  apply Safe.guard
  intro hfits
  apply (slice_safe (by omega) (by omega)).weaken
  intro bytes hbytes
  omega

theorem fixedByte_safe (off i : Nat) : Safe (fixedByte row off i) fun _ => True := by
  rw [fixedByte]
  apply Safe.guard
  intro hin
  exact (index_safe (by omega)).weaken fun _ _ => trivial

theorem opaqueBytes_safe {off : Nat} (hoff : off < 2 ^ 63) (i : Nat) (f : DbosField) :
    Safe (opaqueBytes row off i f) fun _ => True := by
  rw [opaqueBytes]
  apply Safe.ite
  · intro _
    apply (lift_safe _).bind
    intro width _
    exact (orFail_safe _ _).weaken fun _ _ => trivial
  intro _
  apply (orFail_safe _ _).bind
  intro bytes _
  apply Safe.guard
  intro _
  split
  · trivial
  rw [addWord_eq (by omega), ok_bind]
  exact (orFail_safe _ _).weaken fun _ _ => trivial

theorem isNull_safe (desc : DbosTupleDesc) (f : DbosField) :
    Safe (desc.isNull row f) fun _ => True := by
  rw [isNull]
  apply Safe.ite
  · intro _
    trivial
  intro _
  apply Safe.ite
  · intro _
    trivial
  intro hin
  exact (index_safe (by omega)).bind fun _ _ => trivial

variable (hrow : row.length < 2 ^ 63)

include hrow

theorem lengthAt_safe {off : Nat} (h : off + 2 ≤ row.length) :
    Safe (lengthAt row off) fun n => n < 2 ^ 16 := by
  rw [lengthAt, addWord_eq (by omega), ok_bind]
  apply (slice_safe (by omega) h).bind
  intro bytes hbytes
  have hlt := leNat_lt bytes
  rw [hbytes, Nat.add_sub_cancel_left] at hlt
  exact hlt

theorem prefixedBytes_safe {off : Nat} (hoff : off < 2 ^ 63) (i : Nat) :
    Safe (prefixedBytes row off i) fun _ => True := by
  rw [prefixedBytes, addWord_eq (by omega), ok_bind]
  apply Safe.guard
  intro hlead
  apply (lengthAt_safe hrow (by omega)).bind
  intro length hlength
  apply Safe.guard
  intro hlong
  rw [addWord_eq (by omega), ok_bind]
  apply Safe.guard
  intro hfits
  exact (slice_safe (by omega) (by omega)).weaken fun _ _ => trivial

/-! ## The layout of a row -/

omit hrow in
theorem validateRowBitmap_safe (desc : DbosTupleDesc) :
    Safe (desc.validateRowBitmap row) fun _ => True := by
  rw [validateRowBitmap]
  apply Safe.guard
  intro _
  apply Safe.guard
  intro _
  trivial

/-- Every start has its length prefix within the row. -/
def Starts (row : Bytes) (starts : List Nat) : Prop :=
  ∀ s ∈ starts, s + 2 ≤ row.length

theorem rowFieldStart_safe {desc : DbosTupleDesc} (hdesc : InRange desc) (i : Nat) {f : DbosField}
    (hf : f ∈ desc.fields) {starts : List Nat} (hstarts : Starts row starts) :
    Safe (desc.rowFieldStart row i f starts) fun start => start < 2 ^ 63 := by
  have hoffset := hdesc.offset f hf
  rw [rowFieldStart]
  apply Safe.ite
  · intro _
    apply Safe.guard
    intro _
    apply Safe.guard
    intro _
    apply (lift_safe _).bind
    intro width _
    apply Safe.guard
    intro _
    exact Safe.ok (by omega)
  intro _
  apply Safe.ite
  · intro _
    apply Safe.guard
    intro hindex
    apply (index_safe (by omega)).bind
    intro start hstart
    have hlead := hstarts start (List.mem_of_getElem? hstart)
    apply (lengthAt_safe hrow hlead).bind
    intro encoded _
    apply Safe.guard
    intro _
    exact Safe.ok (by omega)
  intro _
  apply Safe.guard
  intro _
  apply Safe.guard
  intro _
  exact Safe.ok (by omega)

omit hrow in
theorem fixedEnd_safe (i : Nat) (f : DbosField) (start : Nat) :
    Safe (fixedEnd i f start) fun _ => True := by
  rw [fixedEnd]
  apply Safe.ite
  · intro _
    apply (lift_safe _).bind
    intro width _
    exact (orFail_safe _ _).bind fun _ _ => trivial
  intro _
  trivial

theorem validateRowFieldStorage_safe (i : Nat) (f : DbosField) (start : Nat) :
    Safe (validateRowFieldStorage row i f start) fun _ => True := by
  rw [validateRowFieldStorage]
  apply (fixedEnd_safe i f start).bind
  intro bound _
  have hsized : ∀ short : Nat → Prop, [DecidablePred short] → Safe
      (if f.size < 0 then fail (protocolTrunc i)
        else do
          let stop ← orFail (protocolTrunc i) (addChecked 64 start f.size.toNat)
          if short stop then fail (protocolTrunc i) else return () : Exec NzError Unit)
      fun _ => True := by
    intro short _
    apply Safe.guard
    intro _
    apply (orFail_safe _ _).bind
    intro stop _
    apply Safe.guard
    intro _
    trivial
  have hprefixed : Safe
      (if overruns row (addChecked 64 start 2) then fail (protocolTrunc i)
        else do
          let prefixEnd ← addWord 64 start 2
          if bound.any (fun b => decide (b < prefixEnd)) then fail (protocolTrunc i)
          else
            let encoded ← lengthAt row start
            let stop ← orFail (protocolTrunc i) (addChecked 64 start encoded)
            if encoded < 2 ∨ row.length < stop ∨ bound.any (fun b => decide (b < stop)) then
              fail (protocolTrunc i)
            else return () : Exec NzError Unit)
      fun _ => True := by
    apply Safe.guard
    intro hroom
    have hlead := add_le_of_overruns hroom
    rw [addWord_eq (by omega), ok_bind]
    apply Safe.guard
    intro _
    apply (lengthAt_safe hrow hlead).bind
    intro encoded _
    apply (orFail_safe _ _).bind
    intro stop _
    apply Safe.guard
    intro _
    trivial
  cases f.kind <;> first | trivial | exact hprefixed | exact hsized _

theorem padded_safe {stop n : Nat} (h : stop ≤ row.length) :
    Safe (if n % 2 ≠ 0 then addWord 64 stop 1 else .ok stop : Exec NzError Nat) fun _ => True := by
  apply Safe.ite
  · intro _
    rw [addWord_eq (by omega)]
    trivial
  intro _
  trivial

theorem varyingStarts_safe (count j : Nat) {voff : Nat} (hvoff : voff < 2 ^ 63) :
    Safe (varyingStarts row count j voff) (Starts row) := by
  induction count generalizing j voff with
  | zero =>
      intro s hs
      cases hs
  | succ count ih =>
      rw [varyingStarts, addWord_eq (by omega), ok_bind]
      apply Safe.guard
      intro hlead
      apply (lengthAt_safe hrow (by omega)).bind
      intro vlen hvlen
      apply Safe.guard
      intro _
      rw [addWord_eq (by omega), ok_bind]
      apply Safe.guard
      intro hstop
      apply (padded_safe hrow (by omega)).bind
      intro next _
      apply Safe.guard
      intro _
      apply (ih (j + 1) (by omega)).bind
      intro starts hstarts s hs
      cases hs with
      | head => omega
      | tail _ hs => exact hstarts s hs

theorem varyingSpans_safe (count j : Nat) {cursor : Nat} :
    Safe (varyingSpans row count j cursor) fun _ => True := by
  induction count generalizing j cursor with
  | zero => trivial
  | succ count ih =>
      rw [varyingSpans]
      apply Safe.guard
      intro hlead
      apply (lengthAt_safe hrow (add_le_of_overruns hlead)).bind
      intro encoded _
      dsimp only
      apply Safe.guard
      intro hvalue
      rw [not_or] at hvalue
      obtain ⟨stop, hstop, hfits⟩ := overruns_eq_false (by simpa using hvalue.2)
      rw [hstop]
      dsimp only
      apply Safe.guard
      intro _
      apply Safe.guard
      intro _
      apply (padded_safe hrow hfits).bind
      intro next _
      apply Safe.guard
      intro _
      exact (ih (j + 1)).bind fun _ _ => trivial

omit hrow in
theorem checkPlaces_safe (desc : DbosTupleDesc) (i : Nat) (fields : List DbosField) :
    Safe (desc.checkPlaces row i fields) fun _ => True := by
  induction fields generalizing i with
  | nil => trivial
  | cons f fields ih =>
      rw [checkPlaces]
      apply (isNull_safe desc f).bind
      intro null _
      apply Safe.ite
      · intro _
        exact ih (i + 1)
      intro _
      apply Safe.ite
      · intro _
        apply Safe.guard
        intro _
        apply Safe.guard
        intro _
        apply (lift_safe _).bind
        intro width _
        apply Safe.guard
        intro _
        exact ih (i + 1)
      intro _
      apply Safe.ite
      · intro _
        apply Safe.guard
        intro _
        exact ih (i + 1)
      intro _
      apply Safe.guard
      intro _
      exact ih (i + 1)

theorem validateRowLayout_safe (desc : DbosTupleDesc) :
    Safe (desc.validateRowLayout row) fun _ => True := by
  rw [validateRowLayout]
  apply (validateRowBitmap_safe desc).bind
  intro _ _
  dsimp only
  have hcursor : Safe
      (if desc.numVaryingFields.toNat = 0 then .ok 0
        else if desc.fixedFieldsSize < 0 then fail (invalidRow "fixed-field area offset is invalid")
        else .ok desc.fixedFieldsSize.toNat : Exec NzError Nat) fun _ => True := by
    apply Safe.ite
    · intro _
      trivial
    intro _
    apply Safe.guard
    intro _
    trivial
  apply hcursor.bind
  intro cursor _
  apply (varyingSpans_safe hrow _ _).bind
  intro spans _
  exact (checkPlaces_safe desc 0 desc.fields).bind fun _ _ => trivial

/-! ## The values of a row -/

section Values

variable {N : Numerics} (ops : NumberOps N)

omit hrow in
theorem leInt_range8 {bytes : Bytes} (hlen : bytes.length = 8) :
    -(2 ^ 63) ≤ leInt bytes ∧ leInt bytes < 2 ^ 63 := by
  have hlt := leNat_lt bytes
  rw [hlen] at hlt
  rw [leInt, hlen, signed]
  split <;> omega

/-- Whatever the type and the size of a field, and wherever it starts. -/
theorem parseField_safe {off : Nat} (hoff : off < 2 ^ 63) (i : Nat) (f : DbosField) :
    Safe (parseField ops row off i f) fun _ => True := by
  rw [parseField]
  cases f.kind with
  | char =>
      apply (orFail_safe _ _).bind
      intro bytes _
      exact (orFail_safe _ _).bind fun _ _ => trivial
  | nchar =>
      apply (prefixedBytes_safe hrow hoff i).bind
      intro bytes _
      exact (orFail_safe _ _).bind fun _ _ => trivial
  | varchar =>
      apply (prefixedBytes_safe hrow hoff i).bind
      intro bytes _
      exact (orFail_safe _ _).bind fun _ _ => trivial
  | int8 => exact (fixedBytes_safe hoff (by decide) i).bind fun _ _ => trivial
  | int => exact (fixedBytes_safe hoff (by decide) i).bind fun _ _ => trivial
  | int2 => exact (fixedBytes_safe hoff (by decide) i).bind fun _ _ => trivial
  | int1 => exact (fixedByte_safe off i).bind fun _ _ => trivial
  | double => exact (fixedBytes_safe hoff (by decide) i).bind fun _ _ => trivial
  | float => exact (fixedBytes_safe hoff (by decide) i).bind fun _ _ => trivial
  | date =>
      apply (fixedBytes_safe hoff (by decide) i).bind
      intro bytes hbytes
      obtain ⟨hlow, hhigh⟩ := Numeric.leInt_range hbytes
      rw [Machine.dateFrom4bytes_eq hlow hhigh]
      trivial
  | time =>
      apply (fixedBytes_safe hoff (by decide) i).bind
      intro bytes _
      rw [Machine.timeFrom8bytes_eq]
      trivial
  | interval =>
      apply (fixedBytes_safe hoff (by decide) i).bind
      intro bytes hbytes
      rw [Machine.intervalFrom12bytes_eq hbytes]
      trivial
  | timetz =>
      apply Safe.guard
      intro hroom
      rw [not_or] at hroom
      have hfits := add_le_of_overruns hroom.1
      rw [addWord_eq (by omega), ok_bind]
      apply (slice_safe (by omega) hfits).bind
      intro bytes hbytes
      rw [Machine.timetzFromBytes_eq (by omega) (by omega)]
      trivial
  | timestamp =>
      apply (fixedBytes_safe hoff (by decide) i).bind
      intro bytes hbytes
      obtain ⟨hlow, hhigh⟩ := leInt_range8 hbytes
      rw [Machine.timestampFrom8bytes_eq hlow hhigh]
      trivial
  | bool =>
      apply (fixedByte_safe off i).bind
      intro byte _
      apply Safe.ite
      · intro _
        trivial
      intro _
      apply Safe.ite
      · intro _
        trivial
      intro _
      trivial
  | numeric =>
      apply (slice_safe (Nat.min_le_right off row.length) (Nat.le_refl _)).bind
      intro bytes _
      exact (Numeric.getCsNumeric_safe ops bytes _ _ _).bind fun _ _ => trivial
  | opaqueBytes => exact (opaqueBytes_safe hoff i f).bind fun _ _ => trivial

variable {desc : DbosTupleDesc} (hdesc : InRange desc)

include hdesc

theorem allStarts_safe : Safe (desc.allStarts row) (Starts row) := by
  have hsize := hdesc.fixedFieldsSize
  rw [allStarts]
  apply Safe.ite
  · intro _
    apply Safe.guard
    intro _
    exact varyingStarts_safe hrow _ _ (by omega)
  intro _ s hs
  cases hs

theorem checkStorage_safe {starts : List Nat} (hstarts : Starts row starts) (i : Nat)
    {fields : List DbosField} (hfields : ∀ f ∈ fields, f ∈ desc.fields) :
    Safe (desc.checkStorage row starts i fields) fun _ => True := by
  induction fields generalizing i with
  | nil => trivial
  | cons f fields ih =>
      have hrest := ih (i + 1) fun g hg => hfields g (.tail _ hg)
      rw [checkStorage]
      apply (isNull_safe desc f).bind
      intro null _
      apply Safe.ite
      · intro _
        exact hrest
      intro _
      apply (rowFieldStart_safe hrow hdesc i (hfields f (.head _)) hstarts).bind
      intro start _
      exact (validateRowFieldStorage_safe hrow i f start).bind fun _ _ => hrest

omit hrow hdesc in
theorem staged_safe {α : Type} (stage : Bool) {x : Exec NzError α} {Q : α → Prop} (h : Safe x Q) :
    Safe (staged stage x) Q := by
  cases x with
  | ok a => exact h
  | error e =>
      cases e with
      | error e => trivial
      | panic => exact h

omit hrow hdesc in
theorem unstaged_safe {α : Type} {x : Exec (NzError × Bool) α} {Q : α → Prop} (h : Safe x Q) :
    Safe (unstaged x) Q := by
  cases x with
  | ok a => exact h
  | error e =>
      cases e with
      | error e => trivial
      | panic => exact h

theorem convertFields_safe {starts : List Nat} (hstarts : Starts row starts) (i : Nat)
    (stage : Bool) {fields : List DbosField} (hfields : ∀ f ∈ fields, f ∈ desc.fields) :
    Safe (desc.convertFields ops row starts i stage fields) fun _ => True := by
  induction fields generalizing i stage with
  | nil => trivial
  | cons f fields ih =>
      have hrest := fun stage => ih (i + 1) stage fun g hg => hfields g (.tail _ hg)
      rw [convertFields]
      apply (staged_safe stage (isNull_safe desc f)).bind
      intro null _
      apply Safe.ite
      · intro _
        exact (hrest stage).bind fun _ _ => trivial
      intro _
      apply (staged_safe stage (rowFieldStart_safe hrow hdesc i (hfields f (.head _)) hstarts)).bind
      intro start hstart
      apply (staged_safe true (parseField_safe hrow ops hstart i f)).bind
      intro value _
      exact (hrest true).bind fun _ _ => trivial

theorem parseRow_safe : Safe (desc.parseRow ops row) fun _ => True := by
  rw [parseRow]
  apply unstaged_safe
  rw [parseRowClassified]
  apply (staged_safe false (validateRowBitmap_safe desc)).bind
  intro _ _
  apply (staged_safe false (allStarts_safe hrow hdesc)).bind
  intro starts hstarts
  apply (staged_safe false (checkStorage_safe hrow hdesc hstarts 0 fun f hf => hf)).bind
  intro _ _
  exact convertFields_safe hrow ops hdesc hstarts 0 false fun f hf => hf

end Values

end DbosTupleDesc

/-! ## Lazy rows -/

namespace RawRow

open DbosTupleDesc

variable {payload : Bytes} (hpayload : payload.length < 2 ^ 63)

theorem packRowSpan_safe (start stop : Nat) : Safe (packRowSpan start stop) fun _ => True := by
  rw [packRowSpan]
  apply Safe.guard
  intro _
  apply Safe.guard
  intro _
  trivial

include hpayload

theorem dbosTurn_safe (desc : DbosTupleDesc) (p : Progress) :
    Safe (dbosTurn payload desc p) fun _ => True := by
  rw [dbosTurn]
  apply Safe.guard
  intro _
  apply (orFail_safe _ _).bind
  intro prefixEnd _
  apply (orFail_safe _ _).bind
  intro bytes _
  apply (orFail_safe _ _).bind
  intro valueEnd _
  apply Safe.guard
  intro hvalue
  rw [addWord_eq (by omega), ok_bind]
  apply Safe.guard
  intro _
  exact (packRowSpan_safe _ _).bind fun _ _ => trivial

theorem ensureDbosSpans_safe (desc : DbosTupleDesc) (p : Progress) (count : Nat) :
    Safe (ensureDbosSpans payload desc p count).1 fun _ => True := by
  rw [ensureDbosSpans]
  generalize count - p.spans.length = n
  induction n generalizing p with
  | zero => trivial
  | succ n ih =>
      rw [dbosTurns]
      have hturn := dbosTurn_safe hpayload desc p
      cases hresult : dbosTurn payload desc p with
      | ok p' => exact ih p'
      | error e =>
          rw [hresult] at hturn
          cases e with
          | error e => trivial
          | panic => exact hturn

omit hpayload in
theorem spanStart_lt (span : UInt64) : spanStart span < 2 ^ 63 := by
  rw [spanStart]
  omega

/-- A span of the lazy row starts where `parse_field_into` may read. -/
theorem dbosSpan_safe {desc : DbosTupleDesc} (hdesc : InRange desc) (p : Progress) (i : Nat) :
    Safe (dbosSpan payload desc p i).1
      fun span => ∀ place, span = some place → place.1 < 2 ^ 63 ∧ i < desc.fields.length := by
  unfold dbosSpan
  by_cases hi : desc.numFields ≤ i
  · rw [if_pos hi]
    trivial
  rw [if_neg hi]
  have hin : i < desc.fields.length := Nat.not_le.mp hi
  rw [index_eq hin]
  dsimp only
  have hoffset := hdesc.offset _ (List.getElem_mem hin)
  have hsize := hdesc.fixedFieldsSize
  have hnull : Safe (desc.isNull payload desc.fields[i]) fun _ => True :=
    isNull_safe desc desc.fields[i]
  generalize desc.fields[i] = f at hoffset hnull ⊢
  generalize desc.isNull payload f = null at hnull ⊢
  obtain (e | _) | (_ | _) := null
  · trivial
  · exact hnull
  · dsimp only
    by_cases hfixed : f.fixedSize ≠ 0
    · rw [if_pos hfixed]
      by_cases hneg : f.offset < 0
      · rw [if_pos hneg]
        trivial
      rw [if_neg hneg]
      apply (lift_safe _).bind
      intro width _
      apply (orFail_safe _ _).bind
      rintro stop _ place ⟨⟩
      exact ⟨show f.offset.toNat < 2 ^ 63 by omega, hin⟩
    rw [if_neg hfixed]
    by_cases hnone : desc.numVaryingFields = 0
    · rw [if_pos hnone]
      by_cases hneg : desc.fixedFieldsSize < 0
      · rw [if_pos hneg]
        trivial
      rw [if_neg hneg]
      by_cases hover : payload.length < desc.fixedFieldsSize.toNat
      · rw [if_pos hover]
        trivial
      rw [if_neg hover]
      rintro place ⟨⟩
      exact ⟨show desc.fixedFieldsSize.toNat < 2 ^ 63 by omega, hin⟩
    rw [if_neg hnone]
    by_cases hneg : f.offset < 0
    · rw [if_pos hneg]
      trivial
    rw [if_neg hneg]
    have hspans := ensureDbosSpans_safe hpayload desc p (f.offset.toNat + 1)
    generalize ensureDbosSpans payload desc p (f.offset.toNat + 1) = found at hspans ⊢
    obtain ⟨(e | _) | _, p'⟩ := found
    · trivial
    · exact hspans
    · apply (orFail_safe _ _).bind
      rintro span _ place ⟨⟩
      exact ⟨spanStart_lt span, hin⟩
  · rintro place ⟨⟩

omit hpayload

variable {N : Numerics} (ops : NumberOps N)

/-- A lazy binary row over a slice. -/
structure Bound (desc : DbosTupleDesc) (row : RawRow N) : Prop where
  inRange : InRange desc
  payload : row.payload.length < 2 ^ 63
  kind : row.kind = .dbos desc

variable {desc : DbosTupleDesc} {row : RawRow N}

theorem decodeValue_safe (h : Bound desc row) (i : Nat) :
    Safe (row.decodeValue ops i).1 fun _ => True := by
  rw [decodeValue, h.kind]
  dsimp only
  have hspan := dbosSpan_safe h.payload h.inRange row.progress i
  generalize dbosSpan row.payload desc row.progress i = found at hspan ⊢
  obtain ⟨(e | _) | (_ | place), p⟩ := found
  · trivial
  · exact hspan
  · trivial
  · obtain ⟨hplace, hin⟩ := hspan place rfl
    apply (index_safe hin).bind
    intro f _
    exact parseField_safe h.payload ops hplace i f

theorem dbosValues_safe (h : Bound desc row) (spans : List UInt64) (i : Nat)
    (columns : List ColumnDesc) (hcolumns : i + columns.length ≤ desc.fields.length) :
    Safe (dbosValues ops row.payload desc spans i columns) fun _ => True := by
  induction columns generalizing i with
  | nil => trivial
  | cons column columns ih =>
      rw [List.length_cons] at hcolumns
      rw [dbosValues]
      apply (index_safe (by omega)).bind
      intro f hf
      have hoffset := h.inRange.offset f (List.mem_of_getElem? hf)
      have hsize := h.inRange.fixedFieldsSize
      apply (isNull_safe desc f).bind
      intro null _
      have hstart : Safe (dbosStart desc spans i f) fun start => start < 2 ^ 63 := by
        rw [dbosStart]
        apply Safe.ite
        · intro _
          apply Safe.guard
          intro _
          exact Safe.ok (by omega)
        intro _
        apply Safe.ite
        · intro _
          apply Safe.guard
          intro _
          exact Safe.ok (by omega)
        intro _
        apply Safe.guard
        intro _
        exact (orFail_safe _ _).bind fun span _ => spanStart_lt span
      have hvalue : Safe (if null then .ok .null
          else do
            let start ← dbosStart desc spans i f
            DbosTupleDesc.parseField ops row.payload start i f) fun _ => True := by
        apply Safe.ite
        · intro _
          trivial
        intro _
        exact hstart.bind fun start hlt => parseField_safe h.payload ops hlt i f
      apply hvalue.bind
      intro v _
      exact (ih (i + 1) (by omega)).bind fun _ _ => trivial

theorem decodeAll_safe (h : Bound desc row) : Safe (row.decodeAll ops).1 fun _ => True := by
  rw [decodeAll, h.kind]
  dsimp only
  by_cases hmany : desc.numFields < row.columns.length
  · rw [if_pos hmany]
    trivial
  rw [if_neg hmany]
  have hspans := ensureDbosSpans_safe h.payload desc row.progress desc.numVaryingFields.toNat
  generalize ensureDbosSpans row.payload desc row.progress desc.numVaryingFields.toNat = found
    at hspans ⊢
  obtain ⟨(e | _) | _, p⟩ := found
  · trivial
  · exact hspans
  · exact dbosValues_safe ops h p.spans 0 row.columns (by
      rw [Nat.zero_add]
      exact Nat.not_lt.mp hmany)

theorem value_safe (h : Bound desc row) {i : Nat} (hi : i < row.columns.length) :
    Safe (row.value ops i).1 (fun _ => True) ∧ Bound desc (row.value ops i).2 := by
  rw [value]
  cases row.decoded with
  | some values => exact ⟨(orFail_safe _ _).weaken fun _ _ => trivial, h⟩
  | none =>
      dsimp only
      generalize row.cells.getD (row.columns.map fun _ => none) = cells
      cases cells[i]? with
      | none => exact ⟨trivial, h.inRange, h.payload, h.kind⟩
      | some cell =>
          cases cell with
          | some v => exact ⟨trivial, h.inRange, h.payload, h.kind⟩
          | none =>
              have hbound : Bound desc { row with decoded := none, cells := some cells } :=
                ⟨h.inRange, h.payload, h.kind⟩
              have hvalue := decodeValue_safe ops hbound i
              dsimp only
              generalize RawRow.decodeValue ops { row with decoded := none, cells := some cells } i =
                decoded at hvalue ⊢
              obtain ⟨(e | _) | v, p⟩ := decoded
              · refine ⟨?_, h.inRange, h.payload, h.kind⟩
                exact (index_safe hi).bind fun _ _ => trivial
              · exact absurd hvalue id
              · exact ⟨trivial, h.inRange, h.payload, h.kind⟩

/-- An answer that is a value or an error. -/
def Answer.returned : Answer N → Prop
  | .value result => result ≠ panics
  | .values result => result ≠ panics

theorem answer_safe (h : Bound desc row) (access : Access) :
    (row.answer ops access).1.returned ∧ Bound desc (row.answer ops access).2 := by
  cases access with
  | get i =>
      rw [answer]
      dsimp only
      rw [tryGetValue]
      by_cases hi : row.columns.length ≤ i
      · rw [if_pos hi]
        exact ⟨(by intro hfalse; cases hfalse), h⟩
      · rw [if_neg hi]
        obtain ⟨hvalue, hbound⟩ := value_safe ops h (Nat.not_le.mp hi)
        exact ⟨hvalue.no_panic, hbound⟩
  | all =>
      rw [answer]
      dsimp only
      rw [tryValues]
      cases row.decoded with
      | some values => exact ⟨(by intro hfalse; cases hfalse), h⟩
      | none =>
          have hall := decodeAll_safe ops h
          dsimp only
          generalize row.decodeAll ops = decoded at hall ⊢
          obtain ⟨(e | _) | values, p⟩ := decoded
          · exact ⟨(by intro hfalse; cases hfalse), h.inRange, h.payload, h.kind⟩
          · exact absurd hall id
          · exact ⟨(by intro hfalse; cases hfalse), h.inRange, h.payload, h.kind⟩

theorem answers_safe (h : Bound desc row) (accesses : List Access) :
    ∀ a ∈ row.answers ops accesses, a.returned := by
  induction accesses generalizing row with
  | nil =>
      intro a ha
      cases ha
  | cons access rest ih =>
      obtain ⟨hanswer, hbound⟩ := answer_safe ops h access
      intro a ha
      rw [answers] at ha
      cases ha with
      | head => exact hanswer
      | tail _ ha => exact ih hbound a ha

end RawRow

namespace DbosTupleDesc

variable {N : Numerics} (ops : NumberOps N)

/-- No descriptor and no row under it makes a decoder panic, nor does any access to a lazy row. -/
theorem decoding_returns (data : Bytes) (cached : Option (List ColumnDesc)) :
    parseAt data cached ≠ panics ∧
    ∀ desc, parseAt data cached = .ok desc → ∀ row : Slice,
      desc.parseRow ops row.val ≠ panics ∧
      desc.validateRowLayout row.val ≠ panics ∧
      ∀ (columns : List ColumnDesc) (raw : RawRow N),
        RawRow.fromDbosRaw columns row.val desc = .ok raw →
        ∀ accesses, ∀ a ∈ raw.answers ops accesses, a.returned := by
  rw [parseAt_eq]
  refine ⟨(lift_safe _).no_panic, ?_⟩
  intro desc hdesc row
  have hrange := parse_inRange (lift_ok hdesc)
  refine ⟨(parseRow_safe row.property ops hrange).no_panic,
    (validateRowLayout_safe row.property desc).no_panic, ?_⟩
  intro columns raw hraw
  obtain ⟨spans, -, hbuilt⟩ := bind_ok hraw
  cases hbuilt
  exact RawRow.answers_safe ops ⟨hrange, row.property, rfl⟩

set_option maxRecDepth 10000 in
theorem sample_decoding_returns :
    ∃ desc, parseAt RawRow.sampleDescriptor none = .ok desc ∧
      ∃ raw, RawRow.fromDbosRaw RawRow.sampleColumns RawRow.sampleRow desc = .ok raw ∧
        ∀ accesses, ∀ a ∈ raw.answers RawRow.bitOps accesses, a.returned :=
  ⟨RawRow.sampleDesc, rfl, _, rfl,
    ((decoding_returns RawRow.bitOps RawRow.sampleDescriptor none).2 RawRow.sampleDesc rfl
      ⟨RawRow.sampleRow, by decide⟩).2.2 RawRow.sampleColumns _ rfl⟩

end DbosTupleDesc

end NzRust
