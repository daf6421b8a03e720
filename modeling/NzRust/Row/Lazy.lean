import Mathlib.Algebra.Order.Ring.Int
import Mathlib.Data.List.Forall2
import NzRust.Row.Raw

/-!
# Lazy and eager decoding

Where the eager parser finds the values `vs`, the lazy row answers with them,
whatever is asked in whatever order. Its memory only ever holds what is true of
`vs`: spans that the next turn would find again, cells and rows that hold values
of `vs`. Every accessor keeps that, and answers out of it.
-/

namespace NzRust.RawRow

open ByteString Checked

/-! ## Spans -/

theorem shift_amount : (32 : UInt64).toNat % 64 = 32 := by
  decide

theorem packSpan_toNat {start stop : Nat} (hstart : start < 2 ^ 32) (hstop : stop < 2 ^ 32) :
    (DbosTupleDesc.packSpan start stop).toNat = start * 2 ^ 32 + stop := by
  have hhigh : (UInt64.ofNat start).toNat = start := by
    rw [UInt64.toNat_ofNat', Nat.mod_eq_of_lt (by omega)]
  have hlow : (UInt64.ofNat stop).toNat = stop := by
    rw [UInt64.toNat_ofNat', Nat.mod_eq_of_lt (by omega)]
  have hshift : start <<< 32 % 2 ^ 64 = start <<< 32 := by
    rw [Nat.shiftLeft_eq, Nat.mod_eq_of_lt (by omega)]
  rw [DbosTupleDesc.packSpan, UInt64.toNat_or, UInt64.toNat_shiftLeft, shift_amount, hhigh, hlow,
    hshift, ← Nat.shiftLeft_add_eq_or_of_lt hstop, Nat.shiftLeft_eq]

theorem spanStart_packSpan {start stop : Nat} (hstart : start < 2 ^ 32) (hstop : stop < 2 ^ 32) :
    spanStart (DbosTupleDesc.packSpan start stop) = start := by
  rw [spanStart, UInt64.toNat_shiftRight, shift_amount, packSpan_toNat hstart hstop,
    Nat.shiftRight_eq_div_pow]
  omega

theorem spanEnd_packSpan {start stop : Nat} (hstart : start < 2 ^ 32) (hstop : stop < 2 ^ 32) :
    spanEnd (DbosTupleDesc.packSpan start stop) = stop := by
  rw [spanEnd, packSpan_toNat hstart hstop]
  omega

theorem packRowSpan_eq {start stop : Nat} (hstart : start < 2 ^ 32) (hstop : stop < 2 ^ 32) :
    packRowSpan start stop = .ok (DbosTupleDesc.packSpan start stop) := by
  rw [packRowSpan, if_neg (by omega), if_neg (by omega)]

/-! ## Text rows -/

section Text

variable {N : Numerics} (ops : NumberOps N) {payload : Bytes}

/-- From a column and a cursor on: the span that the next turn finds, and the value there. -/
inductive Frames (payload : Bytes) :
    Nat → Nat → List ColumnDesc → List UInt64 → List (NzValue N) → Prop where
  | nil (k c : Nat) : Frames payload k c [] [] []
  | cons {k c c' : Nat} {column : ColumnDesc} {columns : List ColumnDesc} {span : UInt64}
      {spans : List UInt64} {v : NzValue N} {vs : List (NzValue N)} {here : Bool}
      (hturn : ∀ p : Progress, p.cursor = c → p.spans.length = k →
        textTurn payload p = (.ok (), ⟨c', p.spans ++ [span]⟩))
      (hhere : TextRow.present payload k = .ok here)
      (hvalue : (if here = false then .ok .null
        else textValue ops column payload (spanStart span) (spanEnd span)) = .ok v)
      (rest : Frames payload (k + 1) c' columns spans vs) :
      Frames payload k c (column :: columns) (span :: spans) (v :: vs)

theorem frames_null {k c : Nat} {column : ColumnDesc} {columns : List ColumnDesc}
    {spans : List UInt64} {vs : List (NzValue N)} (hhere : TextRow.present payload k = .ok false)
    (hc : c < 2 ^ 32) (rest : Frames ops payload (k + 1) c columns spans vs) :
    Frames ops payload k c (column :: columns) (DbosTupleDesc.packSpan c c :: spans)
      (.null :: vs) := by
  refine .cons ?_ hhere rfl rest
  rintro p rfl rfl
  rw [textTurn, nextTextCell, hhere, ok_bind]
  simp only [if_true, pure, Except.pure, packRowSpan_eq hc hc]

/-- A cell that is there, with its length and its bytes. -/
theorem frames_cell {k c stop : Nat} {encoded : Int} {column : ColumnDesc}
    {columns : List ColumnDesc} {spans : List UInt64} {text : Text} {v : NzValue N}
    {vs : List (NzValue N)} (hsmall : payload.length < 2 ^ 32)
    (hhere : TextRow.present payload k = .ok true)
    (hlength : TextRow.lengthAt payload c = .ok encoded) (hencoded : 4 ≤ encoded)
    (hstop : stop = c + 4 + (encoded - 4).toNat) (hfits : stop ≤ payload.length)
    (htext : fromUtf8 ((payload.drop (c + 4)).take (stop - (c + 4))) = some text)
    (hv : tryParseTextValue ops text column.typeOid column.typeMod = .ok v)
    (rest : Frames ops payload (k + 1) stop columns spans vs) :
    Frames ops payload k c (column :: columns) (DbosTupleDesc.packSpan (c + 4) stop :: spans)
      (v :: vs) := by
  obtain ⟨stop', hadd, hread⟩ := bind_ok hlength
  obtain ⟨rfl, -⟩ := addWord_ok hadd
  obtain ⟨bytes, hslice, hbytes⟩ := bind_ok hread
  obtain ⟨-, hroom, hdata⟩ := slice_ok hslice
  have hvalue : beInt bytes = encoded := Except.ok.inj hbytes
  have hfour : bytes.length = 4 := by
    rw [hdata, List.length_take, List.length_drop]
    omega
  have hrange := (Numeric.beInt_range hfour).2
  have hget : getSlice payload c (c + 4) = some bytes := by
    rw [getSlice, if_pos ⟨Nat.le_add_right c 4, hroom⟩, hdata]
  have hlead : addChecked 64 c 4 = some (c + 4) := if_pos (by omega)
  have hend : addChecked 64 (c + 4) (encoded - 4).toNat = some stop := by
    rw [hstop]
    exact if_pos (by omega)
  refine .cons ?_ hhere ?_ rest
  · rintro p rfl rfl
    rw [textTurn, nextTextCell, hhere, ok_bind]
    simp only [Bool.true_eq_false, if_false, hlead, orFail, ok_bind, hget, hvalue]
    rw [int_eq (by omega) (by omega), ok_bind, if_neg (by omega), hend]
    simp only [ok_bind, if_neg (Nat.not_lt.mpr hfits), pure, Except.pure,
      packRowSpan_eq (show p.cursor + 4 < 2 ^ 32 by omega) (show stop < 2 ^ 32 by omega)]
  · rw [if_neg nofun, textValue, spanStart_packSpan (by omega) (by omega),
      spanEnd_packSpan (by omega) (by omega), slice_eq (by omega) hfits, ok_bind, htext, orFail,
      ok_bind, hv]
    rfl

/-- What the eager parser reads, the turns find. -/
theorem parseFrom_frames (hsmall : payload.length < 2 ^ 32) (columns : List ColumnDesc)
    {k c : Nat} {vs : List (NzValue N)} (hc : c ≤ payload.length)
    (h : TextRow.parseFrom ops payload columns k c = .ok vs) :
    ∃ spans, Frames ops payload k c columns spans vs := by
  induction columns generalizing k c vs with
  | nil =>
      cases h
      exact ⟨[], .nil k c⟩
  | cons column columns ih =>
      rw [TextRow.parseFrom] at h
      obtain ⟨here, hhere, h⟩ := bind_ok h
      by_cases hnull : here = false
      · subst hnull
        rw [if_pos rfl] at h
        obtain ⟨values, hvalues, h⟩ := bind_ok h
        cases h
        obtain ⟨spans, hspans⟩ := ih hc hvalues
        exact ⟨_, frames_null ops hhere (by omega) hspans⟩
      have htrue : here = true := by
        simpa using hnull
      subst htrue
      rw [if_neg hnull] at h
      obtain ⟨start, hstart, h⟩ := bind_ok h
      obtain ⟨rfl, -⟩ := addWord_ok hstart
      by_cases hshort : payload.length < c + 4
      · rw [if_pos hshort] at h
        cases h
      rw [if_neg hshort] at h
      obtain ⟨encoded, hlength, h⟩ := bind_ok h
      by_cases hsign : encoded < 4
      · rw [if_pos hsign] at h
        cases h
      rw [if_neg hsign] at h
      obtain ⟨stop, hstop, h⟩ := bind_ok h
      obtain ⟨rfl, -⟩ := addWord_ok hstop
      by_cases hover : payload.length < c + 4 + (encoded - 4).toNat
      · rw [if_pos hover] at h
        cases h
      rw [if_neg hover] at h
      by_cases hempty : encoded = 4
      · rw [if_pos hempty] at h
        obtain ⟨v, hv, h⟩ := bind_ok h
        obtain ⟨values, hvalues, h⟩ := bind_ok h
        cases h
        obtain ⟨spans, hspans⟩ := ih (show c + 4 ≤ payload.length by omega) hvalues
        have hnone : (payload.drop (c + 4)).take (c + 4 - (c + 4)) = [] := by
          rw [Nat.sub_self, List.take_zero]
        exact ⟨_, frames_cell ops hsmall hhere hlength (by omega) (by omega) (by omega)
          (by rw [hnone]; rfl) (lift_mapError hv) hspans⟩
      · rw [if_neg hempty] at h
        obtain ⟨bytes, hbytes, h⟩ := bind_ok h
        obtain ⟨text, htext, h⟩ := bind_ok h
        obtain ⟨v, hv, h⟩ := bind_ok h
        obtain ⟨values, hvalues, h⟩ := bind_ok h
        cases h
        obtain ⟨spans, hspans⟩ := ih (by omega) hvalues
        obtain ⟨-, -, rfl⟩ := slice_ok hbytes
        exact ⟨_, frames_cell ops hsmall hhere hlength (by omega) rfl (by omega)
          (orFail_ok htext) (lift_mapError hv) hspans⟩

/-- The value of a cell, from its column, its bit and its span. -/
def Cell (payload : Bytes) (column : ColumnDesc) (k : Nat) (span : UInt64) (v : NzValue N) : Prop :=
  ∃ here, TextRow.present payload k = .ok here ∧
    (if here = false then .ok .null
      else textValue ops column payload (spanStart span) (spanEnd span)) = .ok v

/-- The spans found are the first of all, and the turns go on from the cursor. -/
structure Found (payload : Bytes) (columns : List ColumnDesc) (spans : List UInt64)
    (vs : List (NzValue N)) (p : Progress) : Prop where
  spans_eq : p.spans = spans.take p.spans.length
  rest : Frames ops payload p.spans.length p.cursor (columns.drop p.spans.length)
    (spans.drop p.spans.length) (vs.drop p.spans.length)

variable {ops} {columns : List ColumnDesc} {spans : List UInt64} {vs : List (NzValue N)}

theorem Frames.lengths {k c : Nat} (h : Frames ops payload k c columns spans vs) :
    spans.length = columns.length ∧ vs.length = columns.length := by
  induction h with
  | nil k c => exact ⟨rfl, rfl⟩
  | cons hturn hhere hvalue rest ih =>
      rw [List.length_cons, List.length_cons, List.length_cons, ih.1, ih.2]
      exact ⟨rfl, rfl⟩

theorem Frames.cell {k c : Nat} (h : Frames ops payload k c columns spans vs) {i : Nat}
    {column : ColumnDesc} (hi : columns[i]? = some column) :
    ∃ span v, spans[i]? = some span ∧ vs[i]? = some v ∧ Cell ops payload column (k + i) span v := by
  induction h generalizing i with
  | nil k c => cases hi
  | cons hturn hhere hvalue rest ih =>
      cases i with
      | zero =>
          cases hi
          exact ⟨_, _, rfl, rfl, _, hhere, hvalue⟩
      | succ i =>
          obtain ⟨span, v, hspan, hv, hcell⟩ := ih hi
          rw [Nat.succ_add_eq_add_succ] at hcell
          exact ⟨span, v, hspan, hv, hcell⟩

theorem Found.turn {p : Progress} (h : Found ops payload columns spans vs p)
    (hmore : p.spans.length < columns.length) :
    ∃ p', textTurn payload p = (.ok (), p') ∧ Found ops payload columns spans vs p' ∧
      p'.spans.length = p.spans.length + 1 := by
  obtain ⟨hspans, hrest⟩ := h
  have hlengths := hrest.lengths
  simp only [List.length_drop] at hlengths
  have hmore' : p.spans.length < spans.length := by omega
  have hmore'' : p.spans.length < vs.length := by omega
  rw [List.drop_eq_getElem_cons hmore, List.drop_eq_getElem_cons hmore',
    List.drop_eq_getElem_cons hmore''] at hrest
  cases hrest with
  | cons hturn hhere hvalue rest =>
      refine ⟨_, hturn p rfl rfl, ⟨?_, ?_⟩, ?_⟩
      · simp only [List.length_append, List.length_singleton]
        rw [List.take_succ_eq_append_getElem hmore', ← hspans]
      · simp only [List.length_append, List.length_singleton]
        exact rest
      · simp only [List.length_append, List.length_singleton]

theorem Found.turns {p : Progress} (h : Found ops payload columns spans vs p) (n : Nat)
    (hn : p.spans.length + n ≤ columns.length) :
    ∃ p', textTurns payload n p = (.ok (), p') ∧ Found ops payload columns spans vs p' ∧
      p'.spans.length = p.spans.length + n := by
  induction n generalizing p with
  | zero => exact ⟨p, rfl, h, rfl⟩
  | succ n ih =>
      obtain ⟨p', hturn, hfound, hlen⟩ := h.turn (by omega)
      obtain ⟨p'', hturns, hfound', hlen'⟩ := ih hfound (by omega)
      rw [textTurns, hturn]
      exact ⟨p'', hturns, hfound', by omega⟩

theorem Found.ensure {p : Progress} (h : Found ops payload columns spans vs p) {count : Nat}
    (hcount : count ≤ columns.length) :
    ∃ p', ensureTextSpans payload p count = (.ok (), p') ∧ Found ops payload columns spans vs p' ∧
      count ≤ p'.spans.length := by
  by_cases hdone : count ≤ p.spans.length
  · rw [ensureTextSpans, Nat.sub_eq_zero_of_le hdone]
    exact ⟨p, rfl, h, hdone⟩
  · obtain ⟨p', hturns, hfound, hlen⟩ := h.turns (count - p.spans.length) (by omega)
    exact ⟨p', hturns, hfound, by omega⟩

theorem present_bit {k : Nat} {here : Bool} (h : TextRow.present payload k = .ok here) :
    ∃ byte, payload[k / 8]? = some byte ∧
      (here = false ↔ byte &&& (1 <<< UInt8.ofNat (7 - k % 8)) = 0) := by
  obtain ⟨byte, hbyte, hbit⟩ := bind_ok h
  refine ⟨byte, ?_, ?_⟩
  · unfold index at hbyte
    split at hbyte
    · next heq => rw [heq, Except.ok.inj hbyte]
    · cases hbyte
  · rw [← Except.ok.inj hbit]
    simp

/-- Any cell of a text row is found and decoded, however far the turns have come. -/
theorem decodeValue_text {row : RawRow N} (hkind : row.kind = .text) {c : Nat}
    (hframes : Frames ops row.payload 0 c row.columns spans vs)
    (hfound : Found ops row.payload row.columns spans vs row.progress) {i : Nat}
    (hi : i < row.columns.length) :
    ∃ v p, vs[i]? = some v ∧ row.decodeValue ops i = (.ok v, p) ∧
      Found ops row.payload row.columns spans vs p := by
  obtain ⟨span, v, hspan, hv, here, hhere, hvalue⟩ :=
    hframes.cell (List.getElem?_eq_getElem hi)
  rw [Nat.zero_add] at hhere
  obtain ⟨p, hensure, hp, hlen⟩ := hfound.ensure (show i + 1 ≤ row.columns.length from hi)
  obtain ⟨byte, hbyte, hbit⟩ := present_bit hhere
  have hindex : index (ε := NzError) p.spans i = .ok span := by
    rw [hp.spans_eq, index, List.getElem?_take_of_lt (by omega), hspan]
  refine ⟨v, p, hv, ?_, hp⟩
  rw [decodeValue, hkind]
  dsimp only
  rw [textSpan, if_neg (by omega), hensure]
  dsimp only
  rw [hbyte, orFail, ok_bind, hindex, ok_bind]
  by_cases hnull : here = false
  · rw [if_pos hnull] at hvalue
    rw [if_pos (hbit.mp hnull), ← Except.ok.inj hvalue]
    rfl
  · rw [if_neg hnull] at hvalue
    rw [if_neg (fun hzero => hnull (hbit.mpr hzero))]
    dsimp only [pure, Except.pure]
    rw [List.getElem?_eq_getElem hi, orFail, ok_bind, hvalue]

theorem textValues_eq {all : List UInt64} {k c : Nat}
    (h : Frames ops payload k c columns spans vs) (hall : all.drop k = spans) :
    textValues ops payload all k columns = .ok vs := by
  induction h with
  | nil k c => rfl
  | @cons k c c' column columns span spans v vs here hturn hhere hvalue rest ih =>
      have hspan : all[k]? = some span := by
        rw [← List.head?_drop, hall]
        rfl
      have htail : all.drop (k + 1) = spans := by
        rw [← List.tail_drop, hall]
        rfl
      rw [textValues, hhere, ok_bind, index, hspan, ok_bind, hvalue, ok_bind, ih htail]
      rfl

theorem decodeAll_text {row : RawRow N} (hkind : row.kind = .text) {c : Nat}
    (hframes : Frames ops row.payload 0 c row.columns spans vs)
    (hfound : Found ops row.payload row.columns spans vs row.progress) :
    ∃ p, row.decodeAll ops = (.ok vs, p) ∧ Found ops row.payload row.columns spans vs p := by
  obtain ⟨p, hensure, hp, hlen⟩ := hfound.ensure (Nat.le_refl row.columns.length)
  have hall : p.spans = spans := by
    rw [hp.spans_eq, List.take_of_length_le]
    rw [hframes.lengths.1]
    exact hlen
  refine ⟨p, ?_, hp⟩
  rw [decodeAll, hkind]
  dsimp only
  rw [hensure]
  dsimp only
  rw [hall, textValues_eq hframes rfl]

end Text

/-! ## Binary rows -/

section Binary

open DbosTupleDesc

theorem overruns_add {row : Bytes} (hsmall : row.length < 2 ^ 64) {a b : Nat}
    (h : a + b ≤ row.length) : overruns row (addChecked 64 a b) = false := by
  rw [addChecked, if_pos (by omega)]
  simpa [overruns] using h

/-- The two walks over the varying fields find the same places. -/
theorem varyingSpans_of_varyingStarts {row : Bytes} (hsmall : row.length < 2 ^ 32)
    (count j : Nat) {voff : Nat} {starts : List Nat}
    (h : varyingStarts row count j voff = .ok starts) :
    ∃ spans, varyingSpans row count j voff = .ok spans ∧ spans.map spanStart = starts ∧
      spans.length = count := by
  induction count generalizing j voff starts with
  | zero =>
      cases h
      exact ⟨[], rfl, rfl, rfl⟩
  | succ count ih =>
      rw [varyingStarts] at h
      obtain ⟨prefixEnd, hlead, h⟩ := bind_ok h
      obtain ⟨rfl, -⟩ := addWord_ok hlead
      by_cases hshort : row.length < voff + 2
      · rw [if_pos hshort] at h
        cases h
      rw [if_neg hshort] at h
      obtain ⟨vlen, hvlen, h⟩ := bind_ok h
      by_cases htiny : vlen < 2
      · rw [if_pos htiny] at h
        cases h
      rw [if_neg htiny] at h
      obtain ⟨stop, hstop, h⟩ := bind_ok h
      obtain ⟨rfl, -⟩ := addWord_ok hstop
      by_cases hover : row.length < voff + vlen
      · rw [if_pos hover] at h
        cases h
      rw [if_neg hover] at h
      obtain ⟨next, hnext, h⟩ := bind_ok h
      by_cases hpad : row.length < next
      · rw [if_pos hpad] at h
        cases h
      rw [if_neg hpad] at h
      obtain ⟨rest, hrest, h⟩ := bind_ok h
      cases h
      obtain ⟨spans, hspans, hmap, hlen⟩ := ih (j + 1) hrest
      have hvalueEnd : addChecked 64 voff vlen = some (voff + vlen) := if_pos (by omega)
      refine ⟨packSpan voff (voff + vlen) :: spans, ?_, ?_, ?_⟩
      · rw [varyingSpans, overruns_add (Nat.lt_trans hsmall (by decide)) (by omega), if_neg nofun, hvlen, ok_bind]
        dsimp only
        rw [overruns_add (Nat.lt_trans hsmall (by decide)) (by omega), if_neg (by simpa using htiny), hvalueEnd]
        dsimp only
        rw [if_neg (by omega), if_neg (by omega), hnext, ok_bind, if_neg hpad, hspans, ok_bind]
        rfl
      · rw [List.map_cons, hmap, spanStart_packSpan (by omega) (by omega)]
      · rw [List.length_cons, hlen]

variable {N : Numerics} {ops : NumberOps N} {desc : DbosTupleDesc} {row : Bytes}
  {starts : List Nat}

theorem staged_ok {α : Type} {stage : Bool} {x : Exec NzError α} {a : α}
    (h : staged stage x = .ok a) : x = .ok a := by
  cases x with
  | ok b => exact congrArg _ (Except.ok.inj h)
  | error e =>
      cases e with
      | error e => cases h
      | panic => cases h

theorem unstaged_ok {α : Type} {x : Exec (NzError × Bool) α} {a : α}
    (h : unstaged x = .ok a) : x = .ok a := by
  cases x with
  | ok b => exact congrArg _ (Except.ok.inj h)
  | error e =>
      cases e with
      | error e => cases h
      | panic => cases h

/-- What is known of a place that `rowFieldStart` has accepted. -/
theorem rowFieldStart_ok {i start : Nat} {f : DbosField}
    (h : desc.rowFieldStart row i f starts = .ok start) :
    (0 < f.fixedSize ∧ 0 ≤ f.offset ∧ start = f.offset.toNat ∧ ∃ width, fixedWidth f = .ok width ∧
      overruns row (addChecked 64 f.offset.toNat width) = false) ∨
    (f.fixedSize = 0 ∧ starts ≠ [] ∧ 0 ≤ f.offset ∧ starts[f.offset.toNat]? = some start) ∨
    (f.fixedSize = 0 ∧ starts = [] ∧ 0 ≤ desc.fixedFieldsSize ∧
      desc.fixedFieldsSize.toNat ≤ row.length ∧ start = desc.fixedFieldsSize.toNat) := by
  unfold rowFieldStart at h
  by_cases hfixed : f.fixedSize ≠ 0
  · rw [if_pos hfixed] at h
    by_cases hsize : f.fixedSize < 0
    · rw [if_pos hsize] at h
      cases h
    rw [if_neg hsize] at h
    by_cases hoff : f.offset < 0
    · rw [if_pos hoff] at h
      cases h
    rw [if_neg hoff] at h
    obtain ⟨width, hwidth, h⟩ := bind_ok h
    by_cases hover : overruns row (addChecked 64 f.offset.toNat width) = true
    · rw [if_pos hover] at h
      cases h
    rw [if_neg hover] at h
    cases h
    exact .inl ⟨by omega, by omega, rfl, width, lift_ok hwidth, by simpa using hover⟩
  · rw [if_neg hfixed] at h
    have hzero : f.fixedSize = 0 := not_not.mp hfixed
    by_cases hvarying : starts ≠ []
    · rw [if_pos hvarying] at h
      by_cases hoff : f.offset < 0 ∨ starts.length ≤ f.offset.toNat
      · rw [if_pos hoff] at h
        cases h
      rw [if_neg hoff] at h
      obtain ⟨start', hstart', h⟩ := bind_ok h
      obtain ⟨encoded, -, h⟩ := bind_ok h
      split at h
      · cases h
      cases h
      refine .inr (.inl ⟨hzero, hvarying, by omega, ?_⟩)
      rw [index_eq (by omega)] at hstart'
      rw [List.getElem?_eq_getElem (by omega), Except.ok.inj hstart']
    · rw [if_neg hvarying] at h
      by_cases hsize : desc.fixedFieldsSize < 0
      · rw [if_pos hsize] at h
        cases h
      rw [if_neg hsize] at h
      by_cases hover : row.length < desc.fixedFieldsSize.toNat
      · rw [if_pos hover] at h
        cases h
      rw [if_neg hover] at h
      cases h
      exact .inr (.inr ⟨hzero, not_not.mp hvarying, by omega, by omega, rfl⟩)

/-- The places that the storage check accepts are those the layout check accepts. -/
theorem checkPlaces_of_checkStorage (hlen : starts.length = desc.numVaryingFields.toNat)
    (fields : List DbosField) {i : Nat} (h : desc.checkStorage row starts i fields = .ok ()) :
    desc.checkPlaces row i fields = .ok () := by
  induction fields generalizing i with
  | nil => rfl
  | cons f fields ih =>
      rw [checkStorage] at h
      obtain ⟨null, hnull, h⟩ := bind_ok h
      rw [checkPlaces, hnull, ok_bind]
      cases null with
      | true => exact ih h
      | false =>
          rw [if_neg nofun] at h
          obtain ⟨start, hstart, h⟩ := bind_ok h
          obtain ⟨-, -, h⟩ := bind_ok h
          have hvarying : 0 < desc.numVaryingFields ↔ starts ≠ [] := by
            rw [← List.length_pos_iff]
            omega
          rw [if_neg nofun]
          obtain ⟨hfixed, hoff, -, width, hwidth, hroom⟩ | ⟨hfixed, hsome, hoff, hget⟩ |
            ⟨hfixed, hnone, hsize, hroom, -⟩ := rowFieldStart_ok hstart
          · rw [if_pos (by omega), if_neg (by omega), if_neg (by omega), hwidth, lift, ok_bind,
              if_neg (by simp [hroom])]
            exact ih h
          · obtain ⟨hin, -⟩ := List.getElem?_eq_some_iff.mp hget
            rw [if_neg (by omega), if_pos (hvarying.mpr hsome), if_neg (by omega)]
            exact ih h
          · rw [if_neg (by omega), if_neg (fun hpos => hvarying.mp hpos hnone), if_neg (by omega)]
            exact ih h

/-- The value of a field, as the eager parser reads it at its place. -/
def Field (ops : NumberOps N) (desc : DbosTupleDesc) (row : Bytes) (starts : List Nat) (i : Nat)
    (f : DbosField) (v : NzValue N) : Prop :=
  desc.isNull row f = .ok true ∧ v = .null ∨
    desc.isNull row f = .ok false ∧ ∃ start, desc.rowFieldStart row i f starts = .ok start ∧
      parseField ops row start i f = .ok v

theorem convertFields_ok (fields : List DbosField) {i : Nat} {stage : Bool}
    {vs : List (NzValue N)} (h : desc.convertFields ops row starts i stage fields = .ok vs) :
    List.Forall₂ (fun (pair : DbosField × Nat) v => Field ops desc row starts pair.2 pair.1 v)
      (fields.zipIdx i) vs := by
  induction fields generalizing i stage vs with
  | nil =>
      cases h
      exact .nil
  | cons f fields ih =>
      rw [convertFields] at h
      obtain ⟨null, hnull, h⟩ := bind_ok h
      have hnull := staged_ok hnull
      cases null with
      | true =>
          rw [if_pos rfl] at h
          obtain ⟨values, hvalues, h⟩ := bind_ok h
          cases h
          exact .cons (.inl ⟨hnull, rfl⟩) (ih hvalues)
      | false =>
          rw [if_neg nofun] at h
          obtain ⟨start, hstart, h⟩ := bind_ok h
          obtain ⟨v, hv, h⟩ := bind_ok h
          obtain ⟨values, hvalues, h⟩ := bind_ok h
          cases h
          exact .cons (.inr ⟨hnull, start, staged_ok hstart, staged_ok hv⟩) (ih hvalues)

variable {spans : List UInt64} {vs : List (NzValue N)}

theorem dbosStart_eq (hlen : spans.length = desc.numVaryingFields.toNat) {i start : Nat}
    {f : DbosField} (h : desc.rowFieldStart row i f (spans.map spanStart) = .ok start) :
    dbosStart desc spans i f = .ok start := by
  have hempty : spans.map spanStart = [] ↔ desc.numVaryingFields.toNat = 0 := by
    rw [List.map_eq_nil_iff, ← List.length_eq_zero_iff, hlen]
  unfold dbosStart
  obtain ⟨hfixed, hoff, hstart, -⟩ | ⟨hfixed, hsome, hoff, hget⟩ |
    ⟨hfixed, hnone, hsize, -, hstart⟩ := rowFieldStart_ok h
  · rw [if_pos (by omega), if_neg (by omega), hstart]
  · rw [List.getElem?_map] at hget
    obtain ⟨span, hspan, rfl⟩ := Option.map_eq_some_iff.mp hget
    rw [if_neg (by omega), if_neg (fun hzero => hsome (hempty.mpr hzero)), if_neg (by omega), hspan,
      orFail, ok_bind]
    rfl
  · rw [if_neg (by omega), if_pos (hempty.mp hnone), if_neg (by omega), hstart]

/-- The span of a field that is not null, and its end where no length tells it. -/
theorem dbosSpan_eq (hcount : 0 ≤ desc.numVaryingFields)
    (hlen : spans.length = desc.numVaryingFields.toNat) {i start c : Nat} {f : DbosField}
    (hi : desc.fields[i]? = some f) (hnull : desc.isNull row f = .ok false)
    (h : desc.rowFieldStart row i f (spans.map spanStart) = .ok start) :
    ∃ stop, dbosSpan row desc ⟨c, spans⟩ i = (.ok (some (start, stop)), ⟨c, spans⟩) ∧
      (f.fixedSize ≠ 0 →
        ∃ width, fixedWidth f = .ok width ∧ addChecked 64 start width = some stop) ∧
      (f.fixedSize = 0 → desc.numVaryingFields = 0 → stop = row.length) := by
  obtain ⟨hin, -⟩ := List.getElem?_eq_some_iff.mp hi
  have hempty : spans.map spanStart = [] ↔ desc.numVaryingFields = 0 := by
    rw [List.map_eq_nil_iff, ← List.length_eq_zero_iff, hlen]
    omega
  unfold dbosSpan
  rw [if_neg (show ¬desc.numFields ≤ i from Nat.not_le.mpr hin), index, hi]
  dsimp only
  rw [hnull]
  dsimp only
  obtain ⟨hfixed, hoff, hstart, width, hwidth, hroom⟩ | ⟨hfixed, hsome, hoff, hget⟩ |
    ⟨hfixed, hnone, hsize, hroom, hstart⟩ := rowFieldStart_ok h
  · rw [if_pos (by omega), if_neg (by omega), hwidth, lift, ok_bind, hstart]
    cases hadd : addChecked 64 f.offset.toNat width with
    | none =>
        rw [hadd] at hroom
        cases hroom
    | some stop => exact ⟨stop, rfl, fun _ => ⟨width, rfl, hadd⟩, fun hzero => by omega⟩
  · rw [List.getElem?_map] at hget
    obtain ⟨span, hspan, rfl⟩ := Option.map_eq_some_iff.mp hget
    obtain ⟨hoffset, -⟩ := List.getElem?_eq_some_iff.mp hspan
    have hdone : f.offset.toNat + 1 - spans.length = 0 := by omega
    rw [if_neg (by omega), if_neg (fun hzero => hsome (hempty.mpr hzero)), if_neg (by omega),
      ensureDbosSpans]
    dsimp only
    rw [hdone, dbosTurns]
    dsimp only
    rw [hspan, orFail, ok_bind]
    exact ⟨_, rfl, fun hpos => absurd hfixed hpos, fun _ hzero => absurd (hempty.mpr hzero) hsome⟩
  · rw [if_neg (by omega), if_pos (hempty.mp hnone), if_neg (by omega), if_neg (by omega), hstart]
    exact ⟨_, rfl, fun hpos => absurd hfixed hpos, fun _ _ => rfl⟩

/-- A binary row whose varying spans are all there, under the values it stands for. -/
structure Laid (ops : NumberOps N) (desc : DbosTupleDesc) (payload : Bytes) (spans : List UInt64)
    (vs : List (NzValue N)) : Prop where
  count : 0 ≤ desc.numVaryingFields
  spans_length : spans.length = desc.numVaryingFields.toNat
  fields : List.Forall₂
    (fun (pair : DbosField × Nat) v =>
      Field ops desc payload (spans.map spanStart) pair.2 pair.1 v)
    (desc.fields.zipIdx 0) vs

theorem Laid.length (h : Laid ops desc row spans vs) : vs.length = desc.fields.length := by
  rw [← h.fields.length_eq, List.length_zipIdx]

theorem decodeValue_dbos {raw : RawRow N} (hkind : raw.kind = .dbos desc)
    (h : Laid ops desc raw.payload raw.progress.spans vs) {i : Nat} (hi : i < desc.fields.length) :
    ∃ v, vs[i]? = some v ∧ raw.decodeValue ops i = (.ok v, raw.progress) := by
  have hvs : i < vs.length := by
    rw [h.length]
    exact hi
  have hfield := h.fields.get (by simpa using hi) hvs
  simp only [List.get_eq_getElem, List.getElem_zipIdx, Nat.zero_add] at hfield
  have hget := List.getElem?_eq_getElem hi
  refine ⟨vs[i], List.getElem?_eq_getElem hvs, ?_⟩
  rw [decodeValue, hkind]
  dsimp only
  obtain ⟨hnull, hv⟩ | ⟨hnull, start, hstart, hv⟩ := hfield
  · rw [dbosSpan, if_neg (show ¬desc.numFields ≤ i from Nat.not_le.mpr hi), index, hget]
    dsimp only
    rw [hnull, hv]
  · obtain ⟨stop, hspan, -⟩ := dbosSpan_eq h.count h.spans_length hget hnull hstart
      (c := raw.progress.cursor)
    rw [hspan]
    dsimp only
    rw [index, hget, ok_bind, hv]

theorem dbosValues_eq {payload : Bytes} (hlen : spans.length = desc.numVaryingFields.toNat)
    (columns : List ColumnDesc) {i : Nat} (fields : List DbosField)
    (hfields : desc.fields.drop i = fields) (hcolumns : columns.length = fields.length)
    (h : List.Forall₂ (fun (pair : DbosField × Nat) v =>
      Field ops desc payload (spans.map spanStart) pair.2 pair.1 v) (fields.zipIdx i) vs) :
    dbosValues ops payload desc spans i columns = .ok vs := by
  induction columns generalizing i fields vs with
  | nil =>
      rw [List.length_eq_zero_iff.mp hcolumns.symm] at h
      cases h
      rfl
  | cons column columns ih =>
      cases fields with
      | nil => cases hcolumns
      | cons f fields =>
          have hf : desc.fields[i]? = some f := by
            rw [← List.head?_drop, hfields]
            rfl
          have htail : desc.fields.drop (i + 1) = fields := by
            rw [← List.tail_drop, hfields]
            rfl
          cases h with
          | cons hfield hrest =>
              have hvalues := ih fields htail (Nat.succ.inj hcolumns) hrest
              rw [dbosValues, index, hf, ok_bind]
              obtain ⟨hnull, rfl⟩ | ⟨hnull, start, hstart, hv⟩ := hfield
              · rw [hnull, ok_bind, if_pos rfl, ok_bind, hvalues]
                rfl
              · rw [hnull, ok_bind, if_neg Bool.false_ne_true, dbosStart_eq hlen hstart, ok_bind, hv, ok_bind,
                  hvalues]
                rfl

theorem decodeAll_dbos {raw : RawRow N} (hkind : raw.kind = .dbos desc)
    (h : Laid ops desc raw.payload raw.progress.spans vs)
    (hcolumns : raw.columns.length = desc.fields.length) :
    raw.decodeAll ops = (.ok vs, raw.progress) := by
  have hdone : desc.numVaryingFields.toNat - raw.progress.spans.length = 0 := by
    rw [h.spans_length, Nat.sub_self]
  rw [decodeAll, hkind]
  dsimp only
  rw [if_neg (show ¬desc.numFields < raw.columns.length by
    rw [hcolumns]
    exact Nat.lt_irrefl _), ensureDbosSpans, hdone, dbosTurns]
  dsimp only
  rw [dbosValues_eq h.spans_length raw.columns desc.fields List.drop_zero hcolumns h.fields]

/-- The lazy row is built wherever the eager parser succeeds. -/
theorem fromDbosRaw_of_parseRow (columns : List ColumnDesc) {payload : Bytes}
    (hsmall : payload.length < 2 ^ 32) (h : desc.parseRow ops payload = .ok vs) :
    ∃ spans, fromDbosRaw (N := N) columns payload desc =
        .ok ⟨columns, payload, .dbos desc, none, none, desc.fixedFieldsSize.toNat, spans⟩ ∧
      Laid ops desc payload spans vs := by
  obtain ⟨passed, hbitmap, h⟩ := bind_ok (unstaged_ok h)
  obtain ⟨starts, hstarts, h⟩ := bind_ok h
  obtain ⟨stored, hstorage, h⟩ := bind_ok h
  have hbitmap := staged_ok hbitmap
  have hstarts := staged_ok hstarts
  have hstorage := staged_ok hstorage
  have hcount : 0 ≤ desc.numVaryingFields := by
    by_contra hneg
    rw [validateRowBitmap, if_pos (.inl (by omega))] at hbitmap
    cases hbitmap
  obtain ⟨cursor, spans, hcursor, hspans, hmap, hlen⟩ : ∃ cursor spans,
      ((if desc.numVaryingFields.toNat = 0 then .ok 0
        else if desc.fixedFieldsSize < 0 then fail (invalidRow "fixed-field area offset is invalid")
        else .ok desc.fixedFieldsSize.toNat) : Exec NzError Nat) = .ok cursor ∧
      varyingSpans payload desc.numVaryingFields.toNat 0 cursor = .ok spans ∧
      spans.map spanStart = starts ∧ spans.length = desc.numVaryingFields.toNat := by
    unfold allStarts at hstarts
    by_cases hpos : 0 < desc.numVaryingFields
    · rw [if_pos hpos] at hstarts
      by_cases hsize : desc.fixedFieldsSize < 0
      · rw [if_pos hsize] at hstarts
        cases hstarts
      rw [if_neg hsize] at hstarts
      obtain ⟨spans, hspans, hmap, hlen⟩ := varyingSpans_of_varyingStarts hsmall _ _ hstarts
      exact ⟨_, spans, by rw [if_neg (by omega), if_neg hsize], hspans, hmap, hlen⟩
    · rw [if_neg hpos] at hstarts
      cases hstarts
      have hzero : desc.numVaryingFields.toNat = 0 := by omega
      rw [hzero]
      exact ⟨0, [], rfl, rfl, rfl, rfl⟩
  subst hmap
  have hplaces := checkPlaces_of_checkStorage (by rw [List.length_map, hlen]) _ hstorage
  have hlayout : desc.validateRowLayout payload = .ok spans := by
    rw [validateRowLayout, hbitmap, ok_bind]
    dsimp only
    rw [hcursor, ok_bind, hspans, ok_bind, hplaces, ok_bind]
    rfl
  refine ⟨spans, ?_, hcount, hlen, convertFields_ok _ h⟩
  rw [fromDbosRaw, hlayout, ok_bind]
  rfl

end Binary

/-! ## Rows of both kinds -/

section Answers

variable {N : Numerics} (ops : NumberOps N) (vs : List (NzValue N))

/-- The places of a row are those of the values `vs`. -/
def Ready (row : RawRow N) : Prop :=
  match row.kind with
  | .text => ∃ c spans, Frames ops row.payload 0 c row.columns spans vs ∧
      Found ops row.payload row.columns spans vs row.progress
  | .dbos desc => Laid ops desc row.payload row.progress.spans vs ∧
      row.columns.length = desc.fields.length

/-- What a row remembers is true of `vs`. -/
structure Faithful (row : RawRow N) : Prop where
  ready : Ready ops vs row
  decoded : ∀ ws, row.decoded = some ws → ws = vs
  cells_length : ∀ cells, row.cells = some cells → cells.length = vs.length
  cells_values : ∀ cells, row.cells = some cells → ∀ (i : Nat) (v : NzValue N),
    cells[i]? = some (some v) → vs[i]? = some v

/-- What the eager row says to an access. -/
def expected : Access → Answer N
  | .get i =>
      .value (match vs[i]? with
        | some v => .ok v
        | none => fail (.config s!"row index out of range: ordinal {i}"))
  | .all => .values (.ok vs)

variable {ops vs} {row : RawRow N}

theorem Ready.columns_length (h : Ready ops vs row) : row.columns.length = vs.length := by
  unfold Ready at h
  split at h
  · obtain ⟨c, spans, hframes, -⟩ := h
    rw [hframes.lengths.2]
  · rw [h.2, h.1.length]

theorem Ready.decodeValue (h : Ready ops vs row) {i : Nat} (hi : i < row.columns.length) :
    ∃ v p, vs[i]? = some v ∧ row.decodeValue ops i = (.ok v, p) ∧
      Ready ops vs { row with progress := p } := by
  obtain ⟨columns, payload, kind, decoded, cells, progress⟩ := row
  cases kind with
  | text =>
      obtain ⟨c, spans, hframes, hfound⟩ := h
      obtain ⟨v, p, hv, hdecode, hp⟩ := decodeValue_text rfl hframes hfound hi
      exact ⟨v, p, hv, hdecode, c, spans, hframes, hp⟩
  | dbos desc =>
      obtain ⟨hlaid, hcolumns⟩ := h
      obtain ⟨v, hv, hdecode⟩ := decodeValue_dbos rfl hlaid (hcolumns ▸ hi)
      exact ⟨v, progress, hv, hdecode, hlaid, hcolumns⟩

theorem Ready.decodeAll (h : Ready ops vs row) :
    ∃ p, row.decodeAll ops = (.ok vs, p) ∧ Ready ops vs { row with progress := p } := by
  obtain ⟨columns, payload, kind, decoded, cells, progress⟩ := row
  cases kind with
  | text =>
      obtain ⟨c, spans, hframes, hfound⟩ := h
      obtain ⟨p, hdecode, hp⟩ := decodeAll_text rfl hframes hfound
      exact ⟨p, hdecode, c, spans, hframes, hp⟩
  | dbos desc =>
      obtain ⟨hlaid, hcolumns⟩ := h
      exact ⟨progress, decodeAll_dbos rfl hlaid hcolumns, hlaid, hcolumns⟩

/-- The cells a row has or begins with hold values of `vs` only. -/
theorem Faithful.cells_getD (h : Faithful ops vs row) :
    (row.cells.getD (row.columns.map fun _ => none)).length = vs.length ∧
      ∀ (i : Nat) (v : NzValue N),
        (row.cells.getD (row.columns.map fun _ => none))[i]? = some (some v) → vs[i]? = some v := by
  cases hcells : row.cells with
  | some cells => exact ⟨h.cells_length cells hcells, h.cells_values cells hcells⟩
  | none =>
      refine ⟨?_, ?_⟩
      · rw [Option.getD_none, List.length_map, h.ready.columns_length]
      · intro i v hv
        rw [Option.getD_none, List.getElem?_map] at hv
        obtain ⟨column, -, hnone⟩ := Option.map_eq_some_iff.mp hv
        cases hnone

theorem value_faithful (h : Faithful ops vs row) {i : Nat} (hi : i < vs.length) :
    (row.value ops i).1 = .ok vs[i] ∧ Faithful ops vs (row.value ops i).2 := by
  rw [value]
  cases hdecoded : row.decoded with
  | some values =>
      dsimp only
      rw [h.decoded values hdecoded, List.getElem?_eq_getElem hi]
      exact ⟨rfl, h⟩
  | none =>
      obtain ⟨hlen, hvalues⟩ := h.cells_getD
      generalize row.cells.getD (row.columns.map fun _ => none) = cells at hlen hvalues ⊢
      dsimp only
      have hcell : i < cells.length := by omega
      rw [List.getElem?_eq_getElem hcell]
      cases hget : cells[i] with
      | some v =>
          have hv := hvalues i v (by rw [List.getElem?_eq_getElem hcell, hget])
          rw [List.getElem?_eq_getElem hi] at hv
          dsimp only
          rw [Option.some.inj hv]
          refine ⟨rfl, h.ready, ?_, ?_, ?_⟩
          · rintro ws ⟨⟩
          · rintro cells' ⟨⟩
            exact hlen
          · rintro cells' ⟨⟩
            exact hvalues
      | none =>
          obtain ⟨v, p, hv, hdecode, hready⟩ :=
            Ready.decodeValue
              (show Ready ops vs { row with decoded := none, cells := some cells } from h.ready)
              (show i < row.columns.length by
                rw [h.ready.columns_length]
                exact hi)
          rw [hdecode]
          dsimp only
          rw [List.getElem?_eq_getElem hi] at hv
          rw [Option.some.inj hv]
          refine ⟨rfl, hready, ?_, ?_, ?_⟩
          · rintro ws ⟨⟩
          · rintro cells' ⟨⟩
            rw [List.length_set, hlen]
          · rintro cells' ⟨⟩ j w hw
            rw [List.getElem?_set] at hw
            by_cases hj : i = j
            · subst hj
              rw [if_pos rfl, if_pos hcell] at hw
              rw [List.getElem?_eq_getElem hi, Option.some.inj hv]
              exact Option.some.inj hw
            · rw [if_neg hj] at hw
              exact hvalues j w hw

/-- An access answers as the eager row does, and leaves the row faithful. -/
theorem answer_faithful (h : Faithful ops vs row) (access : Access) :
    (row.answer ops access).1 = expected vs access ∧
      Faithful ops vs (row.answer ops access).2 := by
  cases access with
  | get i =>
      rw [answer, expected]
      dsimp only
      rw [tryGetValue]
      by_cases hi : row.columns.length ≤ i
      · rw [if_pos hi, List.getElem?_eq_none (by rw [← h.ready.columns_length]; exact hi)]
        exact ⟨rfl, h⟩
      · have hin : i < vs.length := by
          rw [← h.ready.columns_length]
          exact Nat.not_le.mp hi
        obtain ⟨hvalue, hfaithful⟩ := value_faithful h hin
        rw [if_neg hi, List.getElem?_eq_getElem hin, hvalue]
        exact ⟨rfl, hfaithful⟩
  | all =>
      rw [answer, expected]
      dsimp only
      rw [tryValues]
      cases hdecoded : row.decoded with
      | some values =>
          dsimp only
          rw [h.decoded values hdecoded]
          exact ⟨rfl, h⟩
      | none =>
          obtain ⟨p, hdecode, hready⟩ := h.ready.decodeAll
          dsimp only
          rw [hdecode]
          refine ⟨rfl, hready, ?_, h.cells_length, h.cells_values⟩
          rintro ws ⟨⟩
          rfl

/-- So do all accesses, one after the other. -/
theorem answers_faithful (h : Faithful ops vs row) (accesses : List Access) :
    row.answers ops accesses = accesses.map (expected vs) := by
  induction accesses generalizing row with
  | nil => rfl
  | cons access rest ih =>
      obtain ⟨hanswer, hfaithful⟩ := answer_faithful h access
      rw [answers, List.map_cons, hanswer, ih hfaithful]

/-- The text row is built wherever the eager parser succeeds. -/
theorem fromTextRaw_of_parseTextDataRow {columns : List ColumnDesc} {payload : Bytes}
    (hsmall : payload.length < 2 ^ 32)
    (h : TextRow.parseTextDataRow ops payload columns = .ok vs) :
    ∃ row : RawRow N, fromTextRaw columns payload = .ok row ∧ row.columns = columns ∧
      Faithful ops vs row := by
  obtain ⟨passed, hvalid, h⟩ := bind_ok h
  have hbitmap : TextRow.bitmapLen columns.length ≤ payload.length := by
    by_contra hshort
    rw [TextRow.validateTextRow, if_pos (by omega)] at hvalid
    cases hvalid
  obtain ⟨spans, hframes⟩ := parseFrom_frames ops hsmall columns hbitmap h
  refine ⟨⟨columns, payload, .text, none, none, TextRow.bitmapLen columns.length, []⟩, ?_, rfl, ?_⟩
  · rw [fromTextRaw, hvalid, ok_bind]
    rfl
  · refine ⟨⟨_, spans, hframes, rfl, hframes⟩, ?_, ?_, ?_⟩
    · rintro ws ⟨⟩
    · rintro cells ⟨⟩
    · rintro cells ⟨⟩

variable (ops)

/-- Whatever the eager parsers find in a payload, the lazy row over it is built and answers with:
any accesses, in any order and any number of times. -/
theorem lazy_row_answers (columns : List ColumnDesc) (payload : Bytes)
    (hsmall : payload.length < 2 ^ 32) :
    (∀ vs, TextRow.parseTextDataRow ops payload columns = .ok vs →
      vs.length = columns.length ∧ ∃ row : RawRow N, fromTextRaw columns payload = .ok row ∧
        ∀ accesses, row.answers ops accesses = accesses.map (expected vs)) ∧
    (∀ data cached desc vs, DbosTupleDesc.parse data cached = .ok desc →
      columns.length = desc.numFields → desc.parseRow ops payload = .ok vs →
      vs.length = columns.length ∧ ∃ row : RawRow N, fromDbosRaw columns payload desc = .ok row ∧
        ∀ accesses, row.answers ops accesses = accesses.map (expected vs)) := by
  refine ⟨?_, ?_⟩
  · intro vs h
    obtain ⟨row, hrow, hcolumns, hfaithful⟩ := fromTextRaw_of_parseTextDataRow hsmall h
    refine ⟨?_, row, hrow, answers_faithful hfaithful⟩
    rw [← hfaithful.ready.columns_length, hcolumns]
  · intro data cached desc vs _ hcolumns h
    obtain ⟨spans, hrow, hlaid⟩ := fromDbosRaw_of_parseRow columns hsmall h
    refine ⟨hlaid.length.trans hcolumns.symm, _, hrow, answers_faithful ⟨⟨hlaid, hcolumns⟩, ?_, ?_, ?_⟩⟩
    · rintro ws ⟨⟩
    · rintro cells ⟨⟩
    · rintro cells ⟨⟩

end Answers

/-! ## A row of an INT4 and a VARCHAR -/

/-- Floats by their bits, for rows that hold none. -/
def bitPatterns : Numerics where
  F32 := Nat
  F64 := Nat
  Decimal := Int
  f32ToF64 := id
  f64IsFinite _ := true
  displayF64 (bits : Nat) := displayInt bits
  displayDecimal := displayInt

def bitOps : NumberOps bitPatterns where
  f32OfBits bits := bits
  f64OfBits bits := bits
  parseF32 _ := none
  parseF64 _ := none
  parseDecimal _ := none
  quotient unscaled _ := unscaled.toNat
  decimalOfF64 _ := none
  decimalOfParts unscaled _ := some unscaled
  decimalEq (a b : Int) := a == b
  decimalScale _ := 0

def sampleColumns : List ColumnDesc :=
  [⟨"id".toList, 23, 4, -1, 0⟩, ⟨"name".toList, 1043, -1, 20, 0⟩]

def sampleValues : List (NzValue bitPatterns) :=
  [.int4 42, .text "abc".toList]

def sampleText : Bytes :=
  [0xc0, 0, 0, 0, 6, 52, 50, 0, 0, 0, 7, 97, 98, 99]

def sampleDescriptor : Bytes :=
  [1, 0, 0, 0, 1, 1, 6, 12, 2, 3, 4, 4, 2, 0, 0, 0, 4, 0, 16, 4, -1, 0, 1, 1, 0, 0, 0, 0, 0].flatMap
    (toBe 4)

def sampleRow : Bytes :=
  [0, 0, 42, 0, 0, 0, 5, 0, 97, 98, 99, 0]

def sampleDesc : DbosTupleDesc :=
  ⟨0, 1, 6, [⟨3, 4, 4, 2, 0, false, 4⟩, ⟨16, 4, -1, 0, 1, false, 0⟩]⟩

set_option maxRecDepth 10000 in
theorem sample_row_answers :
    (∃ row, fromTextRaw sampleColumns sampleText = .ok row ∧
      ∀ accesses, row.answers bitOps accesses = accesses.map (expected sampleValues)) ∧
    (∃ row, fromDbosRaw sampleColumns sampleRow sampleDesc = .ok row ∧
      ∀ accesses, row.answers bitOps accesses = accesses.map (expected sampleValues)) :=
  ⟨((lazy_row_answers bitOps sampleColumns sampleText (by decide)).1 sampleValues rfl).2,
    ((lazy_row_answers bitOps sampleColumns sampleRow (by decide)).2 sampleDescriptor none sampleDesc
      sampleValues rfl rfl rfl).2⟩

end NzRust.RawRow
