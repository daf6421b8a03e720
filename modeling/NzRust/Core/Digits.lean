import Mathlib.Algebra.Order.Ring.Int
import Mathlib.Data.List.TakeWhile
import NzRust.Core.Text

/-!
# Decimal numbers in text

`str::parse` of the integer types and the two ways in which the driver prints
numbers: `Display` with a minimal width, and a fixed number of digits.
-/

namespace NzRust

/-! ## Parsing -/

def parseDigits (text : Text) : Option Nat :=
  if text.isEmpty || !text.all Char.isDigit then none else some (Nat.ofDigitChars 10 text 0)

/-- The sign in front of a number: whether it is a minus, and the text behind it. -/
def splitSign : Text → Bool × Text
  | '-' :: digits => (true, digits)
  | '+' :: digits => (false, digits)
  | digits => (false, digits)

/-- `str::parse` of a signed integer of `width` bits. -/
def parseSigned (width : Nat) (text : Text) : Option Int :=
  (parseDigits (splitSign text).2).bind fun n =>
    let value : Int := if (splitSign text).1 then -n else n
    if -(2 ^ (width - 1)) ≤ value ∧ value < 2 ^ (width - 1) then some value else none

/-- `str::parse` of an unsigned integer of `width` bits, which takes no minus. -/
def parseUnsigned (width : Nat) (text : Text) : Option Nat :=
  if (splitSign text).1 then none
  else
    (parseDigits (splitSign text).2).bind fun n => if n < 2 ^ width then some n else none

/-! ## Printing -/

/-- `{:02}`. -/
def twoDigits (n : Nat) : Text :=
  if n < 10 then '0' :: Nat.toDigits 10 n else Nat.toDigits 10 n

/-- `append_fixed_digits`: the `width` low digits. -/
def fixedDigits : Nat → Nat → Text
  | 0, _ => []
  | width + 1, value => Nat.digitChar (value / 10 ^ width % 10) :: fixedDigits width (value % 10 ^ width)

/-- `Display` of a signed machine integer. -/
def displayInt : Int → Text
  | .ofNat n => Nat.toDigits 10 n
  | .negSucc n => '-' :: Nat.toDigits 10 (n + 1)

/-! ## What is printed is parsed -/

/-- A text of decimal digits that reads as `n`. -/
structure Spells (text : Text) (n : Nat) : Prop where
  ne_nil : text ≠ []
  digits : ∀ c ∈ text, c.isDigit = true
  value : Nat.ofDigitChars 10 text 0 = n

theorem spells_toDigits (n : Nat) : Spells (Nat.toDigits 10 n) n where
  ne_nil := Nat.toDigits_ne_nil
  digits _ hc := Nat.isDigit_of_mem_toDigits (by decide) (by decide) hc
  value := Nat.ofDigitChars_ten_toDigits

theorem spells_twoDigits (n : Nat) : Spells (twoDigits n) n := by
  unfold twoDigits
  split
  · refine ⟨nofun, ?_, ?_⟩
    · intro c hc
      rcases List.mem_cons.mp hc with rfl | hc
      · rfl
      · exact (spells_toDigits n).digits c hc
    · rw [Nat.ofDigitChars_cons]
      exact (spells_toDigits n).value
  · exact spells_toDigits n

theorem fixedDigits_digits (width value : Nat) : ∀ c ∈ fixedDigits width value, c.isDigit = true := by
  induction width generalizing value with
  | zero => nofun
  | succ width ih =>
      intro c hc
      rcases List.mem_cons.mp hc with rfl | hc
      · simp [Nat.mod_lt]
      · exact ih _ c hc

@[simp] theorem fixedDigits_length (width value : Nat) : (fixedDigits width value).length = width := by
  induction width generalizing value with
  | zero => rfl
  | succ width ih => simp [fixedDigits, ih]

theorem fixedDigits_value (width value : Nat) :
    Nat.ofDigitChars 10 (fixedDigits width value) 0 = value % 10 ^ width := by
  induction width generalizing value with
  | zero => simp [fixedDigits, Nat.mod_one]
  | succ width ih =>
      have hdigit : value / 10 ^ width % 10 < 10 := Nat.mod_lt _ (by decide)
      rw [fixedDigits, Nat.ofDigitChars_cons_digitChar_of_lt_ten hdigit,
        Nat.ofDigitChars_eq_ofDigitChars_zero, ih, fixedDigits_length, Nat.mod_mod, Nat.mod_pow_succ,
        Nat.mul_zero, Nat.zero_add, Nat.add_comm]

theorem spells_fixedDigits {width value : Nat} (hwidth : 0 < width) (h : value < 10 ^ width) :
    Spells (fixedDigits width value) value where
  ne_nil hnil := by
    have hlen := fixedDigits_length width value
    rw [hnil] at hlen
    simp at hlen
    omega
  digits := fixedDigits_digits width value
  value := by rw [fixedDigits_value, Nat.mod_eq_of_lt h]

namespace Spells

variable {text : Text} {n : Nat}

theorem parseDigits_eq (h : Spells text n) : parseDigits text = some n := by
  have hne : text.isEmpty = false := by simp [h.ne_nil]
  have hall : text.all Char.isDigit = true := List.all_eq_true.mpr h.digits
  simp [parseDigits, hne, hall, h.value]

/-- A character that is no digit does not occur. -/
theorem not_mem (h : Spells text n) {c : Char} (hc : c.isDigit = false) : c ∉ text := by
  intro hmem
  rw [h.digits c hmem] at hc
  cases hc

/-- A number has no sign in front. -/
theorem head_ne (h : Spells text n) {c : Char} (hc : c.isDigit = false) (rest : Text) :
    text ≠ c :: rest := by
  rintro rfl
  exact h.not_mem hc List.mem_cons_self

theorem splitSign_eq (h : Spells text n) : splitSign text = (false, text) := by
  unfold splitSign
  split
  · exact absurd rfl (h.head_ne rfl _)
  · exact absurd rfl (h.head_ne rfl _)
  · rfl

theorem parseUnsigned_eq (h : Spells text n) {width : Nat} (hn : n < 2 ^ width) :
    parseUnsigned width text = some n := by
  simp [parseUnsigned, h.splitSign_eq, h.parseDigits_eq, hn]

theorem parseSigned_eq (h : Spells text n) {width : Nat} (hn : n < 2 ^ (width - 1)) :
    parseSigned width text = some (n : Int) := by
  have hbound : (n : Int) < 2 ^ (width - 1) := by exact_mod_cast hn
  have hlow : -(2 ^ (width - 1) : Int) ≤ n := by omega
  simp [parseSigned, h.splitSign_eq, h.parseDigits_eq, hbound, hlow]

theorem parseSigned_neg (h : Spells text n) {width : Nat} (hn : n ≤ 2 ^ (width - 1)) :
    parseSigned width ('-' :: text) = some (-n : Int) := by
  have hbound : (n : Int) ≤ 2 ^ (width - 1) := by exact_mod_cast hn
  have hpos : (0 : Int) < 2 ^ (width - 1) := Int.pow_pos (by decide)
  have hrange : -(2 ^ (width - 1) : Int) ≤ -n ∧ -(n : Int) < 2 ^ (width - 1) := by omega
  simp only [parseSigned, splitSign, h.parseDigits_eq, Option.bind_some, if_true]
  exact if_pos hrange

end Spells

theorem parseSigned_displayInt {width : Nat} {value : Int} (hlow : -(2 ^ (width - 1)) ≤ value)
    (hhigh : value < 2 ^ (width - 1)) : parseSigned width (displayInt value) = some value := by
  cases value with
  | ofNat n =>
      have hn : n < 2 ^ (width - 1) := by
        have hlt : ((n : Nat) : Int) < 2 ^ (width - 1) := hhigh
        exact_mod_cast hlt
      exact (spells_toDigits n).parseSigned_eq hn
  | negSucc n =>
      have hn : n + 1 ≤ 2 ^ (width - 1) := by
        have hle : ((n + 1 : Nat) : Int) ≤ 2 ^ (width - 1) := by omega
        exact_mod_cast hle
      exact (spells_toDigits (n + 1)).parseSigned_neg hn

/-! ## Lists of digits -/

theorem isDigit_value {c : Char} (h : c.isDigit = true) : c.toNat - '0'.toNat < 10 := by
  have hrange : 48 ≤ c.toNat ∧ c.toNat ≤ 57 := Char.isDigit_iff_toNat.mp h
  show c.toNat - 48 < 10
  omega

theorem ofDigitChars_lt {digits : Text} (h : ∀ c ∈ digits, c.isDigit = true) :
    Nat.ofDigitChars 10 digits 0 < 10 ^ digits.length := by
  induction digits with
  | nil => simp
  | cons c digits ih =>
      have hc := isDigit_value (h c List.mem_cons_self)
      have hrest := ih fun d hd => h d (List.mem_cons_of_mem c hd)
      have hle : 10 ^ digits.length * (c.toNat - '0'.toNat) ≤ 10 ^ digits.length * 9 :=
        Nat.mul_le_mul_left _ (by omega)
      rw [Nat.ofDigitChars_cons, Nat.ofDigitChars_eq_ofDigitChars_zero, List.length_cons,
        Nat.pow_succ, Nat.mul_zero, Nat.zero_add]
      omega

/-- Digits are determined by how many they are and by their value. -/
theorem digits_unique {a b : Text} (ha : ∀ c ∈ a, c.isDigit = true)
    (hb : ∀ c ∈ b, c.isDigit = true) (hlen : a.length = b.length)
    (hvalue : Nat.ofDigitChars 10 a 0 = Nat.ofDigitChars 10 b 0) : a = b := by
  induction a generalizing b with
  | nil => exact (List.eq_nil_of_length_eq_zero hlen.symm).symm
  | cons c cs ih =>
      cases b with
      | nil => cases hlen
      | cons d ds =>
          have hlen' : cs.length = ds.length := Nat.succ.inj hlen
          have hcs := fun e he => ha e (List.mem_cons_of_mem c he)
          have hds := fun e he => hb e (List.mem_cons_of_mem d he)
          have hlow := ofDigitChars_lt hcs
          have hlow' := ofDigitChars_lt hds
          rw [Nat.ofDigitChars_cons, Nat.ofDigitChars_eq_ofDigitChars_zero, Nat.ofDigitChars_cons,
            Nat.ofDigitChars_eq_ofDigitChars_zero (l := ds), Nat.mul_zero, Nat.zero_add,
            Nat.zero_add, hlen'] at hvalue
          rw [hlen'] at hlow
          have hhead : c.toNat - '0'.toNat = d.toNat - '0'.toNat := by
            have hpos : 0 < 10 ^ ds.length := Nat.pow_pos (by decide)
            have hdiv := congrArg (· / 10 ^ ds.length) hvalue
            simpa only [Nat.mul_add_div hpos, Nat.div_eq_of_lt hlow, Nat.div_eq_of_lt hlow',
              Nat.add_zero] using hdiv
          have htail : Nat.ofDigitChars 10 cs 0 = Nat.ofDigitChars 10 ds 0 := by
            rw [hhead] at hvalue
            exact Nat.add_left_cancel hvalue
          have hc : 48 ≤ c.toNat ∧ c.toNat ≤ 57 :=
            Char.isDigit_iff_toNat.mp (ha c List.mem_cons_self)
          have hd : 48 ≤ d.toNat ∧ d.toNat ≤ 57 :=
            Char.isDigit_iff_toNat.mp (hb d List.mem_cons_self)
          have hzero : '0'.toNat = 48 := rfl
          have hsame : c = d := Char.toNat_inj.mp (by omega)
          rw [hsame, ih hcs hds hlen' htail]

/-- `{:0width$}`. -/
def padded (width n : Nat) : Text :=
  (Nat.toDigits 10 n).leftpad width '0'

theorem padded_digits (width n : Nat) : ∀ c ∈ padded width n, c.isDigit = true := by
  intro c hc
  rcases List.mem_append.mp hc with hc | hc
  · rw [List.eq_of_mem_replicate hc]
    rfl
  · exact (spells_toDigits n).digits c hc

theorem padded_length {width n : Nat} (hwidth : 0 < width) (h : n < 10 ^ width) :
    (padded width n).length = width := by
  have hle := (Nat.length_toDigits_le_iff (by decide) hwidth).mpr h
  unfold padded List.leftpad
  rw [List.length_append, List.length_replicate]
  omega

theorem padded_value (width n : Nat) : Nat.ofDigitChars 10 (padded width n) 0 = n := by
  unfold padded List.leftpad
  rw [Nat.ofDigitChars_append, Nat.ofDigitChars_replicate_zero, Nat.mul_zero]
  exact Nat.ofDigitChars_ten_toDigits

theorem pow_le_of_toDigits {n : Nat} (hn : 0 < n) : 10 ^ ((Nat.toDigits 10 n).length - 1) ≤ n := by
  by_cases hone : (Nat.toDigits 10 n).length - 1 = 0
  · rw [hone]
    exact hn
  · by_contra hnot
    have hshort := (Nat.length_toDigits_le_iff (by decide) (Nat.pos_of_ne_zero hone)).mpr
      (Nat.lt_of_not_le hnot)
    omega

theorem toDigits_head_ne_zero {n : Nat} (hn : 0 < n) : (Nat.toDigits 10 n).head? ≠ some '0' := by
  intro hhead
  obtain ⟨c, rest, hdigits⟩ := List.exists_cons_of_ne_nil (spells_toDigits n).ne_nil
  rw [hdigits] at hhead
  cases hhead
  have hlow := pow_le_of_toDigits hn
  have hrest : ∀ c ∈ rest, c.isDigit = true := fun c hc =>
    (spells_toDigits n).digits c (hdigits ▸ List.mem_cons_of_mem '0' hc)
  have hlt := ofDigitChars_lt hrest
  have hvalue : Nat.ofDigitChars 10 (Nat.toDigits 10 n) 0 = n := Nat.ofDigitChars_ten_toDigits
  rw [hdigits, Nat.ofDigitChars_cons] at hvalue
  rw [hdigits] at hlow
  have hsame : Nat.ofDigitChars 10 rest 0 = n := hvalue
  rw [hsame] at hlt
  exact absurd hlow (Nat.not_le.mpr hlt)

theorem length_toDigits_shift {n width d : Nat} (hn : 0 < n) (hd : d < 10 ^ width) :
    (Nat.toDigits 10 (10 ^ width * n + d)).length = (Nat.toDigits 10 n).length + width := by
  have hpos : 0 < (Nat.toDigits 10 n).length := Nat.length_toDigits_pos
  have hlt : n < 10 ^ (Nat.toDigits 10 n).length :=
    (Nat.length_toDigits_le_iff (by decide) hpos).mp (Nat.le_refl _)
  have hlow := pow_le_of_toDigits hn
  generalize (Nat.toDigits 10 n).length = k at hpos hlt hlow ⊢
  apply Nat.le_antisymm
  · apply (Nat.length_toDigits_le_iff (by decide) (by omega)).mpr
    have hmul : 10 ^ width * (n + 1) ≤ 10 ^ width * 10 ^ k := Nat.mul_le_mul_left _ hlt
    rw [Nat.mul_succ] at hmul
    rw [Nat.add_comm k, Nat.pow_add]
    omega
  · by_contra hshort
    have hmul : 10 ^ width * 10 ^ (k - 1) ≤ 10 ^ width * n := Nat.mul_le_mul_left _ hlow
    rw [← Nat.pow_add] at hmul
    have hlength : 0 < (Nat.toDigits 10 (10 ^ width * n + d)).length := Nat.length_toDigits_pos
    have hbound := (Nat.length_toDigits_le_iff (b := 10) (n := 10 ^ width * n + d)
      (k := width + (k - 1)) (by decide) (by omega)).mp (by omega)
    omega

/-- The digits of a number are those of its high part and then those of its low part, padded. -/
theorem toDigits_append_padded {n width d : Nat} (hn : 0 < n) (hwidth : 0 < width)
    (hd : d < 10 ^ width) :
    Nat.toDigits 10 (10 ^ width * n + d) = Nat.toDigits 10 n ++ padded width d := by
  apply digits_unique (spells_toDigits _).digits
  · exact List.forall_mem_append.mpr ⟨(spells_toDigits n).digits, padded_digits width d⟩
  · rw [length_toDigits_shift hn hd, List.length_append, padded_length hwidth hd]
  · rw [Nat.ofDigitChars_ten_toDigits, Nat.ofDigitChars_append, Nat.ofDigitChars_ten_toDigits,
      Nat.ofDigitChars_eq_ofDigitChars_zero, padded_length hwidth hd, padded_value]

/-! ## What is parsed is a number -/

theorem spells_of_parseDigits {text : Text} {n : Nat} (h : parseDigits text = some n) :
    Spells text n := by
  unfold parseDigits at h
  split at h
  · cases h
  · rename_i hdigits
    simp only [Bool.or_eq_true, List.isEmpty_iff, Bool.not_eq_true', not_or,
      Bool.not_eq_false] at hdigits
    exact ⟨hdigits.1, List.all_eq_true.mp hdigits.2, Option.some.inj h⟩

/-- A character of a text is its sign or stands behind it. -/
theorem splitSign_mem {text : Text} {c : Char} (hc : c ∈ text) :
    (c = '-' ∧ (splitSign text).1 = true) ∨ c = '+' ∨ c ∈ (splitSign text).2 := by
  unfold splitSign
  split
  · rcases List.mem_cons.mp hc with rfl | hc
    · exact .inl ⟨rfl, rfl⟩
    · exact .inr (.inr hc)
  · rcases List.mem_cons.mp hc with rfl | hc
    · exact .inr (.inl rfl)
    · exact .inr (.inr hc)
  · exact .inr (.inr hc)

theorem parseUnsigned_spells {width : Nat} {text : Text} {n : Nat}
    (h : parseUnsigned width text = some n) :
    (splitSign text).1 = false ∧ Spells (splitSign text).2 n ∧ n < 2 ^ width := by
  unfold parseUnsigned at h
  split at h
  · cases h
  · rename_i hsign
    obtain ⟨k, hk, hvalue⟩ := Option.bind_eq_some_iff.mp h
    split at hvalue
    · rename_i hbound
      cases hvalue
      exact ⟨Bool.not_eq_true _ ▸ hsign, spells_of_parseDigits hk, hbound⟩
    · cases hvalue

theorem parseSigned_spells {width : Nat} {text : Text} {value : Int}
    (h : parseSigned width text = some value) :
    ∃ n : Nat, Spells (splitSign text).2 n ∧
      value = (if (splitSign text).1 then -(n : Int) else (n : Int)) ∧
      -(2 ^ (width - 1)) ≤ value ∧ value < 2 ^ (width - 1) := by
  obtain ⟨n, hn, hvalue⟩ := Option.bind_eq_some_iff.mp h
  refine ⟨n, spells_of_parseDigits hn, ?_⟩
  dsimp only at hvalue
  generalize (if (splitSign text).1 = true then -(n : Int) else n) = v at hvalue ⊢
  split at hvalue
  · cases hvalue
    exact ⟨rfl, ‹_›⟩
  · cases hvalue

/-- An unsigned number has no character beside its digits and a plus. -/
theorem parseUnsigned_not_mem {width : Nat} {text : Text} {n : Nat}
    (h : parseUnsigned width text = some n) {c : Char} (hc : c.isDigit = false) (hplus : c ≠ '+') :
    c ∉ text := by
  obtain ⟨hsign, hspells, -⟩ := parseUnsigned_spells h
  intro hmem
  rcases splitSign_mem hmem with ⟨-, hminus⟩ | rfl | hmem
  · rw [hsign] at hminus
    cases hminus
  · exact hplus rfl
  · exact hspells.not_mem hc hmem

/-! ## Splitting -/

theorem splitOnce_append {sep : Char} {front : Text} (h : sep ∉ front) (rest : Text) :
    splitOnce sep (front ++ sep :: rest) = some (front, rest) := by
  have hall : ∀ c ∈ front, (c != sep) = true := by
    intro c hc
    simp only [bne_iff_ne, ne_eq]
    rintro rfl
    exact h hc
  simp [splitOnce, List.dropWhile_append_of_pos hall, List.takeWhile_append_of_pos hall]

theorem splitOnce_eq_none {sep : Char} {text : Text} (h : sep ∉ text) :
    splitOnce sep text = none := by
  have hnil : text.dropWhile (· != sep) = [] := by
    rw [List.dropWhile_eq_nil_iff]
    simp only [bne_iff_ne, ne_eq]
    rintro c hc rfl
    exact h hc
  simp [splitOnce, hnil]

theorem rsplitOnce_append {sep : Char} {rest : Text} (h : sep ∉ rest) (front : Text) :
    rsplitOnce sep (front ++ sep :: rest) = some (front, rest) := by
  have hrev : sep ∉ rest.reverse := by simpa using h
  simp [rsplitOnce, splitOnce_append hrev]

theorem splitWhere_append {p : Char → Bool} {front : Text} (h : ∀ c ∈ front, p c = false)
    {sep : Char} (hsep : p sep = true) (rest : Text) :
    splitWhere p (front ++ sep :: rest) = front :: splitWhere p rest := by
  induction front with
  | nil => simp [splitWhere, hsep]
  | cons c front ih =>
      have hc := h c List.mem_cons_self
      simp [splitWhere, hc, ih fun c hc => h c (List.mem_cons_of_mem _ hc)]

theorem splitWhere_eq_singleton {p : Char → Bool} {text : Text} (h : ∀ c ∈ text, p c = false) :
    splitWhere p text = [text] := by
  induction text with
  | nil => rfl
  | cons c text ih =>
      have hc := h c List.mem_cons_self
      simp [splitWhere, hc, ih fun c hc => h c (List.mem_cons_of_mem _ hc)]

theorem splitOnce_eq_some {sep : Char} {text front rest : Text}
    (h : splitOnce sep text = some (front, rest)) : text = front ++ sep :: rest ∧ sep ∉ front := by
  unfold splitOnce at h
  cases hdrop : text.dropWhile (· != sep) with
  | nil =>
      rw [hdrop] at h
      cases h
  | cons c cs =>
      rw [hdrop] at h
      obtain ⟨rfl, rfl⟩ := Prod.mk.inj (Option.some.inj h)
      have hc : c = sep := by
        have hhead := List.head_dropWhile_not (p := (· != sep)) (l := text) (by simp [hdrop])
        simpa [hdrop] using hhead
      have htext : text.takeWhile (· != sep) ++ text.dropWhile (· != sep) = text :=
        List.takeWhile_append_dropWhile
      rw [hdrop, hc] at htext
      constructor
      · exact htext.symm
      · intro hmem
        have hsep := List.mem_takeWhile_imp hmem
        simp at hsep

theorem rsplitOnce_eq_some {sep : Char} {text front rest : Text}
    (h : rsplitOnce sep text = some (front, rest)) : text = front ++ sep :: rest ∧ sep ∉ rest := by
  obtain ⟨parts, hparts, heq⟩ := Option.map_eq_some_iff.mp h
  obtain ⟨rfl, rfl⟩ := Prod.mk.inj heq
  obtain ⟨htext, hfree⟩ := splitOnce_eq_some hparts
  constructor
  · rw [← List.reverse_reverse text, htext, List.reverse_append, List.reverse_cons,
      List.append_assoc]
    rfl
  · rwa [List.mem_reverse]

theorem splitWhere_ne_nil (p : Char → Bool) (text : Text) : splitWhere p text ≠ [] := by
  cases text with
  | nil => simp [splitWhere]
  | cons c cs =>
      rw [splitWhere]
      split
      · simp
      · split <;> simp

/-- The first part of a split text, and what is behind it. -/
theorem splitAt_eq_cons {sep : Char} {text part : Text} {parts : List Text}
    (h : splitAt sep text = part :: parts) :
    sep ∉ part ∧ (parts = [] ∧ text = part ∨
      ∃ rest, text = part ++ sep :: rest ∧ splitAt sep rest = parts) := by
  unfold splitAt at h ⊢
  induction text generalizing part with
  | nil =>
      cases h
      exact ⟨nofun, .inl ⟨rfl, rfl⟩⟩
  | cons c cs ih =>
      rw [splitWhere] at h
      split at h
      · rename_i hsep
        cases h
        obtain rfl : c = sep := by simpa using hsep
        exact ⟨nofun, .inr ⟨cs, rfl, rfl⟩⟩
      · rename_i hsep
        cases hcs : splitWhere (· == sep) cs with
        | nil => exact absurd hcs (splitWhere_ne_nil _ cs)
        | cons first others =>
            rw [hcs] at h
            cases h
            obtain ⟨hfree, hrest⟩ := ih hcs
            have hne : sep ≠ c := by
              rintro rfl
              simp at hsep
            refine ⟨by simp [hne, hfree], ?_⟩
            rcases hrest with ⟨rfl, rfl⟩ | ⟨rest, rfl, hrest⟩
            · exact .inl ⟨rfl, rfl⟩
            · exact .inr ⟨rest, rfl, hrest⟩

/-- Parts joined by a separator: what `str::split` undoes. -/
def joinAt (sep : Char) : List Text → Text
  | [] => []
  | [part] => part
  | part :: parts => part ++ sep :: joinAt sep parts

theorem joinAt_cons (sep : Char) (part : Text) {parts : List Text} (h : parts ≠ []) :
    joinAt sep (part :: parts) = part ++ sep :: joinAt sep parts := by
  obtain ⟨next, parts, rfl⟩ := List.exists_cons_of_ne_nil h
  rfl

theorem splitAt_joinAt {sep : Char} {parts : List Text} (hsome : parts ≠ [])
    (h : ∀ part ∈ parts, sep ∉ part) : splitAt sep (joinAt sep parts) = parts := by
  induction parts with
  | nil => exact absurd rfl hsome
  | cons part parts ih =>
      have hpart : ∀ c ∈ part, (c == sep) = false := by
        intro c hc
        rw [beq_eq_false_iff_ne]
        rintro rfl
        exact h part List.mem_cons_self hc
      by_cases hparts : parts = []
      · subst hparts
        exact splitWhere_eq_singleton hpart
      · rw [joinAt_cons sep part hparts, splitAt, splitWhere_append hpart (by simp)]
        exact congrArg _ (ih hparts fun p hp => h p (List.mem_cons_of_mem _ hp))

theorem joinAt_splitAt (sep : Char) (text : Text) : joinAt sep (splitAt sep text) = text := by
  cases hparts : splitAt sep text with
  | nil => exact absurd hparts (splitWhere_ne_nil _ _)
  | cons part parts =>
      induction parts generalizing text part with
      | nil =>
          rcases (splitAt_eq_cons hparts).2 with ⟨-, rfl⟩ | ⟨rest, -, hrest⟩
          · rfl
          · exact absurd hrest (splitWhere_ne_nil _ _)
      | cons next parts ih =>
          rcases (splitAt_eq_cons hparts).2 with ⟨hnil, -⟩ | ⟨rest, rfl, hrest⟩
          · cases hnil
          · rw [joinAt_cons sep part (List.cons_ne_nil next parts), ih rest next hrest]

theorem splitAt_ne_nil (sep : Char) (text : Text) : splitAt sep text ≠ [] :=
  splitWhere_ne_nil _ text

theorem sep_not_mem_splitAt (sep : Char) (text : Text) :
    ∀ part ∈ splitAt sep text, sep ∉ part := by
  induction text with
  | nil => simp [splitAt, splitWhere]
  | cons c cs ih =>
      obtain ⟨first, parts, hparts⟩ := List.exists_cons_of_ne_nil (splitAt_ne_nil sep cs)
      have hsplit : splitWhere (· == sep) cs = first :: parts := hparts
      rw [hparts] at ih
      by_cases hc : c = sep
      · subst hc
        have hcut : splitAt c (c :: cs) = [] :: first :: parts := by
          simp [splitAt, splitWhere, hsplit]
        rw [hcut]
        intro part hpart
        rcases List.mem_cons.mp hpart with rfl | hpart
        · exact List.not_mem_nil
        · exact ih part hpart
      · have hcut : splitAt sep (c :: cs) = (c :: first) :: parts := by
          simp [splitAt, splitWhere, hsplit, hc]
        rw [hcut]
        intro part hpart
        rcases List.mem_cons.mp hpart with rfl | hpart
        · intro hmem
          rcases List.mem_cons.mp hmem with rfl | hmem
          · exact hc rfl
          · exact ih first List.mem_cons_self hmem
        · exact ih part (List.mem_cons_of_mem _ hpart)

theorem getLast?_append_cons (front : Text) (c : Char) (rest : Text) :
    (front ++ c :: rest).getLast? = some (rest.getLast?.getD c) := by
  rw [List.getLast?_append_of_ne_nil _ (List.cons_ne_nil c rest), List.getLast?_cons]

/-- The joined text ends as its last part does, or with the separator in front of it. -/
theorem joinAt_getLast {sep : Char} {parts : List Text} {part : Text}
    (hlast : parts.getLast? = some part) {c : Char} :
    (part.getLast? = some c → (joinAt sep parts).getLast? = some c) ∧
      ((joinAt sep parts).getLast? = some c → part.getLast? = some c ∨ c = sep) := by
  induction parts with
  | nil => cases hlast
  | cons first parts ih =>
      by_cases hparts : parts = []
      · subst hparts
        cases hlast
        exact ⟨id, .inl⟩
      · rw [List.getLast?_cons_of_ne_nil hparts] at hlast
        obtain ⟨hto, hof⟩ := ih hlast
        rw [joinAt_cons sep first hparts, getLast?_append_cons]
        constructor
        · intro hpart
          rw [hto hpart]
          rfl
        · intro hc
          cases hjoined : (joinAt sep parts).getLast? with
          | none =>
              rw [hjoined] at hc
              exact .inr (Option.some.inj hc).symm
          | some d =>
              rw [hjoined] at hc hof
              exact hof hc

theorem mem_joinAt {sep c : Char} {part : Text} {parts : List Text} (hpart : part ∈ parts)
    (hc : c ∈ part) : c ∈ joinAt sep parts := by
  induction parts with
  | nil => cases hpart
  | cons first parts ih =>
      by_cases hparts : parts = []
      · subst hparts
        cases List.mem_singleton.mp hpart
        exact hc
      · rw [joinAt_cons sep first hparts, List.mem_append, List.mem_cons]
        rcases List.mem_cons.mp hpart with rfl | hpart
        · exact .inl hc
        · exact .inr (.inr (ih hpart))

theorem mem_of_mem_splitAt {sep c : Char} {text part : Text} (hpart : part ∈ splitAt sep text)
    (hc : c ∈ part) : c ∈ text := by
  rw [← joinAt_splitAt sep text]
  exact mem_joinAt hpart hc

/-! ## Trimming -/

theorem trim_eq {text : Text} (hhead : ∀ c, text.head? = some c → isWhitespace c = false)
    (hlast : ∀ c, text.getLast? = some c → isWhitespace c = false) : trim text = text := by
  have hdrop {t : Text} (h : ∀ c, t.head? = some c → isWhitespace c = false) :
      t.dropWhile isWhitespace = t := by
    cases t with
    | nil => rfl
    | cons c cs => rw [List.dropWhile_cons_of_neg (by simp [h c rfl])]
  rw [trim, trimStart, hdrop hhead, trimEnd, hdrop, List.reverse_reverse]
  intro c hc
  rw [List.head?_reverse] at hc
  exact hlast c hc

theorem trim_head {text : Text} {c : Char} (h : (trim text).head? = some c) :
    isWhitespace c = false := by
  obtain ⟨blanks, hblanks⟩ := List.dropWhile_suffix isWhitespace (l := (trimStart text).reverse)
  have hstart : trimStart text = trim text ++ blanks.reverse := by
    rw [trim, trimEnd, ← List.reverse_append, hblanks, List.reverse_reverse]
  have hhead := List.head?_dropWhile_not isWhitespace text
  rw [← trimStart, hstart, List.head?_append, h] at hhead
  exact hhead

theorem trim_last {text : Text} {c : Char} (h : (trim text).getLast? = some c) :
    isWhitespace c = false := by
  rw [trim, trimEnd, List.getLast?_reverse] at h
  have hhead := List.head?_dropWhile_not isWhitespace (trimStart text).reverse
  rw [h] at hhead
  exact hhead

end NzRust
