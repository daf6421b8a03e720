import Mathlib.Algebra.Order.Ring.Int
import Mathlib.Data.List.TakeWhile
import NzRust.Sql.Regions

/-!
# How literals lex

Every text that `escape_literal` returns is `NULL`, a number, a quotation or a
parenthesised chain of quotations. The lexer passes each of them from code to
code, unless a quotation stands directly before another quote.
-/

namespace NzRust.Sql

variable {N : Numerics}

/-- `Display` prints finite floats and decimals in the driver's own numeric grammar. -/
structure PrintsNumbers (N : Numerics) : Prop where
  float : ∀ x : N.F64, N.f64IsFinite x → validNumericLiteral (N.displayF64 x)
  decimal : ∀ x : N.Decimal, validNumericLiteral (N.displayDecimal x)

/-- The shapes of an escaped literal. -/
inductive Literal : Text → Prop where
  | null : Literal "NULL".toList
  | number {t : Text} (h : validNumericLiteral t) : Literal t
  | quoted (value : Text) : Literal (appendQuotedText value)
  | chained (parts : List Text) : Literal ('(' :: joinQuoted parts ++ [')'])

/-! ## Numbers -/

/-- Every character is inert, but for minus signs before something else. -/
def dashSafe : Text → Bool
  | [] => true
  | [c] => isInert c
  | c :: d :: cs => (isInert c || (c == '-' && d != '-')) && dashSafe (d :: cs)

theorem dashSafe_of_inert {t : Text} (h : t.all isInert) : dashSafe t := by
  fun_induction dashSafe t with
  | case1 => rfl
  | case2 c => simpa using h
  | case3 c d cs ih =>
      simp only [List.all_cons, Bool.and_eq_true] at h ih ⊢
      exact ⟨by simp [h.1], ih h.2⟩

theorem dashSafe_append {t u : Text} (ht : dashSafe t) (hu : dashSafe u) : dashSafe (t ++ u) := by
  fun_induction dashSafe t with
  | case1 => exact hu
  | case2 c =>
      cases u with
      | nil => exact ht
      | cons d ds => simp [dashSafe, ht, hu]
  | case3 c d cs ih =>
      simp only [Bool.and_eq_true] at ht
      simp only [List.cons_append, dashSafe, Bool.and_eq_true]
      exact ⟨ht.1, ih ht.2⟩

theorem Passes.dashSafe {t : Text} (h : dashSafe t) (rest : Text) : Passes t rest := by
  fun_induction Sql.dashSafe t with
  | case1 => exact .nil rest
  | case2 c => exact .inert (by simpa using h) rest
  | case3 c d cs ih =>
      simp only [Bool.and_eq_true, Bool.or_eq_true, beq_iff_eq, bne_iff_ne] at h
      refine Passes.append (t := [c]) ?_ (ih h.2)
      rcases h.1 with hc | ⟨rfl, hd⟩
      · exact .inert (by simpa using hc) _
      · exact .minus (by simpa using hd)

theorem getLast_of_dashSafe {t : Text} (h : dashSafe t) : t.getLast? ≠ some '\'' := by
  fun_induction dashSafe t with
  | case1 => simp
  | case2 c =>
      rintro hc
      simp only [List.getLast?_singleton, Option.some.injEq] at hc
      subst hc
      revert h
      decide
  | case3 c d cs ih =>
      simp only [Bool.and_eq_true] at h
      simpa [List.getLast?_cons_cons] using ih h.2

theorem isInert_of_isDigit {c : Char} (h : c.isDigit) : isInert c := by
  by_contra hc
  simp only [isInert, Bool.not_eq_true', Bool.not_eq_false, Bool.or_eq_true, beq_iff_eq] at hc
  rcases hc with (((rfl | rfl) | rfl) | rfl) | rfl <;> revert h <;> decide

private theorem dashSafe_digits (t : Text) : dashSafe (t.takeWhile Char.isDigit) := by
  apply dashSafe_of_inert
  rw [List.all_eq_true]
  intro c hc
  exact isInert_of_isDigit (List.mem_takeWhile_imp hc)

/-- A sign may stand before text that shows an inert character first. -/
private theorem dashSafe_signed {t : Text} {c : Char} {cs : Text} (h : skipSign t = c :: cs)
    (hc : isInert c) (hsafe : dashSafe (c :: cs)) : dashSafe t := by
  cases t with
  | nil => cases h
  | cons d ds =>
      rw [skipSign] at h
      split_ifs at h with hd
      · subst h
        rw [dashSafe, hsafe, Bool.and_true]
        rcases hd with rfl | rfl
        · simp [isInert]
        · have : c ≠ '-' := by
            rintro rfl
            revert hc
            decide
          simp [this]
      · rwa [h]

private theorem dashSafe_exponent {t : Text} (h : validExponent t) : dashSafe t := by
  cases t with
  | nil => rfl
  | cons c cs =>
      rw [validExponent] at h
      split_ifs at h with hc
      · simp only [Bool.and_eq_true, Bool.not_eq_true', List.isEmpty_eq_false_iff,
          List.isEmpty_iff] at h
        obtain ⟨hne, hend⟩ := h
        have hall : skipSign cs = (skipSign cs).takeWhile Char.isDigit := by
          conv_lhs => rw [← List.takeWhile_append_dropWhile (p := Char.isDigit) (l := skipSign cs)]
          rw [hend, List.append_nil]
        obtain ⟨d, ds, hds⟩ := List.exists_cons_of_ne_nil hne
        have hd : d.isDigit := List.mem_takeWhile_imp (hds ▸ List.mem_cons_self)
        have hsafe : dashSafe (d :: ds) := hds ▸ dashSafe_digits (skipSign cs)
        have hexp : dashSafe [c] := by rcases hc with rfl | rfl <;> decide
        exact dashSafe_append hexp
          (dashSafe_signed (hall.trans hds) (isInert_of_isDigit hd) hsafe)

/-- The characters that a number can open with. -/
def opensNumber (c : Char) : Bool :=
  c == '+' || c == '-' || c == '.' || c.isDigit

private theorem isAlpha_of_isDigit {c : Char} (h : c.isDigit) : c.isAlpha = false := by
  have h₁ : '9'.val.toNat = 57 := rfl
  have h₂ : 'A'.val.toNat = 65 := rfl
  have h₃ : 'a'.val.toNat = 97 := rfl
  show (decide (c.val ≥ 'A'.val ∧ c.val ≤ 'Z'.val) || (decide (c.val ≥ 'a'.val) &&
    decide (c.val ≤ 'z'.val))) = false
  simp only [Char.isDigit, Bool.and_eq_true, decide_eq_true_eq, Bool.or_eq_false_iff,
    Bool.and_eq_false_iff, decide_eq_false_iff_not, ge_iff_le, UInt32.le_iff_toNat_le] at *
  omega

theorem isTagChar_of_opensNumber {c : Char} (h : opensNumber c) : isTagChar c = false := by
  simp only [opensNumber, Bool.or_eq_true, beq_iff_eq] at h
  rcases h with ((rfl | rfl) | rfl) | h
  · decide
  · decide
  · decide
  · rw [isTagChar, isAlpha_of_isDigit h, Bool.false_or, beq_eq_false_iff_ne]
    rintro rfl
    revert h
    decide

/-- The mantissa of a valid number opens with a digit or a point and keeps every sign apart. -/
private theorem mantissa_of_valid {t : Text} (h : validNumericLiteral t) :
    ∃ c cs, skipSign t = c :: cs ∧ (c = '.' ∨ c.isDigit) ∧ dashSafe (c :: cs) := by
  have hsplit := List.takeWhile_append_dropWhile (p := Char.isDigit) (l := skipSign t)
  simp only [validNumericLiteral] at h
  split_ifs at h with hdot
  · simp only [Bool.and_eq_true, decide_eq_true_eq] at h
    obtain ⟨fs, hfs⟩ := List.head?_eq_some_iff.mp hdot
    rw [hfs, List.tail_cons] at h
    have hfrac := List.takeWhile_append_dropWhile (p := Char.isDigit) (l := fs)
    have hsafe : dashSafe (skipSign t) := by
      rw [← hsplit, hfs, ← hfrac]
      exact dashSafe_append (dashSafe_digits _) (dashSafe_append (t := ['.']) (by decide)
        (dashSafe_append (dashSafe_digits _) (dashSafe_exponent h.2)))
    cases hwhole : (skipSign t).takeWhile Char.isDigit with
    | nil =>
        rw [hwhole, hfs, List.nil_append] at hsplit
        exact ⟨'.', fs, hsplit.symm, .inl rfl, by rwa [hsplit]⟩
    | cons c cs =>
        have hc : c.isDigit := List.mem_takeWhile_imp (hwhole ▸ List.mem_cons_self)
        rw [hwhole, List.cons_append] at hsplit
        exact ⟨c, _, hsplit.symm, .inr hc, by rwa [hsplit]⟩
  · simp only [Bool.and_eq_true, decide_eq_true_eq] at h
    obtain ⟨c, cs, hwhole⟩ := List.exists_cons_of_ne_nil
      (fun hnil => h.1 (List.length_eq_zero_iff.mpr hnil))
    have hc : c.isDigit := List.mem_takeWhile_imp (hwhole ▸ List.mem_cons_self)
    have hsafe : dashSafe (skipSign t) := by
      rw [← hsplit]
      exact dashSafe_append (dashSafe_digits _) (dashSafe_exponent h.2)
    rw [hwhole, List.cons_append] at hsplit
    exact ⟨c, _, hsplit.symm, .inr hc, by rwa [hsplit]⟩

theorem dashSafe_of_valid {t : Text} (h : validNumericLiteral t) : dashSafe t := by
  obtain ⟨c, cs, hskip, hc, hsafe⟩ := mantissa_of_valid h
  refine dashSafe_signed hskip ?_ hsafe
  rcases hc with rfl | hc
  · decide
  · exact isInert_of_isDigit hc

theorem opensNumber_of_valid {t : Text} (h : validNumericLiteral t) :
    ∃ c cs, t = c :: cs ∧ opensNumber c := by
  obtain ⟨c, cs, hskip, hc, -⟩ := mantissa_of_valid h
  cases t with
  | nil => cases hskip
  | cons d ds =>
      refine ⟨d, ds, rfl, ?_⟩
      rw [skipSign] at hskip
      split_ifs at hskip with hd
      · rcases hd with rfl | rfl <;> decide
      · obtain ⟨rfl, -⟩ := List.cons.inj hskip
        rcases hc with rfl | hc
        · decide
        · simp [opensNumber, hc]

theorem validNumericLiteral_digits (n : Nat) : validNumericLiteral (Nat.toDigits 10 n) := by
  have hall : ∀ c ∈ Nat.toDigits 10 n, c.isDigit := fun c hc =>
    Nat.isDigit_of_mem_toDigits (by decide) (by decide) hc
  obtain ⟨c, cs, hcs⟩ := List.exists_cons_of_ne_nil (Nat.toDigits_ne_nil (n := n) (b := 10))
  have hc : c.isDigit := hall c (hcs ▸ List.mem_cons_self)
  have hsign : skipSign (Nat.toDigits 10 n) = Nat.toDigits 10 n := by
    rw [hcs, skipSign, if_neg]
    rintro (rfl | rfl) <;> revert hc <;> decide
  have htake : (Nat.toDigits 10 n).takeWhile Char.isDigit = Nat.toDigits 10 n :=
    List.takeWhile_eq_self_iff.mpr hall
  have hdrop : (Nat.toDigits 10 n).dropWhile Char.isDigit = [] :=
    List.dropWhile_eq_nil_iff.mpr hall
  simp [validNumericLiteral, hsign, htake, hdrop, validExponent]

theorem validNumericLiteral_displayInt (i : Int) : validNumericLiteral (displayInt i) := by
  cases i with
  | ofNat n => exact validNumericLiteral_digits n
  | negSucc n =>
      have h := validNumericLiteral_digits (n + 1)
      have hsign : skipSign (Nat.toDigits 10 (n + 1)) = Nat.toDigits 10 (n + 1) := by
        obtain ⟨c, cs, hcs⟩ := List.exists_cons_of_ne_nil
          (Nat.toDigits_ne_nil (n := n + 1) (b := 10))
        have hc : c.isDigit := Nat.isDigit_of_mem_toDigits (by decide) (by decide)
          (hcs ▸ List.mem_cons_self : c ∈ Nat.toDigits 10 (n + 1))
        rw [hcs, skipSign, if_neg]
        rintro (rfl | rfl) <;> revert hc <;> decide
      have hminus : skipSign (displayInt (.negSucc n)) = Nat.toDigits 10 (n + 1) := rfl
      simp only [validNumericLiteral, hsign, hminus] at h ⊢
      exact h

/-! ## Quotations -/

theorem quotedCut_doubleQuotes (value : Text) :
    quotedCut '\'' (doubleQuotes value ++ ['\'']) = (doubleQuotes value ++ ['\''], some []) := by
  fun_induction doubleQuotes value with
  | case1 => rfl
  | case2 cs ih => simp [quotedCut, ih]
  | case3 c cs hc ih =>
      obtain ⟨d, ds, hds⟩ : ∃ d ds, doubleQuotes cs ++ ['\''] = d :: ds :=
        List.exists_cons_of_ne_nil (by simp)
      rw [hds] at ih
      simp [hds, quotedCut, hc, ih]

theorem appendQuotedText_opened (value : Text) :
    Opened .string (appendQuotedText value, some []) (appendQuotedText value) := by
  have h := Opened.string (doubleQuotes value ++ ['\''])
  rwa [quotedCut_doubleQuotes] at h

theorem Passes.quotedText (value : Text) {rest : Text} (h : rest.head? ≠ some '\'') :
    Passes (appendQuotedText value) rest := by
  have hopen : Opened .string (appendQuotedText value, some rest) (appendQuotedText value ++ rest) := by
    apply (appendQuotedText_opened value).closed
    intro q hq
    cases hq
    exact h
  exact .closed hopen

private theorem joinQuoted_passes (parts : List Text) {rest : Text}
    (h : rest.head? ≠ some '\'') : Passes (joinQuoted parts) rest := by
  fun_induction joinQuoted parts with
  | case1 => exact .nil rest
  | case2 part => exact .quotedText part h
  | case3 part parts _ ih =>
      refine Passes.append (Passes.append (.quotedText part ?_) (.inert (by decide) _)) ih
      simp

/-! ## Literals -/

def endsQuoted (t : Text) : Bool :=
  t.getLast? == some '\''

private theorem endsQuoted_concat (t : Text) (c : Char) : endsQuoted (t ++ [c]) = (c == '\'') := by
  simp [endsQuoted]

theorem Literal.passes {t rest : Text} (h : Literal t)
    (hq : endsQuoted t → rest.head? ≠ some '\'') : Passes t rest := by
  cases h with
  | null => exact .inert (by decide) rest
  | number hv => exact .dashSafe (dashSafe_of_valid hv) rest
  | quoted value => exact .quotedText value (hq (endsQuoted_concat ('\'' :: doubleQuotes value) _))
  | chained parts =>
      refine Passes.append (t := ['(']) (.inert (by decide) _)
        (Passes.append (joinQuoted_passes parts ?_) (.inert (by decide) rest))
      simp

/-- Only quotations end in a quote, and before another one they run on. -/
theorem Literal.not_inCode {t rest : Text} (h : Literal t) (ht : endsQuoted t)
    (hq : rest.head? = some '\'') : inCode ((lexMarks (t ++ rest)).drop t.length) = false := by
  obtain ⟨rest, rfl⟩ := List.head?_eq_some_iff.mp hq
  cases h with
  | null => exact absurd ht (by decide)
  | number hv =>
      have := getLast_of_dashSafe (dashSafe_of_valid hv)
      simp only [endsQuoted, beq_iff_eq] at ht
      contradiction
  | quoted value => exact inCode_extended (appendQuotedText_opened value) rest
  | chained parts => exact absurd ht (by rw [endsQuoted_concat]; decide)

/-- The first character of a literal, as far as the texts before it can see. -/
theorem Literal.head {t : Text} (h : Literal t) :
    ∃ c cs, t = c :: cs ∧ c ≠ '*' ∧ c ≠ '$' ∧ c ≠ '"' ∧ (t.all isTagChar ∨ isTagChar c = false) := by
  cases h with
  | null => exact ⟨'N', _, rfl, by decide, by decide, by decide, .inl (by decide)⟩
  | number hv =>
      obtain ⟨c, cs, rfl, hc⟩ := opensNumber_of_valid hv
      refine ⟨c, cs, rfl, ?_, ?_, ?_, .inr ?_⟩
      · rintro rfl; revert hc; decide
      · rintro rfl; revert hc; decide
      · rintro rfl; revert hc; decide
      · exact isTagChar_of_opensNumber hc
  | quoted value => exact ⟨'\'', _, rfl, by decide, by decide, by decide, .inr (by decide)⟩
  | chained parts => exact ⟨'(', _, rfl, by decide, by decide, by decide, .inr (by decide)⟩

theorem writeTextLiteral_literal {value t : Text} (h : writeTextLiteral value = .ok t) :
    Literal t := by
  rw [writeTextLiteral] at h
  split_ifs at h
  · cases h
    exact .chained _
  · cases h
    exact .quoted value

theorem escapeLiteral_literal (hN : PrintsNumbers N) {value : NzValue N} {t : Text}
    (h : escapeLiteral value = .ok t) : Literal t := by
  have hfloat : ∀ x : N.F64, writeFloat N x = .ok t → Literal t := by
    intro x hx
    rw [writeFloat] at hx
    split_ifs at hx with hfin
    cases hx
    exact .number (hN.float x hfin)
  cases value with
  | null => cases h; exact .null
  | bool b =>
      cases h
      cases b
      · exact .quoted ['f']
      · exact .quoted ['t']
  | int2 v => cases h; exact .number (validNumericLiteral_displayInt _)
  | int4 v => cases h; exact .number (validNumericLiteral_displayInt _)
  | int8 v => cases h; exact .number (validNumericLiteral_displayInt _)
  | float4 v => exact hfloat _ h
  | float8 v => exact hfloat _ h
  | numeric v =>
      rw [escapeLiteral] at h
      split_ifs at h with hv
      cases h
      exact .number hv
  | decimal v => cases h; exact .number (hN.decimal v)
  | text v => exact writeTextLiteral_literal h
  | date v => exact writeTextLiteral_literal h
  | time v => exact writeTextLiteral_literal h
  | timetz v => exact writeTextLiteral_literal h
  | timestamp v => exact writeTextLiteral_literal h
  | interval v => exact writeTextLiteral_literal h
  | bytea v => cases h

end NzRust.Sql
