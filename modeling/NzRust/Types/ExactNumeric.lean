import NzRust.Lib.Checked
import NzRust.Types.TextValue

/-!
# Exact NUMERIC values

`NzNumeric` as its text is parsed and printed. The parser accepts the decimals
of at most 38 digits and 38 decimals with the coefficient and the scale that
they spell, and among them are the texts that the printer makes.
-/

namespace NzRust

open Checked

/-- A signed coefficient and its scale, trailing zeros included. -/
structure NzNumeric where
  coefficient : Int
  scale : Nat
  bounded : coefficient.natAbs < 10 ^ 38 ∧ scale ≤ 38
  deriving DecidableEq, Repr

def NzNumeric.new (coefficient : Int) (scale : Nat) : NzResult NzNumeric :=
  if h : coefficient.natAbs < 10 ^ 38 ∧ scale ≤ 38 then .ok ⟨coefficient, scale, h⟩
  else .error (.config "NUMERIC exceeds 38 digits or scale 38")

/-! ## Parsing -/

def coefficientOverflow : NzError :=
  .config "NUMERIC coefficient overflow"

/-- One character of the loop. The count is an `i32` and the scale a `u32`; the coefficient, an
`i128` that is not negative here, is checked. -/
def NumericScan.push (s : NumericScan) (c : Char) : Exec NzError NumericScan :=
  if c = '.' ∧ s.point = false then .ok { s with point := true }
  else if !c.isDigit then fail (.config "invalid NUMERIC decimal")
  else do
    let tens ← orFail coefficientOverflow (mulChecked 127 s.coefficient 10)
    let coefficient ← orFail coefficientOverflow (addChecked 127 tens (c.toNat - 48))
    let count ← addWord 31 s.count 1
    let scale ← (if s.point then addWord 32 s.scale 1 else .ok s.scale)
    return { s with coefficient := coefficient, count := count, scale := scale }

def NumericScan.scan (s : NumericScan) : Text → Exec NzError NumericScan
  | [] => .ok s
  | c :: cs => do
      let s ← s.push c
      s.scan cs

/-- `from_str`. -/
def NzNumeric.parse (input : Text) : Exec NzError NzNumeric := do
  let s ← NumericScan.scan {} (splitSign input).2
  if s.count = 0 then fail (.config "empty NUMERIC decimal")
  else
    let coefficient ← (if (splitSign input).1 then int 128 (-s.coefficient) else .ok s.coefficient)
    lift (NzNumeric.new coefficient s.scale)

/-! ## Printing -/

/-- `10u128.pow(exponent)`. -/
def powerOfTen (exponent : Nat) : Exec NzError Nat :=
  if 10 ^ exponent < 2 ^ 128 then .ok (10 ^ exponent) else panics

/-- `Display`. -/
def NzNumeric.display (n : NzNumeric) : Exec NzError Text := do
  let minus := if n.coefficient < 0 then ['-'] else []
  let magnitude := n.coefficient.natAbs
  if n.scale = 0 then return minus ++ Nat.toDigits 10 magnitude
  else
    let divisor ← powerOfTen n.scale
    return minus ++ (Nat.toDigits 10 (magnitude / divisor) ++
      '.' :: padded n.scale (magnitude % divisor))

/-! ## Decimals and what they denote -/

/-- A decimal as it is written: its sign, and the digits before the point and behind it. -/
structure DecimalText where
  /-- Whether a sign that is written is a minus. -/
  sign : Option Bool
  whole : Text
  /-- The digits behind the point, when there is one. -/
  decimals : Option Text
  digits : ∀ c ∈ whole ++ decimals.getD [], c.isDigit = true
  nonempty : whole ++ decimals.getD [] ≠ []

namespace DecimalText

def signText : Option Bool → Text
  | none => []
  | some true => ['-']
  | some false => ['+']

def pointText : Option Text → Text
  | none => []
  | some decimals => '.' :: decimals

theorem signText_length (sign : Option Bool) : (signText sign).length ≤ 1 := by
  cases sign with
  | none => decide
  | some minus => cases minus <;> decide

theorem pointText_length (decimals : Option Text) :
    (pointText decimals).length ≤ (decimals.getD []).length + 1 := by
  cases decimals <;> simp [pointText]

def unsigned (d : DecimalText) : Text :=
  d.whole ++ pointText d.decimals

def text (d : DecimalText) : Text :=
  signText d.sign ++ d.unsigned

def magnitude (d : DecimalText) : Nat :=
  Nat.ofDigitChars 10 (d.whole ++ d.decimals.getD []) 0

def coefficient (d : DecimalText) : Int :=
  if d.sign = some true then -d.magnitude else d.magnitude

def scale (d : DecimalText) : Nat :=
  (d.decimals.getD []).length

/-- No superfluous zero in front, no plus and no minus at a zero, a point only before decimals. -/
structure Canonical (d : DecimalText) : Prop where
  sign : d.sign = none ∨ (d.sign = some true ∧ d.magnitude ≠ 0)
  whole : d.whole = ['0'] ∨ (d.whole ≠ [] ∧ d.whole.head? ≠ some '0')
  point : d.decimals = none ↔ d.scale = 0

end DecimalText

/-- A coefficient and a scale in digits. -/
def canonicalText (coefficient : Int) (scale : Nat) : Text :=
  (if coefficient < 0 then ['-'] else []) ++
    (Nat.toDigits 10 (coefficient.natAbs / 10 ^ scale) ++
      if scale = 0 then [] else '.' :: padded scale (coefficient.natAbs % 10 ^ scale))

/-! ## The loop -/

theorem le_ofDigitChars (digits : Text) (init : Nat) :
    init ≤ Nat.ofDigitChars 10 digits init := by
  rw [Nat.ofDigitChars_eq_ofDigitChars_zero]
  have hpow : 1 * init ≤ 10 ^ digits.length * init :=
    Nat.mul_le_mul_right init (Nat.pow_pos (by decide))
  omega

namespace NumericScan

/-- A computation that ends as an option says, in a value or in some error. -/
def Agrees {α : Type} (x : Exec NzError α) : Option α → Prop
  | some a => x = .ok a
  | none => ∃ e, x = fail e

theorem push_agrees (s : NumericScan) (c : Char) (hcount : s.count + 1 < 2 ^ 31)
    (hscale : s.scale ≤ s.count) : Agrees (s.push c) (s.step c) := by
  unfold push step
  by_cases hpoint : c = '.' ∧ s.point = false
  · rw [if_pos hpoint, if_pos hpoint]
    exact rfl
  rw [if_neg hpoint, if_neg hpoint]
  by_cases hdigit : (!c.isDigit) = true
  · rw [if_pos hdigit, if_pos hdigit]
    exact ⟨_, rfl⟩
  rw [if_neg hdigit, if_neg hdigit]
  dsimp only
  by_cases htens : s.coefficient * 10 < 2 ^ 127
  · rw [mulChecked, if_pos htens, orFail, ok_bind]
    by_cases hsum : s.coefficient * 10 + (c.toNat - 48) < 2 ^ 127
    · have hword : (if s.point then addWord 32 s.scale 1 else .ok s.scale : Exec NzError Nat) =
          .ok (if s.point then s.scale + 1 else s.scale) := by
        split
        · exact addWord_eq (by omega)
        · rfl
      rw [addChecked, if_pos hsum, if_pos hsum, orFail, ok_bind, addWord_eq hcount, ok_bind, hword]
      exact rfl
    · rw [addChecked, if_neg hsum, if_neg hsum]
      exact ⟨_, rfl⟩
  · have hsum : ¬ s.coefficient * 10 + (c.toNat - 48) < 2 ^ 127 := by omega
    rw [mulChecked, if_neg htens, if_neg hsum]
    exact ⟨_, rfl⟩

theorem step_bounds {s s' : NumericScan} {c : Char} (h : s.step c = some s')
    (hscale : s.scale ≤ s.count) : s'.scale ≤ s'.count ∧ s'.count ≤ s.count + 1 := by
  unfold step at h
  split at h
  · cases h
    exact ⟨hscale, Nat.le_succ _⟩
  split at h
  · cases h
  dsimp only at h
  split at h
  · cases h
    refine ⟨?_, Nat.le_refl _⟩
    dsimp only
    split <;> omega
  · cases h

theorem scan_agrees (s : NumericScan) (text : Text) (hcount : s.count + text.length < 2 ^ 31)
    (hscale : s.scale ≤ s.count) : Agrees (s.scan text) (s.run text) := by
  induction text generalizing s with
  | nil => exact rfl
  | cons c cs ih =>
      rw [List.length_cons] at hcount
      have hpush := push_agrees s c (by omega) hscale
      rw [scan, run]
      cases hstep : s.step c with
      | none =>
          rw [hstep] at hpush
          obtain ⟨e, he⟩ := hpush
          rw [he]
          exact ⟨e, rfl⟩
      | some s' =>
          rw [hstep] at hpush
          have hbounds := step_bounds hstep hscale
          rw [show s.push c = .ok s' from hpush, ok_bind, Option.bind_some]
          exact ih s' (by omega) hbounds.1

theorem step_digit (s : NumericScan) {c : Char} (h : c.isDigit = true) :
    s.step c =
      if s.coefficient * 10 + (c.toNat - 48) < 2 ^ 127 then
        some { s with
          coefficient := s.coefficient * 10 + (c.toNat - 48)
          count := s.count + 1
          scale := if s.point then s.scale + 1 else s.scale }
      else none := by
  have hpoint : ¬(c = '.' ∧ s.point = false) := by
    rintro ⟨rfl, -⟩
    cases h
  unfold step
  rw [if_neg hpoint, if_neg (by simp [h])]

/-- A step sees the point, once, or a digit. -/
theorem step_some {s s' : NumericScan} {c : Char} (h : s.step c = some s') :
    (c = '.' ∧ s.point = false ∧ s' = { s with point := true }) ∨
      (c.isDigit = true ∧ s'.point = s.point) := by
  by_cases hdigit : c.isDigit = true
  · rw [step_digit s hdigit] at h
    split at h
    · cases h
      exact .inr ⟨hdigit, rfl⟩
    · cases h
  · unfold step at h
    by_cases hpoint : c = '.' ∧ s.point = false
    · rw [if_pos hpoint] at h
      exact .inl ⟨hpoint.1, hpoint.2, (Option.some.inj h).symm⟩
    · rw [if_neg hpoint, if_pos (by simpa using hdigit)] at h
      cases h

/-- Digits are taken as a whole. -/
theorem run_digits (s : NumericScan) (hs : s.coefficient < 2 ^ 127) {digits : Text}
    (h : ∀ c ∈ digits, c.isDigit = true) (rest : Text) :
    s.run (digits ++ rest) =
      if Nat.ofDigitChars 10 digits s.coefficient < 2 ^ 127 then
        ({ s with
          coefficient := Nat.ofDigitChars 10 digits s.coefficient
          count := s.count + digits.length
          scale := if s.point then s.scale + digits.length else s.scale } : NumericScan).run rest
      else none := by
  induction digits generalizing s with
  | nil =>
      rw [Nat.ofDigitChars_nil, if_pos hs]
      simp
  | cons c digits ih =>
      have hc := h c List.mem_cons_self
      have hnext : 10 * s.coefficient + (c.toNat - '0'.toNat) =
          s.coefficient * 10 + (c.toNat - 48) := by
        show 10 * s.coefficient + (c.toNat - 48) = _
        omega
      rw [List.cons_append, run, step_digit s hc, Nat.ofDigitChars_cons, hnext]
      by_cases hsum : s.coefficient * 10 + (c.toNat - 48) < 2 ^ 127
      · rw [if_pos hsum, Option.bind_some, ih _ hsum fun d hd => h d (List.mem_cons_of_mem c hd)]
        have hassoc (n : Nat) : n + 1 + digits.length = n + (digits.length + 1) := by omega
        cases s.point with
        | true => simp only [if_true, List.length_cons, hassoc]
        | false => simp only [Bool.false_eq_true, if_false, List.length_cons, hassoc]
      · have hle := le_ofDigitChars digits (s.coefficient * 10 + (c.toNat - 48))
        rw [if_neg hsum, if_neg (by omega)]
        rfl

/-- Behind the point there are digits only. -/
theorem run_pointed {s s' : NumericScan} {text : Text} (hpoint : s.point = true)
    (h : s.run text = some s') : ∀ c ∈ text, c.isDigit = true := by
  induction text generalizing s with
  | nil => simp
  | cons c cs ih =>
      obtain ⟨next, hstep, hrun⟩ := Option.bind_eq_some_iff.mp h
      rcases step_some hstep with ⟨-, hfirst, -⟩ | ⟨hdigit, hsame⟩
      · rw [hpoint] at hfirst
        cases hfirst
      · exact List.forall_mem_cons.mpr ⟨hdigit, ih (hsame.trans hpoint) hrun⟩

theorem run_shape {s s' : NumericScan} {text : Text} (hpoint : s.point = false)
    (h : s.run text = some s') :
    ∃ whole decimals, text = whole ++ DecimalText.pointText decimals ∧
      ∀ c ∈ whole ++ decimals.getD [], c.isDigit = true := by
  induction text generalizing s with
  | nil => exact ⟨[], none, rfl, by simp⟩
  | cons c cs ih =>
      obtain ⟨next, hstep, hrun⟩ := Option.bind_eq_some_iff.mp h
      rcases step_some hstep with ⟨rfl, -, rfl⟩ | ⟨hdigit, hsame⟩
      · exact ⟨[], some cs, rfl, run_pointed rfl hrun⟩
      · obtain ⟨whole, decimals, rfl, hdigits⟩ := ih (hsame.trans hpoint) hrun
        exact ⟨c :: whole, decimals, rfl, List.forall_mem_cons.mpr ⟨hdigit, hdigits⟩⟩

/-- The state behind an unsigned decimal, when its coefficient fits. -/
theorem run_unsigned (d : DecimalText) :
    NumericScan.run {} d.unsigned =
      if d.magnitude < 2 ^ 127 then
        some ⟨d.magnitude, d.scale, d.decimals.isSome, d.whole.length + d.scale⟩
      else none := by
  obtain ⟨sign, whole, decimals, hdigits, hne⟩ := d
  unfold DecimalText.unsigned DecimalText.magnitude DecimalText.scale
  dsimp only at hdigits ⊢
  rw [run_digits {} (by decide) fun c hc => hdigits c (List.mem_append_left _ hc)]
  dsimp only
  cases decimals with
  | none => simp [DecimalText.pointText, run]
  | some frac =>
      have hfrac : ∀ c ∈ frac, c.isDigit = true := fun c hc =>
        hdigits c (List.mem_append_right _ hc)
      have hle := le_ofDigitChars frac (Nat.ofDigitChars 10 whole 0)
      rw [Option.getD_some, Nat.ofDigitChars_append]
      by_cases hwhole : Nat.ofDigitChars 10 whole 0 < 2 ^ 127
      · have htail := run_digits ⟨Nat.ofDigitChars 10 whole 0, 0, true, whole.length⟩ hwhole hfrac []
        rw [List.append_nil] at htail
        rw [if_pos hwhole, DecimalText.pointText, run, step, if_pos ⟨rfl, rfl⟩, Option.bind_some]
        simpa [run] using htail
      · rw [if_neg hwhole, if_neg (by omega)]

end NumericScan

/-! ## What the parser accepts -/

theorem DecimalText.unsigned_chars (d : DecimalText) :
    ∀ c ∈ d.unsigned, c.isDigit = true ∨ c = '.' := by
  obtain ⟨sign, whole, decimals, hdigits, hne⟩ := d
  intro c hc
  rcases List.mem_append.mp hc with hc | hc
  · exact .inl (hdigits c (List.mem_append_left _ hc))
  · cases decimals with
    | none => cases hc
    | some frac =>
        rcases List.mem_cons.mp hc with rfl | hc
        · exact .inr rfl
        · exact .inl (hdigits c (List.mem_append_right _ hc))

/-- The sign of a decimal is what the parser strips. -/
theorem DecimalText.splitSign_text (d : DecimalText) :
    splitSign d.text = (decide (d.sign = some true), d.unsigned) := by
  unfold DecimalText.text
  match d.sign with
  | some true => rfl
  | some false => rfl
  | none =>
      have hchars := d.unsigned_chars
      show splitSign d.unsigned = (false, d.unsigned)
      unfold splitSign
      split
      · next heq =>
          rw [heq] at hchars
          rcases hchars '-' List.mem_cons_self with h | h <;> cases h
      · next heq =>
          rw [heq] at hchars
          rcases hchars '+' List.mem_cons_self with h | h <;> cases h
      · rfl

theorem splitSign_signText (input : Text) :
    ∃ sign, input = DecimalText.signText sign ++ (splitSign input).2 := by
  unfold splitSign
  split
  · exact ⟨some true, rfl⟩
  · exact ⟨some false, rfl⟩
  · exact ⟨none, rfl⟩

theorem DecimalText.count_pos (d : DecimalText) : d.whole.length + d.scale ≠ 0 := by
  have hne := List.length_pos_iff.mpr d.nonempty
  rw [List.length_append] at hne
  unfold DecimalText.scale
  omega

theorem DecimalText.unsigned_length (d : DecimalText) :
    d.unsigned.length ≤ d.text.length := by
  unfold DecimalText.text
  rw [List.length_append]
  omega

namespace NzNumeric

theorem scan_unsigned {d : DecimalText} (hlen : d.text.length < 2 ^ 31) :
    NumericScan.Agrees (NumericScan.scan {} d.unsigned)
      (if d.magnitude < 2 ^ 127 then
        some ⟨d.magnitude, d.scale, d.decimals.isSome, d.whole.length + d.scale⟩
      else none) := by
  have hle := d.unsigned_length
  rw [← NumericScan.run_unsigned]
  exact NumericScan.scan_agrees {} d.unsigned (by simpa using Nat.lt_of_le_of_lt hle hlen)
    (Nat.le_refl _)

/-- A decimal is parsed to what it denotes, within the limits. -/
theorem parse_text {d : DecimalText} (hlen : d.text.length < 2 ^ 31) (hmag : d.magnitude < 2 ^ 127) :
    parse d.text = lift (NzNumeric.new d.coefficient d.scale) := by
  have hscan := scan_unsigned hlen
  rw [if_pos hmag] at hscan
  unfold parse
  rw [d.splitSign_text, show NumericScan.scan {} d.unsigned = .ok _ from hscan, ok_bind,
    if_neg d.count_pos]
  unfold DecimalText.coefficient
  by_cases hsign : d.sign = some true
  · have hneg : (int 128 (-(d.magnitude : Int)) : Exec NzError Int) = .ok (-d.magnitude) :=
      int_eq (by omega) (by omega)
    rw [if_pos hsign, if_pos (by simpa using hsign), hneg]
    rfl
  · rw [if_neg hsign, if_neg (by simpa using hsign)]
    rfl

/-- One whose coefficient does not fit is refused, and nothing panics over it. -/
theorem parse_text_large {d : DecimalText} (hlen : d.text.length < 2 ^ 31)
    (hmag : ¬d.magnitude < 2 ^ 127) : ∃ e, parse d.text = fail e := by
  have hscan := scan_unsigned hlen
  rw [if_neg hmag] at hscan
  obtain ⟨e, he⟩ := hscan
  unfold parse
  rw [d.splitSign_text, he]
  exact ⟨e, rfl⟩

/-- What ends the loop well is a decimal, unless it has no digit. -/
theorem decimal_of_run {input : Text} {s : NumericScan}
    (h : NumericScan.run {} (splitSign input).2 = some s) (hcount : s.count ≠ 0) :
    ∃ d : DecimalText, d.text = input := by
  obtain ⟨sign, hinput⟩ := splitSign_signText input
  obtain ⟨whole, decimals, hbody, hdigits⟩ := NumericScan.run_shape rfl h
  have hne : whole ++ decimals.getD [] ≠ [] := by
    intro hnil
    obtain ⟨rfl, hnone⟩ := List.append_eq_nil_iff.mp hnil
    rw [hbody] at h
    match decimals, hnone with
    | none, _ =>
        cases h
        exact hcount rfl
    | some [], _ =>
        cases h
        exact hcount rfl
  exact ⟨⟨sign, whole, decimals, hdigits, hne⟩, by rw [hinput, hbody]; rfl⟩

/-- A text that is no decimal is refused. -/
theorem parse_other {input : Text} (hlen : input.length < 2 ^ 31)
    (h : ∀ d : DecimalText, d.text ≠ input) : ∃ e, parse input = fail e := by
  have hbody : (splitSign input).2.length ≤ input.length := by
    obtain ⟨sign, hinput⟩ := splitSign_signText input
    have hlength := congrArg List.length hinput
    rw [List.length_append] at hlength
    omega
  have hscan := NumericScan.scan_agrees {} (splitSign input).2
    (by simpa using Nat.lt_of_le_of_lt hbody hlen) (Nat.le_refl _)
  unfold parse
  cases hrun : NumericScan.run {} (splitSign input).2 with
  | none =>
      rw [hrun] at hscan
      obtain ⟨e, he⟩ := hscan
      rw [he]
      exact ⟨e, rfl⟩
  | some s =>
      rw [hrun] at hscan
      rw [show NumericScan.scan {} (splitSign input).2 = .ok s from hscan, ok_bind]
      by_cases hcount : s.count = 0
      · rw [if_pos hcount]
        exact ⟨_, rfl⟩
      · obtain ⟨d, hd⟩ := decimal_of_run hrun hcount
        exact absurd hd (h d)

theorem new_ok_iff {coefficient : Int} {scale : Nat} {n : NzNumeric} :
    NzNumeric.new coefficient scale = .ok n ↔ n.coefficient = coefficient ∧ n.scale = scale := by
  unfold NzNumeric.new
  constructor
  · intro h
    split at h
    · cases h
      exact ⟨rfl, rfl⟩
    · cases h
  · rintro ⟨rfl, rfl⟩
    exact dif_pos n.bounded

theorem natAbs_coefficient (d : DecimalText) : d.coefficient.natAbs = d.magnitude := by
  unfold DecimalText.coefficient
  split <;> omega

theorem parse_ok_iff {input : Text} (hlen : input.length < 2 ^ 31) {n : NzNumeric} :
    parse input = .ok n ↔
      ∃ d : DecimalText, d.text = input ∧ d.coefficient = n.coefficient ∧ d.scale = n.scale := by
  constructor
  · intro h
    by_cases hdecimal : ∃ d : DecimalText, d.text = input
    · obtain ⟨d, rfl⟩ := hdecimal
      by_cases hmag : d.magnitude < 2 ^ 127
      · rw [parse_text hlen hmag] at h
        obtain ⟨hcoefficient, hscale⟩ := new_ok_iff.mp (lift_ok h)
        exact ⟨d, rfl, hcoefficient.symm, hscale.symm⟩
      · obtain ⟨e, he⟩ := parse_text_large hlen hmag
        rw [he] at h
        cases h
    · obtain ⟨e, he⟩ := parse_other hlen fun d hd => hdecimal ⟨d, hd⟩
      rw [he] at h
      cases h
  · rintro ⟨d, rfl, hcoefficient, hscale⟩
    have hbounded := n.bounded.1
    rw [← hcoefficient, natAbs_coefficient] at hbounded
    rw [parse_text hlen (by omega), new_ok_iff.mpr ⟨hcoefficient.symm, hscale.symm⟩]
    rfl

theorem parse_no_panic {input : Text} (hlen : input.length < 2 ^ 31) : parse input ≠ panics := by
  by_cases hdecimal : ∃ d : DecimalText, d.text = input
  · obtain ⟨d, rfl⟩ := hdecimal
    by_cases hmag : d.magnitude < 2 ^ 127
    · rw [parse_text hlen hmag]
      exact (lift_safe _).no_panic
    · obtain ⟨e, he⟩ := parse_text_large hlen hmag
      rw [he]
      exact (Safe.fail e fun _ => True).no_panic
  · obtain ⟨e, he⟩ := parse_other hlen fun d hd => hdecimal ⟨d, hd⟩
    rw [he]
    exact (Safe.fail e fun _ => True).no_panic

/-- The limits of the type are those of what is parsed. -/
theorem parse_ok_exists_iff {input : Text} (hlen : input.length < 2 ^ 31) :
    (∃ n, parse input = .ok n) ↔
      ∃ d : DecimalText, d.text = input ∧ d.scale ≤ 38 ∧ d.magnitude < 10 ^ 38 := by
  constructor
  · rintro ⟨n, h⟩
    obtain ⟨d, htext, hcoefficient, hscale⟩ := (parse_ok_iff hlen).mp h
    have hbounded := n.bounded
    rw [← hcoefficient, natAbs_coefficient, ← hscale] at hbounded
    exact ⟨d, htext, hbounded.2, hbounded.1⟩
  · rintro ⟨d, htext, hscale, hmag⟩
    have hbounded : d.coefficient.natAbs < 10 ^ 38 ∧ d.scale ≤ 38 :=
      ⟨by rw [natAbs_coefficient]; exact hmag, hscale⟩
    exact ⟨⟨d.coefficient, d.scale, hbounded⟩, (parse_ok_iff hlen).mpr ⟨d, htext, rfl, rfl⟩⟩

/-- However a text is read as a decimal, this is what it is parsed to. -/
theorem parse_ok_unique {d : DecimalText} (hlen : d.text.length < 2 ^ 31) {n : NzNumeric}
    (h : parse d.text = .ok n) : n.coefficient = d.coefficient ∧ n.scale = d.scale := by
  by_cases hmag : d.magnitude < 2 ^ 127
  · rw [parse_text hlen hmag] at h
    exact new_ok_iff.mp (lift_ok h)
  · obtain ⟨e, he⟩ := parse_text_large hlen hmag
    rw [he] at h
    cases h

end NzNumeric

/-! ## What the printer makes -/

theorem powerOfTen_eq {exponent : Nat} (h : exponent ≤ 38) :
    powerOfTen exponent = .ok (10 ^ exponent) := by
  have hpow : 10 ^ exponent ≤ 10 ^ 38 := Nat.pow_le_pow_right (by decide) h
  exact if_pos (by omega)

/-- The decimal that a coefficient and a scale are printed as. -/
def printedDecimal (coefficient : Int) (scale : Nat) : DecimalText where
  sign := if coefficient < 0 then some true else none
  whole := Nat.toDigits 10 (coefficient.natAbs / 10 ^ scale)
  decimals := if scale = 0 then none else some (padded scale (coefficient.natAbs % 10 ^ scale))
  digits := by
    refine List.forall_mem_append.mpr ⟨(spells_toDigits _).digits, ?_⟩
    split
    · simp
    · exact padded_digits _ _
  nonempty := by simp [(spells_toDigits _).ne_nil]

section Printed

variable (coefficient : Int) (scale : Nat)

theorem printedDecimal_text :
    (printedDecimal coefficient scale).text = canonicalText coefficient scale := by
  show DecimalText.signText (if coefficient < 0 then _ else _) ++
    (Nat.toDigits 10 _ ++ DecimalText.pointText (if scale = 0 then _ else _)) = _
  unfold canonicalText
  congr 1
  · split <;> rfl
  · congr 1
    split <;> rfl

theorem printedDecimal_decimals_length :
    (((printedDecimal coefficient scale).decimals).getD []).length = scale := by
  show ((if scale = 0 then none else some (padded scale _)).getD []).length = scale
  by_cases hzero : scale = 0
  · rw [if_pos hzero, hzero]
    rfl
  · rw [if_neg hzero]
    exact padded_length (Nat.pos_of_ne_zero hzero) (Nat.mod_lt _ (Nat.pow_pos (by decide)))

@[simp] theorem printedDecimal_scale : (printedDecimal coefficient scale).scale = scale :=
  printedDecimal_decimals_length coefficient scale

@[simp] theorem printedDecimal_magnitude :
    (printedDecimal coefficient scale).magnitude = coefficient.natAbs := by
  have hlength := printedDecimal_decimals_length coefficient scale
  have hvalue : Nat.ofDigitChars 10 ((printedDecimal coefficient scale).decimals.getD []) 0 =
      coefficient.natAbs % 10 ^ scale := by
    show Nat.ofDigitChars 10 ((if scale = 0 then none else some (padded scale _)).getD []) 0 = _
    by_cases hzero : scale = 0
    · rw [if_pos hzero, hzero, Nat.pow_zero, Nat.mod_one]
      rfl
    · rw [if_neg hzero]
      exact padded_value _ _
  unfold DecimalText.magnitude
  rw [Nat.ofDigitChars_append, Nat.ofDigitChars_eq_ofDigitChars_zero, hlength, hvalue]
  show 10 ^ scale * Nat.ofDigitChars 10 (Nat.toDigits 10 _) 0 + _ = _
  rw [Nat.ofDigitChars_ten_toDigits, Nat.div_add_mod]

@[simp] theorem printedDecimal_coefficient :
    (printedDecimal coefficient scale).coefficient = coefficient := by
  unfold DecimalText.coefficient
  rw [printedDecimal_magnitude]
  show (if (if coefficient < 0 then some true else none) = some true then _ else _) = _
  by_cases hneg : coefficient < 0
  · rw [if_pos hneg, if_pos rfl]
    omega
  · rw [if_neg hneg, if_neg (by simp)]
    omega

theorem printedDecimal_canonical : (printedDecimal coefficient scale).Canonical where
  sign := by
    rw [printedDecimal_magnitude]
    show (if coefficient < 0 then some true else none) = none ∨
      ((if coefficient < 0 then some true else none) = some true ∧ _)
    by_cases hneg : coefficient < 0
    · rw [if_pos hneg]
      exact .inr ⟨rfl, by omega⟩
    · rw [if_neg hneg]
      exact .inl rfl
  whole := by
    by_cases hzero : coefficient.natAbs / 10 ^ scale = 0
    · left
      show Nat.toDigits 10 _ = ['0']
      rw [hzero]
      rfl
    · exact .inr ⟨(spells_toDigits _).ne_nil, toDigits_head_ne_zero (Nat.pos_of_ne_zero hzero)⟩
  point := by
    rw [printedDecimal_scale]
    show (if scale = 0 then none else some _) = none ↔ scale = 0
    by_cases hzero : scale = 0 <;> simp [hzero]

end Printed

namespace NzNumeric

theorem display_eq (n : NzNumeric) : n.display = .ok (canonicalText n.coefficient n.scale) := by
  unfold display canonicalText
  by_cases hzero : n.scale = 0
  · rw [if_pos hzero, if_pos hzero, hzero, Nat.pow_zero, Nat.div_one, List.append_nil]
    rfl
  · rw [if_neg hzero, if_neg hzero, powerOfTen_eq n.bounded.2]
    rfl

theorem canonicalText_length (n : NzNumeric) :
    (canonicalText n.coefficient n.scale).length < 2 ^ 31 := by
  have hwhole : (Nat.toDigits 10 (n.coefficient.natAbs / 10 ^ n.scale)).length ≤ 38 :=
    (Nat.length_toDigits_le_iff (by decide) (by decide)).mpr
      (Nat.lt_of_le_of_lt (Nat.div_le_self _ _) n.bounded.1)
  have hdecimals := printedDecimal_decimals_length n.coefficient n.scale
  have hscale := n.bounded.2
  rw [← printedDecimal_text]
  unfold DecimalText.text DecimalText.unsigned
  have hsigned := DecimalText.signText_length (printedDecimal n.coefficient n.scale).sign
  have hpointed := DecimalText.pointText_length (printedDecimal n.coefficient n.scale).decimals
  have hsame : (printedDecimal n.coefficient n.scale).whole =
      Nat.toDigits 10 (n.coefficient.natAbs / 10 ^ n.scale) := rfl
  rw [List.length_append, List.length_append, hsame]
  omega

theorem parse_display (n : NzNumeric) : ∃ text, n.display = .ok text ∧ parse text = .ok n :=
  ⟨_, n.display_eq, (parse_ok_iff n.canonicalText_length).mpr
    ⟨printedDecimal n.coefficient n.scale, printedDecimal_text _ _, printedDecimal_coefficient _ _,
      printedDecimal_scale _ _⟩⟩

end NzNumeric

/-! ## Both ways -/

theorem length_le_toUtf8 (text : Text) : text.length ≤ (toUtf8 text).length := by
  induction text with
  | nil => exact Nat.le_refl 0
  | cons c cs ih =>
      have hpos := c.utf8Size_pos
      unfold toUtf8 at ih ⊢
      rw [List.flatMap_cons, List.length_append, String.length_utf8EncodeChar, List.length_cons]
      omega

theorem numeric_text_exact :
    (∀ n : NzNumeric, ∃ text, n.display = .ok text ∧ NzNumeric.parse text = .ok n) ∧
    ∀ input : Text, (toUtf8 input).length < 2 ^ 31 →
      NzNumeric.parse input ≠ panics ∧
      ((∃ n, NzNumeric.parse input = .ok n) ↔
        ∃ d : DecimalText, d.text = input ∧ d.scale ≤ 38 ∧ d.magnitude < 10 ^ 38) ∧
      ∀ (d : DecimalText) (n : NzNumeric), d.text = input → NzNumeric.parse input = .ok n →
        n.coefficient = d.coefficient ∧ n.scale = d.scale := by
  refine ⟨NzNumeric.parse_display, ?_⟩
  intro input hbytes
  have hlen : input.length < 2 ^ 31 := Nat.lt_of_le_of_lt (length_le_toUtf8 input) hbytes
  refine ⟨NzNumeric.parse_no_panic hlen, NzNumeric.parse_ok_exists_iff hlen, ?_⟩
  rintro d n rfl hparse
  exact NzNumeric.parse_ok_unique hlen hparse

end NzRust
