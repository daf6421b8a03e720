import NzRust.Sql.ByteScan
import NzRust.Sql.Literals

/-!
# The guard of NUMERIC text

`valid_numeric_literal` walks the bytes of a `str` with one index. It accepts
the texts of a small grammar, in which a sign stands first or behind the
exponent letter.
-/

namespace NzRust.Sql

variable {N : Numerics}

/-! ## The index scan -/

/-- The digit loop, with the bytes from `i` on. -/
def digitLoop : Nat → Nat → Bytes → Nat × Nat
  | i, digits, [] => (i, digits)
  | i, digits, b :: bytes =>
      if isDigitByte b then digitLoop (i + 1) (digits + 1) bytes else (i, digits)

/-- The index behind an optional sign at `i`. -/
def signEnd (bytes : Bytes) (i : Nat) : Nat :=
  if bytes[i]? = some (ascii '+') ∨ bytes[i]? = some (ascii '-') then i + 1 else i

/-- The digits behind a point at the index reached, if there is one. -/
def fractionEnd (bytes : Bytes) (whole : Nat × Nat) : Nat × Nat :=
  if bytes[whole.1]? = some (ascii '.') then
    digitLoop (whole.1 + 1) whole.2 (bytes.drop (whole.1 + 1))
  else whole

/-- The index behind an optional exponent at `i`, nothing if it has no digits. -/
def exponentEnd (bytes : Bytes) (i : Nat) : Option Nat :=
  if bytes[i]? = some (ascii 'e') ∨ bytes[i]? = some (ascii 'E') then
    let start := signEnd bytes (i + 1)
    let stop := (digitLoop start 0 (bytes.drop start)).1
    if stop = start then none else some stop
  else some i

/-- `valid_numeric_literal`, on the bytes of the `str`. -/
def validNumericBytes (bytes : Bytes) : Bool :=
  let start := signEnd bytes 0
  let mantissa := fractionEnd bytes (digitLoop start 0 (bytes.drop start))
  if mantissa.2 = 0 then false
  else
    match exponentEnd bytes mantissa.1 with
    | none => false
    | some i => i == bytes.length

/-! ## The scan over characters -/

theorem byteLen_digits {text : Text} (h : ∀ c ∈ text, c.isDigit = true) :
    byteLen text = text.length := by
  induction text with
  | nil => rfl
  | cons c cs ih =>
      rw [byteLen_cons, utf8Size_ascii (isDigit_lt (h c List.mem_cons_self)),
        ih fun d hd => h d (List.mem_cons_of_mem c hd), List.length_cons, Nat.add_comm]

theorem byteLen_takeWhile (text : Text) :
    byteLen (text.takeWhile Char.isDigit) = (text.takeWhile Char.isDigit).length :=
  byteLen_digits fun _ hc => List.mem_takeWhile_imp hc

theorem digitLoop_bytes (i digits : Nat) (bytes : Bytes) :
    digitLoop i digits bytes = (i + (bytes.takeWhile isDigitByte).length,
      digits + (bytes.takeWhile isDigitByte).length) := by
  induction bytes generalizing i digits with
  | nil => rfl
  | cons b bytes ih =>
      rw [digitLoop, List.takeWhile_cons]
      split
      · rw [ih, List.length_cons, Nat.add_right_comm i, Nat.add_right_comm digits]
        rfl
      · rfl

/-- The loop stops behind the digits that stand at its index. -/
theorem digitLoop_text (before rest : Text) (digits : Nat) :
    digitLoop (byteLen before) digits ((toUtf8 (before ++ rest)).drop (byteLen before)) =
      (byteLen (before ++ rest.takeWhile Char.isDigit),
        digits + (rest.takeWhile Char.isDigit).length) := by
  rw [drop_bytes, digitLoop_bytes, takeWhile_digits, byteLen_append, byteLen_takeWhile]

/-- A sign, or nothing. -/
def Sign (sign : Text) : Prop :=
  sign = [] ∨ sign = ['+'] ∨ sign = ['-']

theorem sign_skipSign (text : Text) : ∃ sign, Sign sign ∧ text = sign ++ skipSign text ∧
    (sign = [] → text.head? ≠ some '+' ∧ text.head? ≠ some '-') ∧
    (sign ≠ [] → text.head? = some '+' ∨ text.head? = some '-') := by
  cases text with
  | nil => exact ⟨[], .inl rfl, rfl, by simp, by simp⟩
  | cons c cs =>
      rw [skipSign]
      split_ifs with hc
      · refine ⟨[c], .inr ?_, rfl, by simp, by simpa using hc⟩
        simpa using hc
      · rw [not_or] at hc
        exact ⟨[], .inl rfl, rfl, by simpa using hc, by simp⟩

theorem byte_at_ascii {a : Char} (ha : a.toNat < 128) (before rest : Text) :
    (toUtf8 (before ++ rest))[byteLen before]? = some (ascii a) ↔ rest.head? = some a := by
  rw [byte_at, head_ascii ha]

/-- The scan passes the sign that `skipSign` takes off. -/
theorem signEnd_text (before rest : Text) : ∃ sign, Sign sign ∧ rest = sign ++ skipSign rest ∧
    signEnd (toUtf8 (before ++ rest)) (byteLen before) = byteLen (before ++ sign) := by
  obtain ⟨sign, hsign, hrest, hnone, hsome⟩ := sign_skipSign rest
  refine ⟨sign, hsign, hrest, ?_⟩
  rw [signEnd]
  simp only [byte_at_ascii (a := '+') (by decide), byte_at_ascii (a := '-') (by decide)]
  by_cases hnil : sign = []
  · rw [if_neg (not_or.mpr (hnone hnil)), hnil, List.append_nil]
  · rw [if_pos (hsome hnil)]
    rcases hsign with rfl | rfl | rfl
    · exact absurd rfl hnil
    · rw [byteLen_snoc (by decide)]
    · rw [byteLen_snoc (by decide)]

theorem fractionEnd_text (before rest : Text) (digits : Nat) :
    fractionEnd (toUtf8 (before ++ rest)) (byteLen before, digits) =
      if rest.head? = some '.' then
        (byteLen (before ++ ['.'] ++ rest.tail.takeWhile Char.isDigit),
          digits + (rest.tail.takeWhile Char.isDigit).length)
      else (byteLen before, digits) := by
  rw [fractionEnd]
  simp only [byte_at_ascii (a := '.') (by decide)]
  split_ifs with hpoint
  · obtain ⟨fs, rfl⟩ := List.head?_eq_some_iff.mp hpoint
    have hloop := digitLoop_text (before ++ ['.']) fs digits
    rw [byteLen_snoc (by decide), List.append_assoc] at hloop
    exact hloop
  · rfl

theorem byteLen_eq_zero {text : Text} : byteLen text = 0 ↔ text = [] := by
  cases text with
  | nil => simp
  | cons c cs => simpa using (byteLen_pos c cs).ne'

/-- The exponent scan reaches the end where `validExponent` does. -/
theorem exponentEnd_text (before rest : Text) :
    exponentEnd (toUtf8 (before ++ rest)) (byteLen before) = some (byteLen (before ++ rest)) ↔
      validExponent rest = true := by
  rw [exponentEnd]
  simp only [byte_at_ascii (a := 'e') (by decide), byte_at_ascii (a := 'E') (by decide)]
  cases rest with
  | nil => simp [validExponent]
  | cons c cs =>
      rw [validExponent]
      simp only [List.head?_cons, Option.some_inj]
      by_cases hc : c = 'e' ∨ c = 'E'
      · have hascii : c.toNat < 128 := by rcases hc with rfl | rfl <;> decide
        obtain ⟨sign, -, hcs, hstart⟩ := signEnd_text (before ++ [c]) cs
        rw [byteLen_snoc hascii, ← List.append_cons] at hstart
        have hloop := digitLoop_text (before ++ [c] ++ sign) (skipSign cs) 0
        have hwhole : before ++ [c] ++ sign ++ skipSign cs = before ++ c :: cs := by
          rw [List.append_assoc, ← hcs, ← List.append_cons]
        rw [hwhole] at hloop
        have hsplit := List.takeWhile_append_dropWhile (p := Char.isDigit) (l := skipSign cs)
        have hlen : byteLen (before ++ c :: cs) = byteLen (before ++ [c] ++ sign) +
            (byteLen ((skipSign cs).takeWhile Char.isDigit) +
              byteLen ((skipSign cs).dropWhile Char.isDigit)) := by
          rw [← byteLen_append, hsplit, ← byteLen_append, hwhole]
        rw [if_pos hc, if_pos hc, hstart, hloop, byteLen_append, hlen]
        simp only [Bool.and_eq_true, Bool.not_eq_true', List.isEmpty_eq_false_iff,
          List.isEmpty_iff, Ne, ← byteLen_eq_zero]
        split_ifs with hnone
        · simp only [false_iff, not_and]
          omega
        · rw [Option.some_inj]
          omega
      · rw [if_neg hc, if_neg hc, Option.some_inj, byteLen_append, eq_comm, Nat.add_eq_left,
          byteLen_eq_zero]
        simp

theorem exponent_reaches (before rest : Text) :
    (match exponentEnd (toUtf8 (before ++ rest)) (byteLen before) with
      | none => false
      | some i => i == (toUtf8 (before ++ rest)).length) = validExponent rest := by
  rw [Bool.eq_iff_iff, ← exponentEnd_text before rest]
  generalize exponentEnd (toUtf8 (before ++ rest)) (byteLen before) = stop
  cases stop with
  | none => simp
  | some i => rw [beq_iff_eq, Option.some_inj, byteLen]

private theorem guarded_eq (n : Nat) (b : Bool) :
    (if n = 0 then false else b) = (n ≠ 0 && b) := by
  by_cases hn : n = 0
  · simp [hn]
  · simp [hn]

/-- The scan over bytes is the scan over characters. -/
theorem validNumericBytes_eq (s : Text) : validNumericBytes (toUtf8 s) = validNumericLiteral s := by
  obtain ⟨sign, -, hs, hstart⟩ := signEnd_text [] s
  rw [List.nil_append, List.nil_append, byteLen_nil] at hstart
  have hwhole := digitLoop_text sign (skipSign s) 0
  rw [← hs, Nat.zero_add] at hwhole
  have hsplit := List.takeWhile_append_dropWhile (p := Char.isDigit) (l := skipSign s)
  have hbehind : s = (sign ++ (skipSign s).takeWhile Char.isDigit) ++
      (skipSign s).dropWhile Char.isDigit := by
    rw [List.append_assoc, hsplit, ← hs]
  have hpoint := fractionEnd_text (sign ++ (skipSign s).takeWhile Char.isDigit)
    ((skipSign s).dropWhile Char.isDigit) ((skipSign s).takeWhile Char.isDigit).length
  rw [← hbehind] at hpoint
  rw [validNumericBytes, validNumericLiteral]
  dsimp only
  rw [hstart, hwhole, hpoint]
  by_cases hdot : ((skipSign s).dropWhile Char.isDigit).head? = some '.'
  · obtain ⟨fs, hfs⟩ := List.head?_eq_some_iff.mp hdot
    have hfrac := List.takeWhile_append_dropWhile (p := Char.isDigit) (l := fs)
    have hend : s = (sign ++ (skipSign s).takeWhile Char.isDigit ++ ['.'] ++
        fs.takeWhile Char.isDigit) ++ fs.dropWhile Char.isDigit := by
      rw [List.append_assoc, hfrac, ← List.append_cons, ← hfs, ← hbehind]
    have hreach := exponent_reaches (sign ++ (skipSign s).takeWhile Char.isDigit ++ ['.'] ++
      fs.takeWhile Char.isDigit) (fs.dropWhile Char.isDigit)
    rw [← hend] at hreach
    rw [if_pos hdot, if_pos hdot, hfs, List.tail_cons, hreach]
    exact guarded_eq _ _
  · have hreach := exponent_reaches (sign ++ (skipSign s).takeWhile Char.isDigit)
      ((skipSign s).dropWhile Char.isDigit)
    rw [← hbehind] at hreach
    rw [if_neg hdot, if_neg hdot, hreach]
    exact guarded_eq _ _

/-! ## The grammar -/

/-- Digits with at most one point, and at least one digit. -/
structure Mantissa (t : Text) : Prop where
  chars : ∀ c ∈ t, c.isDigit = true ∨ c = '.'
  point : t.count '.' ≤ 1
  digit : ∃ c ∈ t, c.isDigit = true

/-- Nothing, or the exponent letter, an optional sign and at least one digit. -/
def Exponent (t : Text) : Prop :=
  t = [] ∨ ∃ c sign digits, (c = 'e' ∨ c = 'E') ∧ Sign sign ∧ digits ≠ [] ∧
    (∀ d ∈ digits, d.isDigit = true) ∧ t = c :: (sign ++ digits)

def NumericLiteral (s : Text) : Prop :=
  ∃ sign mantissa exponent, Sign sign ∧ Mantissa mantissa ∧ Exponent exponent ∧
    s = sign ++ (mantissa ++ exponent)

theorem Sign.mem {sign : Text} (h : Sign sign) {c : Char} (hc : c ∈ sign) :
    c = '+' ∨ c = '-' := by
  rcases h with rfl | rfl | rfl
  · cases hc
  · exact .inl (List.mem_singleton.mp hc)
  · exact .inr (List.mem_singleton.mp hc)

/-- A sign is taken off, and nothing else. -/
theorem skipSign_append {sign rest : Text} (hsign : Sign sign)
    (hrest : rest.head? ≠ some '+' ∧ rest.head? ≠ some '-') : skipSign (sign ++ rest) = rest := by
  rcases hsign with rfl | rfl | rfl
  · cases rest with
    | nil => rfl
    | cons c cs =>
        rw [List.nil_append, skipSign, if_neg]
        simpa using hrest
  · rfl
  · rfl

theorem digit_head {t : Text} (h : ∀ c, t.head? = some c → c.isDigit = true ∨ c = '.') :
    t.head? ≠ some '+' ∧ t.head? ≠ some '-' := by
  constructor
  · intro hplus
    exact absurd (h '+' hplus) (by decide)
  · intro hminus
    exact absurd (h '-' hminus) (by decide)

/-- The digits in front of what does not start with one. -/
theorem span_digits {digits rest : Text} (hdigits : ∀ c ∈ digits, c.isDigit = true)
    (hrest : ∀ c, rest.head? = some c → c.isDigit = false) :
    (digits ++ rest).takeWhile Char.isDigit = digits ∧
      (digits ++ rest).dropWhile Char.isDigit = rest := by
  have hnone : rest.takeWhile Char.isDigit = [] ∧ rest.dropWhile Char.isDigit = rest := by
    cases rest with
    | nil => exact ⟨rfl, rfl⟩
    | cons c cs => simp [hrest c rfl]
  rw [List.takeWhile_append_of_pos hdigits, List.dropWhile_append_of_pos hdigits, hnone.1, hnone.2,
    List.append_nil]
  exact ⟨rfl, rfl⟩

theorem validExponent_iff {t : Text} : validExponent t = true ↔ Exponent t := by
  cases t with
  | nil => exact iff_of_true rfl (.inl rfl)
  | cons c cs =>
      rw [validExponent]
      constructor
      · intro h
        split_ifs at h with hc
        simp only [Bool.and_eq_true, Bool.not_eq_true', List.isEmpty_eq_false_iff,
          List.isEmpty_iff] at h
        obtain ⟨sign, hsign, hcs, -, -⟩ := sign_skipSign cs
        have hsplit := List.takeWhile_append_dropWhile (p := Char.isDigit) (l := skipSign cs)
        rw [h.2, List.append_nil] at hsplit
        refine .inr ⟨c, sign, _, hc, hsign, h.1, fun d hd => List.mem_takeWhile_imp hd, ?_⟩
        rw [hsplit, ← hcs]
      · rintro (h | ⟨e, sign, digits, he, hsign, hne, hdigits, h⟩)
        · cases h
        · obtain ⟨rfl, rfl⟩ := List.cons.inj h
          have hhead := digit_head fun d hd => .inl (hdigits d (List.mem_of_mem_head? hd))
          have hnone : ∀ c, ([] : Text).head? = some c → c.isDigit = false := by
            intro c hc
            cases hc
          have hspan := span_digits hdigits hnone
          rw [List.append_nil] at hspan
          rw [if_pos he, skipSign_append hsign hhead, hspan.1, hspan.2]
          simp [hne]

theorem Exponent.head {t : Text} (h : Exponent t) {c : Char} (hc : t.head? = some c) :
    c = 'e' ∨ c = 'E' := by
  rcases h with rfl | ⟨e, sign, digits, he, -, -, -, rfl⟩
  · cases hc
  · cases hc
    exact he

theorem Exponent.head_not_digit {t : Text} (h : Exponent t) (c : Char) (hc : t.head? = some c) :
    c.isDigit = false := by
  rcases h.head hc with rfl | rfl <;> rfl

/-- A mantissa is a run of digits, or two of them around the point. -/
theorem Mantissa.cases {t : Text} (h : Mantissa t) :
    (t ≠ [] ∧ ∀ c ∈ t, c.isDigit = true) ∨ ∃ whole fraction, t = whole ++ '.' :: fraction ∧
      whole.length + fraction.length ≠ 0 ∧ (∀ c ∈ whole, c.isDigit = true) ∧
      ∀ c ∈ fraction, c.isDigit = true := by
  by_cases hpoint : '.' ∈ t
  · obtain ⟨whole, fraction, rfl⟩ := List.append_of_mem hpoint
    have hcount := h.point
    rw [List.count_append, List.count_cons_self] at hcount
    have hwhole : '.' ∉ whole := List.count_eq_zero.mp (by omega)
    have hfraction : '.' ∉ fraction := List.count_eq_zero.mp (by omega)
    refine .inr ⟨whole, fraction, rfl, ?_, ?_, ?_⟩
    · obtain ⟨c, hc, hdigit⟩ := h.digit
      rcases List.mem_append.mp hc with hc | hc
      · exact Nat.ne_of_gt (Nat.add_pos_left (List.length_pos_of_mem hc) _)
      · rcases List.mem_cons.mp hc with rfl | hc
        · cases hdigit
        · exact Nat.ne_of_gt (Nat.add_pos_right _ (List.length_pos_of_mem hc))
    · intro c hc
      rcases h.chars c (List.mem_append_left _ hc) with hdigit | rfl
      · exact hdigit
      · exact absurd hc hwhole
    · intro c hc
      rcases h.chars c (List.mem_append_right _ (List.mem_cons_of_mem _ hc)) with hdigit | rfl
      · exact hdigit
      · exact absurd hc hfraction
  · obtain ⟨c, hc, -⟩ := h.digit
    refine .inl ⟨List.ne_nil_of_mem hc, fun d hd => ?_⟩
    rcases h.chars d hd with hdigit | rfl
    · exact hdigit
    · exact absurd hd hpoint

theorem Mantissa.of_digits {t : Text} (hne : t ≠ []) (h : ∀ c ∈ t, c.isDigit = true) :
    Mantissa t where
  chars c hc := .inl (h c hc)
  point := by
    have hpoint : '.' ∉ t := fun hmem => absurd (h _ hmem) (by decide)
    rw [List.count_eq_zero.mpr hpoint]
    exact Nat.zero_le 1
  digit := by
    obtain ⟨c, cs, rfl⟩ := List.exists_cons_of_ne_nil hne
    exact ⟨c, List.mem_cons_self, h c List.mem_cons_self⟩

theorem Mantissa.of_point {whole fraction : Text} (hne : whole.length + fraction.length ≠ 0)
    (hwhole : ∀ c ∈ whole, c.isDigit = true) (hfraction : ∀ c ∈ fraction, c.isDigit = true) :
    Mantissa (whole ++ '.' :: fraction) where
  chars c hc := by
    rcases List.mem_append.mp hc with hc | hc
    · exact .inl (hwhole c hc)
    · exact (List.mem_cons.mp hc).symm.imp_left (hfraction c)
  point := by
    have hw : '.' ∉ whole := fun hmem => absurd (hwhole _ hmem) (by decide)
    have hf : '.' ∉ fraction := fun hmem => absurd (hfraction _ hmem) (by decide)
    rw [List.count_append, List.count_cons_self, List.count_eq_zero.mpr hw,
      List.count_eq_zero.mpr hf]
  digit := by
    cases whole with
    | cons c cs => exact ⟨c, by simp, hwhole c List.mem_cons_self⟩
    | nil =>
        cases fraction with
        | nil => exact absurd rfl hne
        | cons c cs => exact ⟨c, by simp, hfraction c List.mem_cons_self⟩

theorem literal_of_valid {s : Text} (h : validNumericLiteral s = true) : NumericLiteral s := by
  obtain ⟨sign, hsign, hs, -, -⟩ := sign_skipSign s
  have hsplit := List.takeWhile_append_dropWhile (p := Char.isDigit) (l := skipSign s)
  have hdigits : ∀ c ∈ (skipSign s).takeWhile Char.isDigit, c.isDigit = true :=
    fun c hc => List.mem_takeWhile_imp hc
  rw [validNumericLiteral] at h
  dsimp only at h
  split_ifs at h with hdot
  · obtain ⟨fs, hfs⟩ := List.head?_eq_some_iff.mp hdot
    rw [hfs, List.tail_cons] at h
    simp only [Bool.and_eq_true, decide_eq_true_eq] at h
    have hfrac := List.takeWhile_append_dropWhile (p := Char.isDigit) (l := fs)
    have hmantissa := Mantissa.of_point h.1 hdigits fun c hc => List.mem_takeWhile_imp hc
    refine ⟨sign, _, fs.dropWhile Char.isDigit, hsign, hmantissa, validExponent_iff.mp h.2, ?_⟩
    rw [List.append_assoc, List.cons_append, hfrac, ← hfs, hsplit, ← hs]
  · simp only [Bool.and_eq_true, decide_eq_true_eq] at h
    have hne : (skipSign s).takeWhile Char.isDigit ≠ [] := fun hnil => h.1 (by rw [hnil]; rfl)
    refine ⟨sign, _, (skipSign s).dropWhile Char.isDigit, hsign, .of_digits hne hdigits,
      validExponent_iff.mp h.2, ?_⟩
    rw [hsplit, ← hs]

theorem valid_of_literal {s : Text} (h : NumericLiteral s) : validNumericLiteral s = true := by
  obtain ⟨sign, mantissa, exponent, hsign, hmantissa, hexponent, rfl⟩ := h
  have hvalid := validExponent_iff.mpr hexponent
  have hhead : ∀ c, (mantissa ++ exponent).head? = some c → c.isDigit = true ∨ c = '.' := by
    intro c hc
    obtain ⟨d, hd, -⟩ := hmantissa.digit
    have hmem : c ∈ mantissa := by
      rw [List.head?_append_of_ne_nil _ (List.ne_nil_of_mem hd)] at hc
      exact List.mem_of_mem_head? hc
    exact hmantissa.chars c hmem
  rw [validNumericLiteral, skipSign_append hsign (digit_head hhead)]
  dsimp only
  rcases hmantissa.cases with ⟨hne, hdigits⟩ | ⟨whole, fraction, rfl, hne, hwhole, hfraction⟩
  · have hspan := span_digits hdigits hexponent.head_not_digit
    have hpoint : exponent.head? ≠ some '.' := fun hdot =>
      absurd (hexponent.head hdot) (by decide)
    rw [hspan.1, hspan.2, if_neg hpoint, hvalid]
    simpa using hne
  · have hpoint : ∀ c, ('.' :: (fraction ++ exponent)).head? = some c → c.isDigit = false := by
      intro c hc
      cases hc
      rfl
    have hspan := span_digits hwhole hpoint
    have hbehind := span_digits hfraction hexponent.head_not_digit
    rw [List.append_assoc, List.cons_append, hspan.1, hspan.2, List.head?_cons, if_pos rfl,
      List.tail_cons, hbehind.1, hbehind.2, hvalid, Bool.and_true]
    exact decide_eq_true hne

/-! ## What an accepted text holds -/

def isNumericChar (c : Char) : Bool :=
  c.isDigit || c == '+' || c == '-' || c == '.' || c == 'e' || c == 'E'

theorem Sign.numeric {sign : Text} (h : Sign sign) : ∀ c ∈ sign, isNumericChar c = true := by
  intro c hc
  rcases h.mem hc with rfl | rfl <;> rfl

theorem NumericLiteral.chars {s : Text} (h : NumericLiteral s) :
    ∀ c ∈ s, isNumericChar c = true := by
  obtain ⟨sign, mantissa, exponent, hsign, hmantissa, hexponent, rfl⟩ := h
  intro c hc
  rcases List.mem_append.mp hc with hc | hc
  · exact hsign.numeric c hc
  rcases List.mem_append.mp hc with hc | hc
  · rcases hmantissa.chars c hc with hdigit | rfl
    · simp [isNumericChar, hdigit]
    · rfl
  rcases hexponent with rfl | ⟨e, sign, digits, he, hsign, -, hdigits, rfl⟩
  · cases hc
  · rcases List.mem_cons.mp hc with rfl | hc
    · rcases he with rfl | rfl <;> rfl
    · rcases List.mem_append.mp hc with hc | hc
      · exact hsign.numeric c hc
      · simp [isNumericChar, hdigits c hc]

/-- A character of an append stands in the front or behind all of it. -/
private theorem append_cases {before after front rest : Text} {c : Char}
    (h : before ++ c :: after = front ++ rest) :
    (∃ z, front = before ++ c :: z) ∨ ∃ z, before = front ++ z ∧ rest = z ++ c :: after := by
  rcases List.append_eq_append_iff.mp h with ⟨z, rfl, hz⟩ | ⟨z, rfl, hz⟩
  · cases z with
    | nil => exact .inr ⟨[], by simp, hz.symm⟩
    | cons d ds =>
        obtain ⟨rfl, -⟩ := List.cons.inj hz
        exact .inl ⟨ds, rfl⟩
  · exact .inr ⟨z, rfl, hz⟩

theorem Sign.first {before after : Text} {c : Char} (h : Sign (before ++ c :: after)) :
    before = [] := by
  cases before with
  | nil => rfl
  | cons b bs => rcases h with h | h | h <;> simp at h

theorem not_sign_of_digit {c : Char} (h : c.isDigit = true ∨ c = '.') : ¬ (c = '+' ∨ c = '-') := by
  rintro (rfl | rfl) <;> revert h <;> decide

/-- A sign stands first or directly behind the exponent letter. -/
def SignsPlaced (s : Text) : Prop :=
  ∀ before c after, s = before ++ c :: after → c = '+' ∨ c = '-' →
    before = [] ∨ before.getLast? = some 'e' ∨ before.getLast? = some 'E'

theorem NumericLiteral.signs {s : Text} (h : NumericLiteral s) : SignsPlaced s := by
  obtain ⟨sign, mantissa, exponent, hsign, hmantissa, hexponent, rfl⟩ := h
  intro before c after hs hc
  rcases append_cases hs.symm with ⟨z, rfl⟩ | ⟨z, rfl, hz⟩
  · exact .inl hsign.first
  rcases append_cases hz.symm with ⟨w, rfl⟩ | ⟨w, rfl, hw⟩
  · exact absurd hc (not_sign_of_digit (hmantissa.chars c (by simp)))
  rcases hexponent with rfl | ⟨e, sign, digits, he, hsign', -, hdigits, rfl⟩
  · simp at hw
  · cases w with
    | nil =>
        obtain ⟨rfl, -⟩ := List.cons.inj hw
        rcases he with rfl | rfl <;> exact absurd hc (by decide)
    | cons d ds =>
        obtain ⟨rfl, htail⟩ := List.cons.inj hw
        rcases append_cases htail.symm with ⟨v, rfl⟩ | ⟨v, rfl, hv⟩
        · rw [hsign'.first]
          refine .inr ?_
          simpa using he
        · have hdigit : c.isDigit = true := hdigits c (by rw [hv]; simp)
          exact absurd hc (not_sign_of_digit (.inl hdigit))

/-- With its signs placed so, a text opens no line comment. -/
theorem SignsPlaced.no_lineComment {s : Text} (h : SignsPlaced s) : ¬ ['-', '-'] <:+: s := by
  rintro ⟨before, after, rfl⟩
  have hlast := h (before ++ ['-']) '-' after (by simp) (.inr rfl)
  simp at hlast

theorem not_mem_of_numeric {s : Text} (h : ∀ c ∈ s, isNumericChar c = true) {c : Char}
    (hc : isNumericChar c = false) : c ∉ s := by
  intro hmem
  rw [h c hmem] at hc
  cases hc

theorem isWhitespace_digit {c : Char} (h : c.isDigit = true) : isWhitespace c = false := by
  have hzero : '0'.toNat = 48 := rfl
  have hnine : '9'.toNat = 57 := rfl
  rw [Char.isDigit_iff_toNat] at h
  rw [isWhitespace, Bool.eq_false_iff]
  simp only [ne_eq, Bool.or_eq_true, Bool.and_eq_true, decide_eq_true_eq, beq_iff_eq]
  omega

/-- What the guard promises of a text that is written as it stands. -/
structure Harmless (s : Text) : Prop where
  chars : ∀ c ∈ s, c.isDigit = true ∨ c ∈ ['+', '-', '.', 'e', 'E']
  signs : SignsPlaced s
  lineComment : ¬ ['-', '-'] <:+: s
  blockComment : ¬ ['/', '*'] <:+: s
  quote : '\'' ∉ s ∧ '"' ∉ s ∧ '$' ∉ s
  separator : ';' ∉ s ∧ ',' ∉ s ∧ ∀ c ∈ s, isWhitespace c = false

theorem NumericLiteral.harmless {s : Text} (h : NumericLiteral s) : Harmless s where
  chars c hc := by
    have hnumeric := h.chars c hc
    simp only [isNumericChar, Bool.or_eq_true, beq_iff_eq] at hnumeric
    simp only [List.mem_cons, List.not_mem_nil, or_false]
    tauto
  signs := h.signs
  lineComment := h.signs.no_lineComment
  blockComment hcomment := not_mem_of_numeric h.chars (c := '/') rfl (hcomment.subset (by simp))
  quote := ⟨not_mem_of_numeric h.chars rfl, not_mem_of_numeric h.chars rfl,
    not_mem_of_numeric h.chars rfl⟩
  separator := by
    refine ⟨not_mem_of_numeric h.chars rfl, not_mem_of_numeric h.chars rfl, fun c hc => ?_⟩
    have hnumeric := h.chars c hc
    simp only [isNumericChar, Bool.or_eq_true, beq_iff_eq] at hnumeric
    rcases hnumeric with ((((hdigit | rfl) | rfl) | rfl) | rfl) | rfl
    · exact isWhitespace_digit hdigit
    all_goals rfl

example : validNumericBytes (toUtf8 "-12.50e+3".toList) = true := by decide

example : validNumericBytes (toUtf8 "1--2".toList) = false := by decide

end NzRust.Sql
