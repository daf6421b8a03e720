import Mathlib.Tactic.Ring
import NzRust.Types.ExactNumeric

/-!
# NUMERIC is decoded exactly

The words of a payload as one integer in two's complement, and the three ways
in which `get_cs_numeric` computes it. Each prints the decimal of that integer.
-/

namespace NzRust

namespace Numeric

open ByteString Checked

/-! ## The integer of the words -/

/-- The words of a payload, the most significant first. -/
def wordsOf : Nat → Bytes → List Nat
  | 0, _ => []
  | count + 1, data => leNat (data.take 4) :: wordsOf count (data.drop 4)

def wordsValue : List Nat → Nat
  | [] => 0
  | word :: words => word * (2 ^ 32) ^ words.length + wordsValue words

/-- The integer that the words form in two's complement. -/
def unscaledOf (count : Nat) (data : Bytes) : Int :=
  signed (32 * count) (wordsValue (wordsOf count data))

theorem word_pow_succ (n : Nat) : (2 ^ 32) ^ (n + 1) = (2 ^ 32) ^ n * 2 ^ 32 :=
  pow_succ _ n

@[simp] theorem wordsOf_length (count : Nat) (data : Bytes) : (wordsOf count data).length = count := by
  induction count generalizing data with
  | zero => rfl
  | succ count ih => simp [wordsOf, ih]

theorem leNat_word_lt {bytes : Bytes} (h : bytes.length ≤ 4) : leNat bytes < 2 ^ 32 := by
  have hpow : 256 ^ bytes.length ≤ 256 ^ 4 := Nat.pow_le_pow_right (by decide) h
  exact Nat.lt_of_lt_of_le (leNat_lt bytes) hpow

theorem wordsOf_lt (count : Nat) (data : Bytes) : ∀ w ∈ wordsOf count data, w < 2 ^ 32 := by
  induction count generalizing data with
  | zero => simp [wordsOf]
  | succ count ih =>
      intro w hw
      rcases List.mem_cons.mp hw with rfl | hw
      · exact leNat_word_lt (List.length_take_le 4 data)
      · exact ih (data.drop 4) w hw

theorem wordsValue_lt {words : List Nat} (h : ∀ w ∈ words, w < 2 ^ 32) :
    wordsValue words < (2 ^ 32) ^ words.length := by
  induction words with
  | nil => simp [wordsValue]
  | cons word words ih =>
      have hword := h word List.mem_cons_self
      have hrest := ih fun w hw => h w (List.mem_cons_of_mem word hw)
      have hmul : word * (2 ^ 32) ^ words.length ≤ (2 ^ 32 - 1) * (2 ^ 32) ^ words.length :=
        Nat.mul_le_mul_right _ (by omega)
      rw [wordsValue, List.length_cons, word_pow_succ]
      generalize (2 ^ 32) ^ words.length = power at *
      omega

theorem words_pow (count : Nat) : (2 ^ 32) ^ count = 2 ^ (32 * count) :=
  (Nat.pow_mul 2 32 count).symm

theorem unscaled_value_lt (count : Nat) (data : Bytes) :
    wordsValue (wordsOf count data) < 2 ^ (32 * count) := by
  have hlt := wordsValue_lt (wordsOf_lt count data)
  rwa [wordsOf_length, words_pow] at hlt

/-! ## Up to four words -/

theorem wordAt_eq {data : Bytes} {i : Nat} (hi : i < 5) (h : i * 4 + 4 ≤ data.length) :
    wordAt data i = .ok (leNat ((data.drop (i * 4)).take 4)) := by
  rw [wordAt, mulWord_eq (by omega), ok_bind, addWord_eq (by omega), ok_bind,
    slice_eq (by omega) h, ok_bind, Nat.add_sub_cancel_left]
  rfl

theorem shift_or {raw w : Nat} (hraw : raw < 2 ^ 96) (hw : w < 2 ^ 32) :
    (raw <<< 32) % 2 ^ 128 ||| w = raw * 2 ^ 32 + w := by
  have hshift : (raw <<< 32) % 2 ^ 128 = raw <<< 32 := by
    apply Nat.mod_eq_of_lt
    rw [Nat.shiftLeft_eq]
    omega
  rw [hshift, ← Nat.shiftLeft_add_eq_or_of_lt hw, Nat.shiftLeft_eq]

/-- The words are shifted in one after the other; `i` of them are there already. -/
theorem readWords_eq {data : Bytes} {count i raw : Nat} (hi : i + count ≤ 4)
    (h : (i + count) * 4 ≤ data.length) (hraw : raw < (2 ^ 32) ^ i) :
    readWords data count i raw =
      .ok (raw * (2 ^ 32) ^ count + wordsValue (wordsOf count (data.drop (i * 4)))) := by
  induction count generalizing i raw with
  | zero => simp [readWords, wordsOf, wordsValue]
  | succ count ih =>
      have hpow : (2 ^ 32) ^ i ≤ (2 ^ 32) ^ 3 := Nat.pow_le_pow_right (by decide) (by omega)
      have hword : leNat ((data.drop (i * 4)).take 4) < 2 ^ 32 :=
        leNat_word_lt (List.length_take_le 4 _)
      have hnext : raw * 2 ^ 32 + leNat ((data.drop (i * 4)).take 4) < (2 ^ 32) ^ (i + 1) := by
        rw [word_pow_succ]
        generalize (2 ^ 32) ^ i = power at *
        omega
      rw [readWords, shl, if_pos (by decide), ok_bind, wordAt_eq (by omega) (by omega), ok_bind,
        shift_or (by omega) hword, ih (by omega) (by omega) hnext, wordsOf, wordsValue,
        wordsOf_length, List.drop_drop, Nat.succ_mul, word_pow_succ]
      congr 1
      ring

theorem sign_bit {bits raw : Nat} (hbits : 0 < bits) (hraw : raw < 2 ^ bits) :
    raw &&& 2 ^ (bits - 1) ≠ 0 ↔ ¬raw < 2 ^ (bits - 1) := by
  obtain ⟨k, rfl⟩ : ∃ k, bits = k + 1 := ⟨bits - 1, by omega⟩
  rw [Nat.add_sub_cancel, Nat.and_two_pow, Nat.testBit_eq_decide_div_mod_eq]
  rw [Nat.pow_succ] at hraw
  have hpos : 0 < 2 ^ k := Nat.two_pow_pos k
  by_cases hlow : raw < 2 ^ k
  · rw [Nat.div_eq_of_lt hlow]
    simp [hlow]
  · have hone : raw / 2 ^ k = 1 := Nat.div_eq_of_lt_le (by omega) (by omega)
    rw [hone]
    simp [hlow]

theorem readSignedI128_eq {data : Bytes} {parts : Nat} (hpos : 0 < parts) (hparts : parts ≤ 4)
    (h : parts * 4 ≤ data.length) : readSignedI128 data parts = .ok (unscaledOf parts data) := by
  have hwords : readWords data parts 0 0 = .ok (wordsValue (wordsOf parts data)) := by
    rw [readWords_eq (by omega) (by omega) (by decide), Nat.zero_mul, Nat.zero_add]
    rfl
  have hvalue := unscaled_value_lt parts data
  rw [readSignedI128, hwords, ok_bind, unscaledOf]
  generalize wordsValue (wordsOf parts data) = raw at hvalue ⊢
  have hpow : 2 ^ (32 * parts) ≤ 2 ^ 128 := Nat.pow_le_pow_right (by decide) (by omega)
  have hhalf : 2 ^ (32 * parts) = 2 * 2 ^ (32 * parts - 1) := by
    rw [← Nat.pow_succ']
    congr 1
    omega
  have hsign : (1 <<< (32 * parts - 1)) % 2 ^ 128 = 2 ^ (32 * parts - 1) := by
    rw [Nat.shiftLeft_eq, Nat.one_mul, Nat.mod_eq_of_lt]
    omega
  rw [mulWord_eq (by omega), ok_bind, Nat.mul_comm parts 32, subWord_eq (by omega), ok_bind, shl,
    if_pos (by omega), ok_bind, hsign]
  by_cases hneg : raw &&& 2 ^ (32 * parts - 1) ≠ 0
  · rw [if_pos hneg]
    have hhigh := (sign_bit (by omega) hvalue).mp hneg
    by_cases hwide : 32 * parts = 128
    · rw [if_pos hwide, hwide]
      rfl
    rw [if_neg hwide]
    have hsmall : 2 ^ (32 * parts) ≤ 2 ^ 96 := Nat.pow_le_pow_right (by decide) (by omega)
    have hone : 1 ≤ 2 ^ (32 * parts) := Nat.one_le_two_pow
    have hlimit : (1 <<< (32 * parts)) % 2 ^ 128 = 2 ^ (32 * parts) := by
      rw [Nat.shiftLeft_eq, Nat.one_mul, Nat.mod_eq_of_lt]
      omega
    rw [shl, if_pos (by omega), ok_bind, hlimit, subWord_eq hone, ok_bind,
      Nat.and_two_pow_sub_one_eq_mod, Nat.mod_eq_of_lt hvalue, signed_eq (by omega),
      signed_eq (by omega), int_eq (by omega) (by omega), signed, if_neg hhigh]
    push_cast
    rfl
  · rw [if_neg hneg]
    have hlow : raw < 2 ^ (32 * parts - 1) := by
      by_contra hnot
      exact hneg ((sign_bit (by omega) hvalue).mpr hnot)
    rw [signed_eq hlow, signed_eq (by omega)]
    rfl

theorem readSmall_eq {data : Bytes} {parts : Nat} (hpos : 0 < parts) (hparts : parts ≤ 2)
    (h : parts * 4 ≤ data.length) : readSmall data parts = .ok (unscaledOf parts data) := by
  have hfirst : (data.take 4).length = 4 := by
    rw [List.length_take]
    omega
  have hlow := leNat_word_lt (List.length_take_le 4 data)
  rw [readSmall, slice_eq (by omega) (by omega), ok_bind]
  by_cases hone : parts = 1
  · subst hone
    rw [if_pos rfl]
    show Except.ok (leInt (data.take 4)) = _
    rw [leInt, hfirst, unscaledOf]
    simp [wordsOf, wordsValue]
  · obtain rfl : parts = 2 := by omega
    have hsecond : leNat ((data.drop 4).take 4) < 2 ^ 32 := leNat_word_lt (List.length_take_le 4 _)
    have hvalue : wordsValue (wordsOf 2 data) =
        leNat (data.take 4) * 2 ^ 32 + leNat ((data.drop 4).take 4) := by
      simp [wordsOf, wordsValue]
    rw [if_neg hone, slice_eq (by omega) (by omega), ok_bind]
    show int 64 (leInt (data.take 4) * 2 ^ 32 + (leNat ((data.drop 4).take 4) : Int)) = _
    rw [leInt, hfirst, unscaledOf, hvalue]
    generalize leNat (data.take 4) = hi at *
    generalize leNat ((data.drop 4).take 4) = lo at *
    unfold signed
    by_cases hneg : hi < 2 ^ (8 * 4 - 1)
    · rw [if_pos hneg, if_pos (by omega), int_eq (by omega) (by omega)]
      push_cast
      rfl
    · rw [if_neg hneg, if_neg (by omega), int_eq (by omega) (by omega)]
      congr 1
      push_cast
      omega

/-! ## Five words -/

theorem readLimbs_eq {data : Bytes} {count i : Nat} (hi : i + count ≤ 5)
    (h : (i + count) * 4 ≤ data.length) :
    readLimbs data count i = .ok ((wordsOf count (data.drop (i * 4))).map UInt32.ofNat) := by
  induction count generalizing i with
  | zero => rfl
  | succ count ih =>
      rw [readLimbs, wordAt_eq (by omega) (by omega), ok_bind, ih (by omega) (by omega), ok_bind,
        wordsOf, List.map_cons, List.drop_drop, Nat.succ_mul]
      rfl

theorem limbsValue_words {words : List Nat} (h : ∀ w ∈ words, w < 2 ^ 32) :
    limbsValue (words.map UInt32.ofNat) = wordsValue words := by
  induction words with
  | nil => rfl
  | cons word words ih =>
      have hword : (UInt32.ofNat word).toNat = word := by
        rw [UInt32.toNat_ofNat', Nat.mod_eq_of_lt (h word List.mem_cons_self)]
      rw [List.map_cons, limbsValue, wordsValue, hword, List.length_map,
        ih fun w hw => h w (List.mem_cons_of_mem word hw)]

theorem limbsValue_append (a b : List UInt32) :
    limbsValue (a ++ b) = limbsValue a * (2 ^ 32) ^ b.length + limbsValue b := by
  induction a with
  | nil => simp [limbsValue]
  | cons limb a ih =>
      rw [List.cons_append, limbsValue, limbsValue, ih, List.length_append, pow_add]
      ring

theorem limbsValue_snoc (limbs : List UInt32) (limb : UInt32) :
    limbsValue (limbs ++ [limb]) = limbsValue limbs * 2 ^ 32 + limb.toNat := by
  rw [limbsValue_append]
  simp [limbsValue]

theorem limbsValue_lt (limbs : List UInt32) : limbsValue limbs < (2 ^ 32) ^ limbs.length := by
  induction limbs with
  | nil => simp [limbsValue]
  | cons limb limbs ih =>
      have hlimb : limb.toNat < 2 ^ 32 := limb.toNat_lt
      have hmul : limb.toNat * (2 ^ 32) ^ limbs.length ≤ (2 ^ 32 - 1) * (2 ^ 32) ^ limbs.length :=
        Nat.mul_le_mul_right _ (by omega)
      rw [limbsValue, List.length_cons, word_pow_succ]
      generalize (2 ^ 32) ^ limbs.length = power at *
      omega

@[simp] theorem addOne_length (limbs : List UInt32) : (addOne limbs).length = limbs.length := by
  induction limbs with
  | nil => rfl
  | cons limb limbs ih =>
      rw [addOne]
      split <;> simp [ih]

/-- The carry goes on through the limbs that are full, and past the last it is lost. -/
theorem addOne_value (limbs : List UInt32) :
    limbsValue (addOne limbs).reverse = (limbsValue limbs.reverse + 1) % (2 ^ 32) ^ limbs.length := by
  induction limbs with
  | nil => rfl
  | cons limb limbs ih =>
      have hlt := limbsValue_lt limbs.reverse
      rw [List.length_reverse] at hlt
      rw [addOne, List.reverse_cons, limbsValue_snoc, List.length_cons, word_pow_succ]
      by_cases hfull : limb = 0xFFFFFFFF
      · have hlimb : limb.toNat + 1 = 2 ^ 32 := by
          rw [hfull]
          rfl
        have hsum : limbsValue limbs.reverse * 2 ^ 32 + limb.toNat + 1 =
            (limbsValue limbs.reverse + 1) * 2 ^ 32 := by omega
        rw [if_pos hfull, List.reverse_cons, limbsValue_snoc, ih, hsum, Nat.mul_mod_mul_right]
        exact Nat.add_zero _
      · have hlimb : limb.toNat < 2 ^ 32 - 1 := by
          have hle := limb.toNat_lt
          have hne : limb.toNat ≠ 2 ^ 32 - 1 := fun h => hfull (UInt32.toNat_inj.mp h)
          omega
        have hnext : (limb + 1).toNat = limb.toNat + 1 := by
          rw [UInt32.toNat_add, Nat.mod_eq_of_lt]
          · rfl
          · show limb.toNat + 1 < 2 ^ 32
            omega
        rw [if_neg hfull, List.reverse_cons, limbsValue_snoc, hnext]
        generalize (2 ^ 32) ^ limbs.length = power at *
        rw [Nat.mod_eq_of_lt (by omega), Nat.add_assoc]

theorem complement_value (limbs : List UInt32) :
    limbsValue (limbs.map fun limb => ~~~limb) + limbsValue limbs + 1 =
      (2 ^ 32) ^ limbs.length := by
  induction limbs with
  | nil => rfl
  | cons limb limbs ih =>
      have hlimb := limb.toNat_lt
      have hnot : (~~~limb).toNat + limb.toNat = 2 ^ 32 - 1 := by
        rw [UInt32.toNat_not]
        show 2 ^ 32 - 1 - limb.toNat + limb.toNat = _
        omega
      have hmul : (~~~limb).toNat * (2 ^ 32) ^ limbs.length +
          limb.toNat * (2 ^ 32) ^ limbs.length = (2 ^ 32 - 1) * (2 ^ 32) ^ limbs.length := by
        rw [← Nat.add_mul, hnot]
      rw [List.map_cons, limbsValue, limbsValue, List.length_map, List.length_cons, word_pow_succ]
      generalize (2 ^ 32) ^ limbs.length = power at *
      omega

theorem negateLimbs_value {limbs : List UInt32} (hpos : 0 < limbsValue limbs) :
    limbsValue (negateLimbs limbs) = (2 ^ 32) ^ limbs.length - limbsValue limbs := by
  have hcomplement := complement_value limbs
  unfold negateLimbs
  rw [addOne_value, List.reverse_reverse, List.length_reverse, List.length_map,
    Nat.mod_eq_of_lt (by omega)]
  omega

/-! ## Digits to the base 10⁹ -/

def digitsValue : List Nat → Nat
  | [] => 0
  | d :: ds => d + 10 ^ 9 * digitsValue ds

theorem divLimbs_rem_lt {rem : Nat} (hrem : rem < 1000000000) (limbs : List UInt32) :
    (divLimbs rem limbs).2 < 1000000000 := by
  induction limbs generalizing rem with
  | nil => exact hrem
  | cons limb limbs ih => exact ih (Nat.mod_lt _ (by decide))

theorem limbsValue_zero {limbs : List UInt32} (h : ¬limbs.any (· != 0) = true) :
    limbsValue limbs = 0 := by
  induction limbs with
  | nil => rfl
  | cons limb limbs ih =>
      simp only [List.any_cons, Bool.or_eq_true, not_or, bne_iff_ne, ne_eq, not_not] at h
      rw [limbsValue, h.1, ih h.2]
      simp

/-- Repeated division ends with the digits of the limbs, the last of them not zero. -/
theorem wideDigits_value (limbs : List UInt32) :
    digitsValue (wideDigits limbs) = limbsValue limbs ∧
      (∀ d ∈ wideDigits limbs, d < 10 ^ 9) ∧ (wideDigits limbs).getLast? ≠ some 0 := by
  fun_induction wideDigits limbs with
  | case1 limbs hany ih =>
      obtain ⟨hvalue, hdigits, hlast⟩ := ih
      have hdivision := (divLimbs_value (show 0 < 1000000000 by decide) limbs).1
      have hrem := divLimbs_rem_lt (show 0 < 1000000000 by decide) limbs
      have hpos := limbsValue_pos hany
      rw [Nat.zero_mul, Nat.zero_add] at hdivision
      refine ⟨?_, List.forall_mem_cons.mpr ⟨hrem, hdigits⟩, ?_⟩
      · rw [digitsValue, hvalue]
        omega
      · rw [List.getLast?_cons]
        cases hrest : (wideDigits (divLimbs 0 limbs).1).getLast? with
        | some d =>
            rw [hrest] at hlast
            exact hlast
        | none =>
            -- Nothing is left, so the remainder is the whole value.
            rw [List.getLast?_eq_none_iff.mp hrest, digitsValue] at hvalue
            rw [← hvalue] at hdivision
            simp only [Option.getD_none, ne_eq, Option.some.injEq]
            omega
  | case2 limbs hnone => exact ⟨(limbsValue_zero hnone).symm, by simp, by simp⟩

theorem nineDigits_eq (n : Nat) : nineDigits n = padded 9 n :=
  rfl

theorem digitsValue_pos {digits : List Nat} (hne : digits ≠ [])
    (hlast : digits.getLast? ≠ some 0) : 0 < digitsValue digits := by
  induction digits with
  | nil => exact absurd rfl hne
  | cons d digits ih =>
      rw [digitsValue]
      cases digits with
      | nil =>
          have hd : d ≠ 0 := by
            rintro rfl
            exact hlast rfl
          omega
      | cons e digits =>
          have hpos := ih (by simp) (by simpa [List.getLast?_cons] using hlast)
          omega

theorem wideText_cons {d : Nat} {digits : List Nat} (hne : digits ≠ []) :
    wideText (d :: digits) = wideText digits ++ padded 9 d := by
  obtain ⟨first, rest, hreverse⟩ :=
    List.exists_cons_of_ne_nil (List.reverse_eq_nil_iff.not.mpr hne)
  rw [wideText, wideText, List.reverse_cons, hreverse, List.cons_append]
  dsimp only
  rw [List.map_append, List.flatten_append, List.append_assoc]
  simp [nineDigits_eq]

theorem wideText_eq {digits : List Nat} (hdigits : ∀ d ∈ digits, d < 10 ^ 9)
    (hlast : digits.getLast? ≠ some 0) : wideText digits = Nat.toDigits 10 (digitsValue digits) := by
  induction digits with
  | nil => rfl
  | cons d digits ih =>
      by_cases hne : digits = []
      · subst hne
        simp [wideText, digitsValue]
      · have hlast' : digits.getLast? ≠ some 0 := by
          obtain ⟨e, rest, rfl⟩ := List.exists_cons_of_ne_nil hne
          simpa [List.getLast?_cons] using hlast
        have hpos := digitsValue_pos hne hlast'
        rw [wideText_cons hne, ih (fun e he => hdigits e (List.mem_cons_of_mem d he)) hlast',
          digitsValue, Nat.add_comm, toDigits_append_padded hpos (by decide)
            (hdigits d List.mem_cons_self)]

/-! ## The decimal point -/

theorem insertAt_append (front back : Text) (c : Char) :
    insertAt (front ++ back) front.length c = .ok (front ++ c :: back) := by
  rw [insertAt, if_pos (by rw [List.length_append]; omega), List.take_left, List.drop_left]

theorem insertZeros_append (n : Nat) (front back : Text) :
    insertZeros n (front ++ back) front.length = .ok (front ++ (List.replicate n '0' ++ back)) := by
  induction n generalizing back with
  | zero => rfl
  | succ n ih =>
      rw [insertZeros, insertAt_append, ok_bind, ih, List.replicate_succ', List.append_assoc]
      rfl

/-- Behind a sign, the digits of a number get their point. -/
theorem insertDecimalPoint_eq (sign : Text) (n : Nat) {scale : Nat} (hscale : 0 < scale) :
    insertDecimalPoint (sign ++ Nat.toDigits 10 n) sign.length scale =
      .ok (sign ++ (Nat.toDigits 10 (n / 10 ^ scale) ++ '.' :: padded scale (n % 10 ^ scale))) := by
  have hdigits : (sign ++ Nat.toDigits 10 n).length - sign.length = (Nat.toDigits 10 n).length := by
    rw [List.length_append, Nat.add_sub_cancel_left]
  rw [insertDecimalPoint, subWord_eq (by rw [List.length_append]; omega), ok_bind, hdigits]
  by_cases hshort : (Nat.toDigits 10 n).length ≤ scale
  · have hlt : n < 10 ^ scale := (Nat.length_toDigits_le_iff (by decide) hscale).mp hshort
    have hzero : sign ++ '0' :: Nat.toDigits 10 n = (sign ++ ['0']) ++ Nat.toDigits 10 n := by simp
    have hpoint : sign ++ ['0'] ++ '.' :: Nat.toDigits 10 n =
        (sign ++ ['0', '.']) ++ Nat.toDigits 10 n := by simp
    have hone : sign.length + 1 = (sign ++ ['0']).length := by simp
    have htwo : sign.length + 2 = (sign ++ ['0', '.']).length := by simp
    rw [if_pos hshort, insertAt_append, ok_bind, hone, hzero, insertAt_append, ok_bind, htwo, hpoint,
      insertZeros_append, Nat.div_eq_of_lt hlt, Nat.mod_eq_of_lt hlt, List.append_assoc]
    rfl
  · have hge : 10 ^ scale ≤ n := by
      by_contra hnot
      exact hshort ((Nat.length_toDigits_le_iff (by decide) hscale).mpr (Nat.lt_of_not_le hnot))
    have hmod : n % 10 ^ scale < 10 ^ scale := Nat.mod_lt _ (Nat.pow_pos (by decide))
    have happend := toDigits_append_padded (Nat.div_pos hge (Nat.pow_pos (by decide))) hscale hmod
    rw [Nat.div_add_mod] at happend
    have hfront : (sign ++ Nat.toDigits 10 n).length - scale =
        (sign ++ Nat.toDigits 10 (n / 10 ^ scale)).length := by
      rw [happend, List.length_append, List.length_append, padded_length hscale hmod,
        List.length_append]
      omega
    rw [if_neg hshort, subWord_eq (by rw [List.length_append]; omega), ok_bind, hfront, happend,
      ← List.append_assoc, insertAt_append, List.append_assoc]

theorem writeScaledDecimal_eq (unscaled : Int) (scale : Nat) :
    writeScaledDecimal unscaled.natAbs scale (decide (unscaled < 0)) =
      .ok (canonicalText unscaled scale) := by
  have hsigned : (decide (unscaled < 0) && unscaled.natAbs != 0) = decide (unscaled < 0) := by
    by_cases hneg : unscaled < 0
    · have hne : unscaled.natAbs ≠ 0 := by omega
      simp [hneg, hne]
    · simp [hneg]
  have hlength : (if unscaled < 0 then ['-'] else []).length = (decide (unscaled < 0)).toNat := by
    by_cases hneg : unscaled < 0 <;> simp [hneg]
  unfold writeScaledDecimal canonicalText
  rw [hsigned]
  simp only [decide_eq_true_eq]
  by_cases hzero : scale = 0
  · rw [if_pos hzero, if_pos hzero, hzero, Nat.pow_zero, Nat.div_one, List.append_nil]
  · rw [if_neg hzero, if_neg hzero, ← hlength, insertDecimalPoint_eq _ _ (Nat.pos_of_ne_zero hzero)]

/-! ## The sign of five words -/

theorem canonicalText_nat (n scale : Nat) :
    canonicalText n scale = Nat.toDigits 10 (n / 10 ^ scale) ++
      if scale = 0 then [] else '.' :: padded scale (n % 10 ^ scale) := by
  have hneg : ¬(n : Int) < 0 := by omega
  rw [canonicalText, if_neg hneg, Int.natAbs_natCast, List.nil_append]

theorem canonicalText_neg {n : Nat} (hn : 0 < n) (scale : Nat) :
    canonicalText (-n) scale = '-' :: canonicalText n scale := by
  have hneg : (-n : Int) < 0 := by omega
  rw [canonicalText_nat, canonicalText, if_pos hneg, Int.natAbs_neg, Int.natAbs_natCast]
  rfl

/-- A text of zeros denotes zero. -/
theorem canonicalText_zeros {n scale : Nat}
    (h : (canonicalText n scale).all (fun c => c == '0' || c == '.') = true) : n = 0 := by
  have hmag := printedDecimal_magnitude (n : Int) scale
  have hdigits := (printedDecimal (n : Int) scale).digits
  rw [← printedDecimal_text] at h
  rw [Int.natAbs_natCast] at hmag
  generalize printedDecimal (n : Int) scale = d at *
  have hzeros : ∀ c ∈ d.whole ++ d.decimals.getD [], c = '0' := by
    intro c hc
    have hmem : c ∈ d.text := by
      rcases List.mem_append.mp hc with hc | hc
      · exact List.mem_append_right _ (List.mem_append_left _ hc)
      · cases hdecimals : d.decimals with
        | none =>
            rw [hdecimals] at hc
            cases hc
        | some decimals =>
            rw [hdecimals] at hc
            apply List.mem_append_right
            apply List.mem_append_right
            rw [hdecimals]
            exact List.mem_cons_of_mem _ hc
    have hchar := List.all_eq_true.mp h c hmem
    simp only [Bool.or_eq_true, beq_iff_eq] at hchar
    rcases hchar with rfl | rfl
    · rfl
    · cases hdigits '.' hc
  rw [← hmag, DecimalText.magnitude, List.eq_replicate_of_mem hzeros,
    Nat.ofDigitChars_replicate_zero, Nat.mul_zero]

theorem high_sign {words : List Nat} {word : Nat} (hword : word < 2 ^ 32)
    (h : ∀ w ∈ words, w < 2 ^ 32) :
    UInt32.ofNat word &&& (1 : UInt32) <<< 31 ≠ 0 ↔
      ¬wordsValue (word :: words) < 2 ^ (32 * (words.length + 1) - 1) := by
  have hmask : UInt32.ofNat word &&& (1 : UInt32) <<< 31 ≠ 0 ↔ word &&& 2 ^ (32 - 1) ≠ 0 := by
    rw [ne_eq, ← UInt32.toNat_inj, UInt32.toNat_and, UInt32.toNat_ofNat', Nat.mod_eq_of_lt hword]
    rfl
  have hrest := wordsValue_lt h
  have hhalf : 2 ^ (32 * (words.length + 1) - 1) = 2 ^ 31 * (2 ^ 32) ^ words.length := by
    rw [words_pow, ← pow_add]
    congr 1
    omega
  rw [hmask, sign_bit (by decide) hword, wordsValue, hhalf, not_iff_not]
  show word < 2 ^ 31 ↔ _
  generalize (2 ^ 32) ^ words.length = power at *
  constructor
  · intro hlow
    have hmul : (word + 1) * power ≤ 2 ^ 31 * power := Nat.mul_le_mul_right power hlow
    rw [Nat.succ_mul] at hmul
    omega
  · intro hlow
    by_contra hnot
    have hmul : 2 ^ 31 * power ≤ word * power := Nat.mul_le_mul_right power (Nat.le_of_not_lt hnot)
    omega

theorem wideText_point (limbs : List UInt32) (scale : Nat) :
    (if scale ≠ 0 then insertDecimalPoint (wideText (wideDigits limbs)) 0 scale
      else .ok (wideText (wideDigits limbs))) = .ok (canonicalText (limbsValue limbs) scale) := by
  obtain ⟨hvalue, hdigits, hlast⟩ := wideDigits_value limbs
  rw [wideText_eq hdigits hlast, hvalue, canonicalText_nat]
  by_cases hzero : scale = 0
  · rw [if_neg (by simp [hzero]), if_pos hzero, hzero, Nat.pow_zero, Nat.div_one, List.append_nil]
  · rw [if_pos hzero, if_neg hzero]
    exact insertDecimalPoint_eq [] _ (Nat.pos_of_ne_zero hzero)

theorem decodeWide_eq {N : Numerics} (ops : NumberOps N) {data : Bytes} {parts : Nat}
    (hpos : 0 < parts) (hparts : parts ≤ 5) (h : parts * 4 ≤ data.length) (prec : Int)
    (scale : Nat) :
    decodeWide ops data parts prec scale =
      .ok (classifyNumeric ops (canonicalText (unscaledOf parts data) scale) prec) := by
  obtain ⟨count, rfl⟩ : ∃ count, parts = count + 1 := ⟨parts - 1, by omega⟩
  have hwords := wordsOf_lt (count + 1) data
  have hvalue := unscaled_value_lt (count + 1) data
  have hlength := wordsOf_length count (data.drop 4)
  rw [decodeWide, readLimbs_eq (by omega) (by omega), ok_bind, Nat.zero_mul, List.drop_zero,
    unscaledOf]
  rw [wordsOf] at hwords hvalue ⊢
  generalize leNat (data.take 4) = word at *
  generalize wordsOf count (data.drop 4) = words at *
  have hword := hwords word List.mem_cons_self
  have hrest : ∀ w ∈ words, w < 2 ^ 32 := fun w hw => hwords w (List.mem_cons_of_mem word hw)
  have hsign := high_sign hword hrest
  have hlimbs := limbsValue_words hwords
  rw [List.map_cons] at hlimbs ⊢
  rw [index, List.getElem?_cons_zero]
  dsimp only
  rw [ok_bind]
  by_cases hneg : UInt32.ofNat word &&& (1 : UInt32) <<< 31 ≠ 0
  · have hhigh := hsign.mp hneg
    have hpow : (2 ^ 32) ^ (words.length + 1) = 2 ^ (32 * (count + 1)) := by
      rw [hlength, words_pow]
    have hhalf := Nat.two_pow_pos (32 * (words.length + 1) - 1)
    have hpos : 0 < limbsValue (UInt32.ofNat word :: words.map UInt32.ofNat) := by
      rw [hlimbs]
      omega
    have hnegate := negateLimbs_value hpos
    rw [hlimbs, List.length_cons, List.length_map, hpow] at hnegate
    rw [hlength] at hhigh
    have hmag : 0 < 2 ^ (32 * (count + 1)) - wordsValue (word :: words) := by omega
    have hunscaled : signed (32 * (count + 1)) (wordsValue (word :: words)) =
        -((2 ^ (32 * (count + 1)) - wordsValue (word :: words) : Nat) : Int) := by
      rw [signed, if_neg hhigh, Nat.cast_sub (Nat.le_of_lt hvalue)]
      push_cast
      omega
    simp only [decide_eq_true hneg, if_true]
    rw [wideText_point, ok_bind, hnegate, hunscaled, canonicalText_neg hmag]
    have hzeros : ¬((canonicalText ((2 ^ (32 * (count + 1)) - wordsValue (word :: words) : Nat) : Int)
        scale).all (fun c => c == '0' || c == '.') = true) := by
      intro hall
      have := canonicalText_zeros hall
      omega
    have hne : canonicalText ((2 ^ (32 * (count + 1)) - wordsValue (word :: words) : Nat) : Int)
        scale ≠ ['0'] := by
      intro htext
      rw [htext] at hzeros
      exact hzeros rfl
    rw [if_pos ⟨trivial, hne, hzeros⟩]
    rfl
  · have hlow : wordsValue (word :: words) < 2 ^ (32 * (count + 1) - 1) := by
      by_contra hnot
      rw [← hlength] at hnot
      exact hneg (hsign.mpr hnot)
    simp only [decide_eq_false hneg, Bool.false_eq_true, if_false]
    rw [wideText_point, ok_bind, hlimbs, signed, if_pos hlow, if_neg (by simp)]
    rfl

/-! ## The decoder -/

section Exact

variable {N : Numerics} (ops : NumberOps N)

theorem exactText_eq (unscaled : Int) (scale : Nat) (prec : Int) :
    exactText ops unscaled scale prec =
      .ok (classifyNumeric ops (canonicalText unscaled scale) prec) := by
  rw [exactText, writeScaledDecimal_eq]
  rfl

/-- What a decoded number may be, but a float: the decimal with these parts, or its text. -/
def Exactly (unscaled : Int) (scale : Nat) : NumericDecoded N → Prop
  | .number _ => True
  | .decimal value => ops.decimalOfParts unscaled scale = some value
  | .exact text => text = canonicalText unscaled scale

theorem exactly_classify (unscaled : Int) (scale : Nat) (prec : Int) :
    Exactly ops unscaled scale (classifyNumeric ops (canonicalText unscaled scale) prec) := by
  unfold classifyNumeric
  split
  · split
    · split
      · trivial
      · exact rfl
    · exact rfl
  · exact rfl

theorem exactly_small {unscaled : Int} {scale : Nat} {value : N.Decimal}
    (h : decimalFromI128 ops unscaled scale = some value) :
    Exactly ops unscaled scale (smallNumber ops unscaled scale value) := by
  have hparts : ops.decimalOfParts unscaled scale = some value := by
    unfold decimalFromI128 at h
    split at h
    · exact h
    · cases h
  unfold smallNumber
  dsimp only
  split
  · split
    · trivial
    · exact hparts
  · exact hparts

theorem exactly_decimal {unscaled : Int} {scale : Nat} {value : N.Decimal}
    (h : decimalFromI128 ops unscaled scale = some value) :
    Exactly ops unscaled scale (.decimal value) := by
  unfold decimalFromI128 at h
  split at h
  · exact h
  · cases h

/-- The columns that are decoded. -/
def Shaped (prec scale digitCount : Int) : Prop :=
  (0 ≤ prec ∧ prec ≤ 38) ∧ (0 ≤ scale ∧ scale ≤ 38) ∧ (0 ≤ digitCount ∧ digitCount ≤ 5)

theorem not_shaped_iff {prec scale digitCount : Int} :
    ¬Shaped prec scale digitCount ↔
      ¬(0 ≤ prec ∧ prec ≤ 38) ∨ ¬(0 ≤ scale ∧ scale ≤ 38) ∨ ¬(0 ≤ digitCount ∧ digitCount ≤ 5) := by
  unfold Shaped
  omega

/-- With its words there, a number of an allowed shape is decoded to what they say. -/
theorem getCsNumeric_exact {data : Bytes} {prec scale digitCount : Int}
    (hshape : Shaped prec scale digitCount) (h : partCount prec digitCount * 4 ≤ data.length) :
    ∃ decoded, getCsNumeric ops data prec scale digitCount = .ok decoded ∧
      Exactly ops (unscaledOf (partCount prec digitCount) data) scale.toNat decoded := by
  have hnot := not_shaped_iff.not.mp (not_not.mpr hshape)
  obtain ⟨hpos, hparts⟩ := partCount_range hnot
  unfold getCsNumeric
  rw [if_neg hnot]
  dsimp only
  rw [mulWord_eq (by omega), ok_bind, if_neg (by omega)]
  generalize partCount prec digitCount = parts at *
  by_cases hsmall : parts ≤ 2 ∧ prec ≤ 15
  · rw [if_pos hsmall, readSmall_eq hpos hsmall.1 h, ok_bind]
    cases hdecimal : decimalFromI128 ops (unscaledOf parts data) scale.toNat with
    | some value => exact ⟨_, rfl, exactly_small ops hdecimal⟩
    | none => exact ⟨_, exactText_eq ops _ _ prec, exactly_classify ops _ _ prec⟩
  rw [if_neg hsmall]
  by_cases hfour : parts ≤ 4
  · rw [if_pos hfour, readSignedI128_eq hpos hfour h, ok_bind]
    cases hdecimal : decimalFromI128 ops (unscaledOf parts data) scale.toNat with
    | some value => exact ⟨_, rfl, exactly_decimal ops hdecimal⟩
    | none => exact ⟨_, exactText_eq ops _ _ prec, exactly_classify ops _ _ prec⟩
  · rw [if_neg hfour, decodeWide_eq ops hpos hparts h]
    exact ⟨_, rfl, exactly_classify ops _ _ prec⟩

theorem getCsNumeric_refused {data : Bytes} {prec scale digitCount : Int}
    (h : ¬Shaped prec scale digitCount ∨ data.length < partCount prec digitCount * 4) :
    ∃ e, getCsNumeric ops data prec scale digitCount = fail e := by
  unfold getCsNumeric
  by_cases hshape : Shaped prec scale digitCount
  · have hnot := not_shaped_iff.not.mp (not_not.mpr hshape)
    have hparts := partCount_range hnot
    have hshort := h.resolve_left (not_not.mpr hshape)
    rw [if_neg hnot]
    dsimp only
    rw [mulWord_eq (by omega), ok_bind, if_pos hshort]
    exact ⟨_, rfl⟩
  · rw [if_pos (not_shaped_iff.mp hshape)]
    exact ⟨_, rfl⟩

/-- `try_from_i128_with_scale` keeps coefficient and scale, and takes 96 bits at most. -/
structure DecimalLaws (mantissa : N.Decimal → Int) : Prop where
  parts : ∀ coefficient scale value, ops.decimalOfParts coefficient scale = some value →
    coefficient.natAbs < 2 ^ 96 ∧ mantissa value = coefficient ∧ ops.decimalScale value = scale

theorem numeric_decoding_exact {mantissa : N.Decimal → Int} (hlaws : DecimalLaws ops mantissa)
    (data : Bytes) (prec scale digitCount : Int) :
    getCsNumeric ops data prec scale digitCount ≠ panics ∧
    ((∃ e, getCsNumeric ops data prec scale digitCount = fail e) ↔
      ¬Shaped prec scale digitCount ∨ data.length < partCount prec digitCount * 4) ∧
    (∀ value, getCsNumeric ops data prec scale digitCount = .ok (.decimal value) →
      mantissa value = unscaledOf (partCount prec digitCount) data ∧
        ops.decimalScale value = scale.toNat) ∧
    ∀ text, getCsNumeric ops data prec scale digitCount = .ok (.exact text) →
      ∃ d : DecimalText, d.text = text ∧ d.Canonical ∧
        d.coefficient = unscaledOf (partCount prec digitCount) data ∧ d.scale = scale.toNat := by
  refine ⟨(getCsNumeric_safe ops data prec scale digitCount).no_panic, ?_⟩
  by_cases hrefused : ¬Shaped prec scale digitCount ∨ data.length < partCount prec digitCount * 4
  · obtain ⟨e, he⟩ := getCsNumeric_refused ops hrefused
    rw [he]
    refine ⟨iff_of_true ⟨e, rfl⟩ hrefused, ?_, ?_⟩
    · intro value hvalue
      cases hvalue
    · intro text htext
      cases htext
  · have hshape : Shaped prec scale digitCount := by
      by_contra hnot
      exact hrefused (.inl hnot)
    have hlong : partCount prec digitCount * 4 ≤ data.length := by
      by_contra hnot
      exact hrefused (.inr (Nat.lt_of_not_le hnot))
    obtain ⟨decoded, hdecoded, hexact⟩ := getCsNumeric_exact ops hshape hlong
    rw [hdecoded]
    refine ⟨iff_of_false ?_ hrefused, ?_, ?_⟩
    · rintro ⟨e, he⟩
      cases he
    · intro value hvalue
      cases hvalue
      exact (hlaws.parts _ _ value hexact).2
    · intro text htext
      cases htext
      exact ⟨printedDecimal _ _, (printedDecimal_text _ _).trans hexact.symm,
        printedDecimal_canonical _ _, printedDecimal_coefficient _ _, printedDecimal_scale _ _⟩

end Exact

/-- Decimals as their parts, for numbers that are not decoded to floats. -/
def pairNumerics : Numerics where
  F32 := Unit
  F64 := Unit
  Decimal := Int × Nat
  f32ToF64 := id
  f64IsFinite _ := true
  displayF64 _ := []
  displayDecimal value := canonicalText value.1 value.2

def pairOps : NumberOps pairNumerics where
  f32OfBits _ := ()
  f64OfBits _ := ()
  parseF32 _ := none
  parseF64 _ := none
  parseDecimal _ := none
  quotient _ _ := ()
  decimalOfF64 _ := none
  decimalOfParts coefficient scale :=
    if coefficient.natAbs < 2 ^ 96 ∧ scale ≤ 28 then some (coefficient, scale) else none
  decimalEq (a b : Int × Nat) := a.1 * 10 ^ b.2 == b.1 * 10 ^ a.2
  decimalScale (value : Int × Nat) := value.2

theorem pairOps_laws : DecimalLaws pairOps Prod.fst where
  parts coefficient scale value h := by
    change (if coefficient.natAbs < 2 ^ 96 ∧ scale ≤ 28 then some (coefficient, scale) else none) =
      some value at h
    split at h
    · next hfits =>
        cases h
        exact ⟨hfits.1, rfl, rfl⟩
    · cases h

def minusThree : Bytes :=
  [0xff, 0xff, 0xff, 0xff, 0xff, 0xff, 0xff, 0xff, 0xff, 0xff, 0xff, 0xff, 0xfd, 0xff, 0xff, 0xff]

theorem minusThree_exact :
    getCsNumeric pairOps minusThree 38 2 4 = .ok (.decimal (-3, 2)) ∧
      unscaledOf 4 minusThree = -3 :=
  ⟨rfl, ((numeric_decoding_exact pairOps pairOps_laws minusThree 38 2 4).2.2.1 (-3, 2) rfl).1.symm⟩

end Numeric

end NzRust
