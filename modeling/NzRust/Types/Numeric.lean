import Mathlib.Algebra.Order.Ring.Int
import Mathlib.Tactic.LinearCombination
import NzRust.Lib.Bytes
import NzRust.Lib.Checked
import NzRust.Types.Value

/-!
# NUMERIC

`get_cs_numeric`: little-endian 32-bit words, the most significant first, in
two's complement, with an implied decimal point. The operations on floats and
on `rust_decimal` are parameters; the integers are checked where the source's
are.
-/

namespace NzRust

open ByteString Checked

/-- What the decoders call on `f32`, `f64` and `Decimal`. -/
structure NumberOps (N : Numerics) where
  f32OfBits : Nat → N.F32
  f64OfBits : Nat → N.F64
  parseF32 : Text → Option N.F32
  parseF64 : Text → Option N.F64
  parseDecimal : Text → Option N.Decimal
  /-- `unscaled as f64 / 10f64.powi(scale)`. -/
  quotient : Int → Nat → N.F64
  decimalOfF64 : N.F64 → Option N.Decimal
  /-- `Decimal::try_from_i128_with_scale`. -/
  decimalOfParts : Int → Nat → Option N.Decimal
  decimalEq : N.Decimal → N.Decimal → Bool
  decimalScale : N.Decimal → Nat

inductive NumericDecoded (N : Numerics) where
  | number (n : N.F64)
  | decimal (value : N.Decimal)
  | exact (text : Text)

def NumericDecoded.value {N : Numerics} : NumericDecoded N → NzValue N
  | .number n => .float8 n
  | .decimal value => .decimal value
  | .exact text => .numeric text

namespace Numeric

variable {N : Numerics} (ops : NumberOps N)

/-! ## Text -/

/-- `String::insert` into an ASCII text. -/
def insertAt (out : Text) (pos : Nat) (c : Char) : Exec NzError Text :=
  if pos ≤ out.length then .ok (out.take pos ++ c :: out.drop pos) else panics

def insertZeros : Nat → Text → Nat → Exec NzError Text
  | 0, out, _ => .ok out
  | n + 1, out, pos => do
      let out ← insertAt out pos '0'
      insertZeros n out pos

def insertDecimalPoint (out : Text) (signLen scale : Nat) : Exec NzError Text := do
  let digitLen ← subWord out.length signLen
  if digitLen ≤ scale then
    let out ← insertAt out signLen '0'
    let out ← insertAt out (signLen + 1) '.'
    insertZeros (scale - digitLen) out (signLen + 2)
  else
    let point ← subWord out.length scale
    insertAt out point '.'

def writeScaledDecimal (magnitude scale : Nat) (negative : Bool) : Exec NzError Text :=
  let signed := negative && magnitude != 0
  let out := (if signed then ['-'] else []) ++ Nat.toDigits 10 magnitude
  if scale = 0 then .ok out else insertDecimalPoint out signed.toNat scale

/-- A value of at most 15 digits that an `f64` prints alike becomes one. -/
def classifyNumeric (text : Text) (prec : Int) : NumericDecoded N :=
  if prec ≤ 15 then
    match ops.parseF64 text with
    | some num => if N.displayF64 num = text then .number num else .exact text
    | none => .exact text
  else .exact text

/-! ## Words -/

/-- `<<` on unsigned integers of `bits` bits, which panics on a shift of the whole width. -/
def shl (bits a n : Nat) : Exec NzError Nat :=
  if n < bits then .ok ((a <<< n) % 2 ^ bits) else panics

/-- The word at an index. -/
def wordAt (data : Bytes) (i : Nat) : Exec NzError Nat := do
  let start ← mulWord 64 i 4
  let stop ← addWord 64 start 4
  let bytes ← slice data start stop
  return leNat bytes

def readWords (data : Bytes) : (count i raw : Nat) → Exec NzError Nat
  | 0, _, raw => .ok raw
  | count + 1, i, raw => do
      let shifted ← shl 128 raw 32
      let w ← wordAt data i
      readWords data count (i + 1) (shifted ||| w)

def readSignedI128 (data : Bytes) (partCount : Nat) : Exec NzError Int := do
  let raw ← readWords data partCount 0 0
  let totalBits ← mulWord 64 partCount 32
  let signBit ← shl 128 1 (← subWord totalBits 1)
  if raw &&& signBit ≠ 0 then
    if totalBits = 128 then return signed 128 raw
    else
      let limit ← shl 128 1 totalBits
      let full ← subWord limit 1
      int 128 (signed 128 (raw &&& full) - signed 128 limit)
  else return signed 128 raw

/-! ## Five words -/

def limbsValue : List UInt32 → Nat
  | [] => 0
  | limb :: limbs => limb.toNat * (2 ^ 32) ^ limbs.length + limbsValue limbs

/-- Add one, the least significant limb first. -/
def addOne : List UInt32 → List UInt32
  | [] => []
  | limb :: limbs => if limb = 0xFFFFFFFF then 0 :: addOne limbs else (limb + 1) :: limbs

def negateLimbs (limbs : List UInt32) : List UInt32 :=
  (addOne (limbs.map fun limb => ~~~limb).reverse).reverse

/-- One division by 10⁹ from the most significant limb on. -/
def divLimbs : Nat → List UInt32 → List UInt32 × Nat
  | rem, [] => ([], rem)
  | rem, limb :: limbs =>
      let cur := rem <<< 32 ||| limb.toNat
      let next := divLimbs (cur % 1000000000) limbs
      (UInt32.ofNat (cur / 1000000000) :: next.1, next.2)

/-- The limbs after the division hold the quotient. -/
theorem divLimbs_value {rem : Nat} (hrem : rem < 1000000000) (limbs : List UInt32) :
    limbsValue (divLimbs rem limbs).1 * 1000000000 + (divLimbs rem limbs).2 =
        rem * (2 ^ 32) ^ limbs.length + limbsValue limbs ∧
      (divLimbs rem limbs).1.length = limbs.length := by
  induction limbs generalizing rem with
  | nil => simp [divLimbs, limbsValue]
  | cons limb limbs ih =>
      have hlimb : limb.toNat < 2 ^ 32 := limb.toNat_lt
      have hcur : rem <<< 32 ||| limb.toNat = rem * 2 ^ 32 + limb.toNat := by
        rw [← Nat.shiftLeft_add_eq_or_of_lt hlimb, Nat.shiftLeft_eq]
      have hquotient : (UInt32.ofNat ((rem * 2 ^ 32 + limb.toNat) / 1000000000)).toNat =
          (rem * 2 ^ 32 + limb.toNat) / 1000000000 := by
        rw [UInt32.toNat_ofNat', Nat.mod_eq_of_lt (by omega)]
      have hdivision := Nat.div_add_mod (rem * 2 ^ 32 + limb.toNat) 1000000000
      obtain ⟨hvalue, hlength⟩ := ih (Nat.mod_lt (rem * 2 ^ 32 + limb.toNat) (by decide))
      simp only [divLimbs, hcur, limbsValue, hlength, hquotient, List.length_cons]
      refine ⟨?_, trivial⟩
      linear_combination hvalue + (2 ^ 32) ^ limbs.length * hdivision

theorem limbsValue_pos {limbs : List UInt32} (h : limbs.any (· != 0) = true) :
    0 < limbsValue limbs := by
  induction limbs with
  | nil => cases h
  | cons limb limbs ih =>
      by_cases hzero : limb = 0
      · subst hzero
        have hrest : limbs.any (· != 0) = true := by simpa using h
        have hpos := ih hrest
        simp only [limbsValue]
        omega
      · have hlimb : 0 < limb.toNat := by
          have hne : limb.toNat ≠ 0 := fun hnat => hzero (UInt32.toNat_inj.mp hnat)
          omega
        have hpos : 0 < limb.toNat * (2 ^ 32) ^ limbs.length :=
          Nat.mul_pos hlimb (Nat.pow_pos (by decide))
        simp only [limbsValue]
        omega

/-- Digits to the base 10⁹, the least significant first. -/
def wideDigits (limbs : List UInt32) : List Nat :=
  if _h : limbs.any (· != 0) then
    (divLimbs 0 limbs).2 :: wideDigits (divLimbs 0 limbs).1
  else []
termination_by limbsValue limbs
decreasing_by
  have hvalue := (divLimbs_value (show 0 < 1000000000 by decide) limbs).1
  have hpos := limbsValue_pos _h
  omega

/-- `{:09}`. -/
def nineDigits (n : Nat) : Text :=
  let digits := Nat.toDigits 10 n
  List.replicate (9 - digits.length) '0' ++ digits

def wideText (digits : List Nat) : Text :=
  match digits.reverse with
  | [] => ['0']
  | first :: rest => Nat.toDigits 10 first ++ (rest.map nineDigits).flatten

def readLimbs (data : Bytes) : (count i : Nat) → Exec NzError (List UInt32)
  | 0, _ => .ok []
  | count + 1, i => do
      let w ← wordAt data i
      let rest ← readLimbs data count (i + 1)
      return UInt32.ofNat w :: rest

/-- More than four words. -/
def decodeWide (data : Bytes) (partCount : Nat) (prec : Int) (scale : Nat) :
    Exec NzError (NumericDecoded N) := do
  let limbs ← readLimbs data partCount 0
  let high ← index limbs 0
  let negative := decide (high &&& ((1 : UInt32) <<< 31) ≠ 0)
  let limbs := if negative then negateLimbs limbs else limbs
  let text := wideText (wideDigits limbs)
  let text ← (if scale ≠ 0 then insertDecimalPoint text 0 scale else .ok text)
  let text :=
    if negative ∧ text ≠ ['0'] ∧ ¬text.all (fun c => c == '0' || c == '.') then '-' :: text
    else text
  return classifyNumeric ops text prec

/-! ## The decoder -/

def invalidShape : NzError :=
  .protocol "invalid NUMERIC precision, scale or word count"

def truncatedPayload (held need : Nat) : NzError :=
  .protocol s!"numeric payload truncated: have {held} bytes, need {need}"

def partCount (prec digitCount : Int) : Nat :=
  if 0 < digitCount then digitCount.toNat
  else if prec ≤ 9 then 1
  else if prec ≤ 18 then 2
  else 4

def decimalFromI128 (unscaled : Int) (scale : Nat) : Option N.Decimal :=
  if scale ≤ 28 then ops.decimalOfParts unscaled scale else none

/-- One or two words as an `i64`. -/
def readSmall (data : Bytes) (partCount : Nat) : Exec NzError Int := do
  let first ← slice data 0 4
  if partCount = 1 then return leInt first
  else
    let second ← slice data 4 8
    -- `(hi << 32) + lo`
    int 64 (leInt first * 2 ^ 32 + leNat second)

/-- A float where it prints back to the same decimal, else a decimal. -/
def smallNumber (unscaled : Int) (scale : Nat) (value : N.Decimal) : NumericDecoded N :=
  let number := ops.quotient unscaled scale
  match ops.decimalOfF64 number with
  | some roundTripped =>
      if ops.decimalEq roundTripped value ∧
          ops.decimalScale roundTripped = ops.decimalScale value then .number number
      else .decimal value
  | none => .decimal value

def exactText (unscaled : Int) (scale : Nat) (prec : Int) : Exec NzError (NumericDecoded N) := do
  let text ← writeScaledDecimal unscaled.natAbs scale (decide (unscaled < 0))
  return classifyNumeric ops text prec

def getCsNumeric (data : Bytes) (prec scale digitCount : Int) :
    Exec NzError (NumericDecoded N) :=
  if ¬(0 ≤ prec ∧ prec ≤ 38) ∨ ¬(0 ≤ scale ∧ scale ≤ 38) ∨ ¬(0 ≤ digitCount ∧ digitCount ≤ 5) then
    fail invalidShape
  else do
    let parts := partCount prec digitCount
    let need ← mulWord 64 parts 4
    if data.length < need then fail (truncatedPayload data.length need)
    else if parts ≤ 2 ∧ prec ≤ 15 then
      let unscaled ← readSmall data parts
      match decimalFromI128 ops unscaled scale.toNat with
      | some value => return smallNumber ops unscaled scale.toNat value
      | none => exactText ops unscaled scale.toNat prec
    else if parts ≤ 4 then
      let unscaled ← readSignedI128 data parts
      match decimalFromI128 ops unscaled scale.toNat with
      | some value => return .decimal value
      | none => exactText ops unscaled scale.toNat prec
    else decodeWide ops data parts prec scale.toNat

/-! ## No step of it panics -/

theorem insertAt_safe {out : Text} {pos : Nat} (c : Char) (h : pos ≤ out.length) :
    Safe (insertAt out pos c) fun out' => out'.length = out.length + 1 := by
  rw [insertAt, if_pos h]
  show (out.take pos ++ c :: out.drop pos).length = _
  rw [List.length_append, List.length_cons, List.length_take, List.length_drop]
  omega

theorem insertZeros_safe (n : Nat) {out : Text} {pos : Nat} (h : pos ≤ out.length) :
    Safe (insertZeros n out pos) fun _ => True := by
  induction n generalizing out with
  | zero => trivial
  | succ n ih =>
      rw [insertZeros]
      refine (insertAt_safe '0' h).bind fun out' hlen => ih ?_
      omega

theorem insertDecimalPoint_safe {out : Text} {signLen : Nat} (scale : Nat)
    (h : signLen ≤ out.length) : Safe (insertDecimalPoint out signLen scale) fun _ => True := by
  rw [insertDecimalPoint, subWord_eq h, ok_bind]
  refine .ite ?_ ?_
  · intro _
    refine (insertAt_safe '0' h).bind fun out' hlen => ?_
    refine (insertAt_safe '.' (by omega)).bind fun out'' hlen' => ?_
    exact insertZeros_safe _ (by omega)
  · intro hlong
    rw [subWord_eq (by omega), ok_bind]
    exact (insertAt_safe '.' (by omega)).weaken fun _ _ => trivial

theorem exactText_safe (unscaled : Int) (scale : Nat) (prec : Int) :
    Safe (exactText ops unscaled scale prec) fun _ => True := by
  refine Safe.bind (Q := fun _ => True) ?_ fun _ _ => trivial
  unfold writeScaledDecimal
  dsimp only
  refine .ite (fun _ => trivial) fun _ => insertDecimalPoint_safe scale ?_
  cases hsign : (decide (unscaled < 0) && unscaled.natAbs != 0) with
  | true => exact Nat.le_add_left 1 _
  | false => exact Nat.zero_le _

theorem wordAt_safe {data : Bytes} {i : Nat} (hi : i < 5) (h : i * 4 + 4 ≤ data.length) :
    Safe (wordAt data i) fun _ => True := by
  rw [wordAt, mulWord_eq (by omega), ok_bind, addWord_eq (by omega), ok_bind,
    slice_eq (by omega) h, ok_bind]
  trivial

theorem readWords_safe {data : Bytes} (count i raw : Nat) (hi : i + count ≤ 5)
    (h : (i + count) * 4 ≤ data.length) : Safe (readWords data count i raw) fun _ => True := by
  induction count generalizing i raw with
  | zero => trivial
  | succ count ih =>
      rw [readWords, shl, if_pos (by decide), ok_bind]
      refine (wordAt_safe (by omega) (by omega)).bind fun w _ => ?_
      exact ih (i + 1) _ (by omega) (by omega)

theorem readLimbs_safe {data : Bytes} (count i : Nat) (hi : i + count ≤ 5)
    (h : (i + count) * 4 ≤ data.length) :
    Safe (readLimbs data count i) fun limbs => limbs.length = count := by
  induction count generalizing i with
  | zero => exact rfl
  | succ count ih =>
      rw [readLimbs]
      refine (wordAt_safe (by omega) (by omega)).bind fun w _ => ?_
      refine (ih (i + 1) (by omega) (by omega)).bind fun rest hrest => ?_
      show (UInt32.ofNat w :: rest).length = count + 1
      rw [List.length_cons, hrest]

theorem signed_eq {width n : Nat} (h : n < 2 ^ (width - 1)) : signed width n = n :=
  if_pos h

theorem readSignedI128_safe {data : Bytes} {parts : Nat} (hpos : 0 < parts) (hparts : parts ≤ 4)
    (h : parts * 4 ≤ data.length) : Safe (readSignedI128 data parts) fun _ => True := by
  rw [readSignedI128]
  refine (readWords_safe parts 0 0 (by omega) (by omega)).bind fun raw _ => ?_
  rw [mulWord_eq (by omega), ok_bind, subWord_eq (by omega), ok_bind, shl, if_pos (by omega), ok_bind]
  refine .ite (fun _ => .ite (fun _ => trivial) fun hwide => ?_) fun _ => trivial
  have hlimit : (1 <<< (parts * 32)) % 2 ^ 128 = 2 ^ (parts * 32) := by
    rw [Nat.shiftLeft_eq, Nat.one_mul, Nat.mod_eq_of_lt]
    exact Nat.pow_lt_pow_right (by decide) (by omega)
  have hpow : 2 ^ (parts * 32) ≤ 2 ^ 96 := Nat.pow_le_pow_right (by decide) (by omega)
  have hone : 1 ≤ 2 ^ (parts * 32) := Nat.one_le_two_pow
  rw [shl, if_pos (by omega), ok_bind, hlimit, subWord_eq hone, ok_bind]
  have hraw : raw &&& (2 ^ (parts * 32) - 1) ≤ 2 ^ (parts * 32) - 1 := Nat.and_le_right
  rw [signed_eq (by omega), signed_eq (by omega), int_eq (by omega) (by omega)]
  trivial

theorem leInt_range {bytes : Bytes} (hlen : bytes.length = 4) :
    -(2 ^ 31) ≤ leInt bytes ∧ leInt bytes < 2 ^ 31 := by
  have hlt := leNat_lt bytes
  rw [hlen] at hlt
  rw [leInt, hlen, signed]
  split <;> omega

theorem beInt_range {bytes : Bytes} (hlen : bytes.length = 4) :
    -(2 ^ 31) ≤ beInt bytes ∧ beInt bytes < 2 ^ 31 := by
  have hreverse := leInt_range (show bytes.reverse.length = 4 by rw [List.length_reverse, hlen])
  rw [leInt, List.length_reverse] at hreverse
  exact hreverse

theorem readSmall_safe {data : Bytes} {parts : Nat} (hpos : 0 < parts) (hparts : parts ≤ 2)
    (h : parts * 4 ≤ data.length) : Safe (readSmall data parts) fun _ => True := by
  rw [readSmall]
  refine (slice_safe (by omega) (by omega)).bind fun first hfirst => ?_
  refine .ite (fun _ => trivial) fun hone => ?_
  refine (slice_safe (by omega) (by omega)).bind fun second hsecond => ?_
  have hlow := leNat_lt second
  have hhigh := leInt_range hfirst
  rw [hsecond] at hlow
  rw [int_eq (by omega) (by omega)]
  trivial

theorem decodeWide_safe {data : Bytes} {parts : Nat} (hpos : 0 < parts) (hparts : parts ≤ 5)
    (h : parts * 4 ≤ data.length) (prec : Int) (scale : Nat) :
    Safe (decodeWide ops data parts prec scale) fun _ => True := by
  rw [decodeWide]
  refine (readLimbs_safe parts 0 (by omega) (by omega)).bind fun limbs hlimbs => ?_
  refine (index_safe (by omega)).bind fun high _ => ?_
  refine Safe.bind (Q := fun _ => True) ?_ fun _ _ => trivial
  exact .ite (fun _ => insertDecimalPoint_safe scale (Nat.zero_le _)) fun _ => trivial

theorem partCount_range {prec scale digitCount : Int}
    (hshape : ¬(¬(0 ≤ prec ∧ prec ≤ 38) ∨ ¬(0 ≤ scale ∧ scale ≤ 38) ∨
      ¬(0 ≤ digitCount ∧ digitCount ≤ 5))) :
    0 < partCount prec digitCount ∧ partCount prec digitCount ≤ 5 := by
  unfold partCount
  split
  · omega
  · split
    · decide
    · split <;> decide

theorem getCsNumeric_safe (data : Bytes) (prec scale digitCount : Int) :
    Safe (getCsNumeric ops data prec scale digitCount) fun _ => True := by
  unfold getCsNumeric
  refine .ite (fun _ => trivial) fun hshape => ?_
  have hparts := partCount_range hshape
  dsimp only
  rw [mulWord_eq (by omega), ok_bind]
  refine .ite (fun _ => trivial) fun hlong => .ite (fun hsmall => ?_) fun _ => .ite (fun hfour => ?_)
    fun _ => decodeWide_safe ops hparts.1 hparts.2 (by omega) prec _
  · refine (readSmall_safe hparts.1 hsmall.1 (by omega)).bind fun unscaled _ => ?_
    cases decimalFromI128 ops unscaled scale.toNat with
    | some value => trivial
    | none => exact exactText_safe ops unscaled _ prec
  · refine (readSignedI128_safe hparts.1 hfour (by omega)).bind fun unscaled _ => ?_
    cases decimalFromI128 ops unscaled scale.toNat with
    | some value => trivial
    | none => exact exactText_safe ops unscaled _ prec

/-! ## Only its own words are read -/

section Append

variable {data : Bytes} (tail : Bytes)

theorem wordAt_append {i : Nat} (hi : i < 5) (h : i * 4 + 4 ≤ data.length) :
    wordAt (data ++ tail) i = wordAt data i := by
  rw [wordAt, wordAt, mulWord_eq (by omega), ok_bind, ok_bind, addWord_eq (by omega), ok_bind,
    ok_bind, slice_append (by omega) h]

theorem readWords_append (count i raw : Nat) (hi : i + count ≤ 5)
    (h : (i + count) * 4 ≤ data.length) :
    readWords (data ++ tail) count i raw = readWords data count i raw := by
  induction count generalizing i raw with
  | zero => rfl
  | succ count ih =>
      rw [readWords, readWords, wordAt_append tail (by omega) (by omega)]
      simp only [ih (i + 1) _ (by omega) (by omega)]

theorem readLimbs_append (count i : Nat) (hi : i + count ≤ 5)
    (h : (i + count) * 4 ≤ data.length) :
    readLimbs (data ++ tail) count i = readLimbs data count i := by
  induction count generalizing i with
  | zero => rfl
  | succ count ih =>
      rw [readLimbs, readLimbs, wordAt_append tail (by omega) (by omega),
        ih (i + 1) (by omega) (by omega)]

theorem readSmall_append {parts : Nat} (hpos : 0 < parts) (hparts : parts ≤ 2)
    (h : parts * 4 ≤ data.length) : readSmall (data ++ tail) parts = readSmall data parts := by
  rw [readSmall, readSmall, slice_append (by omega) (by omega)]
  by_cases hone : parts = 1
  · simp only [hone, if_true]
  · simp only [hone, if_false]
    rw [slice_append (by omega) (by omega)]

/-- What is decoded from a value's own words is decoded from them in front of anything. -/
theorem getCsNumeric_append {prec scale digitCount : Int} {decoded : NumericDecoded N}
    (h : getCsNumeric ops data prec scale digitCount = .ok decoded) :
    getCsNumeric ops (data ++ tail) prec scale digitCount = .ok decoded := by
  unfold getCsNumeric at h ⊢
  by_cases hshape : ¬(0 ≤ prec ∧ prec ≤ 38) ∨ ¬(0 ≤ scale ∧ scale ≤ 38) ∨
      ¬(0 ≤ digitCount ∧ digitCount ≤ 5)
  · rw [if_pos hshape] at h
    cases h
  rw [if_neg hshape] at h ⊢
  have hparts := partCount_range hshape
  dsimp only at h ⊢
  rw [mulWord_eq (by omega), ok_bind] at h ⊢
  by_cases hshort : data.length < partCount prec digitCount * 4
  · rw [if_pos hshort] at h
    cases h
  rw [if_neg hshort] at h
  rw [if_neg (by rw [List.length_append]; omega)]
  by_cases hsmall : partCount prec digitCount ≤ 2 ∧ prec ≤ 15
  · rw [if_pos hsmall] at h ⊢
    rw [readSmall_append tail hparts.1 hsmall.1 (by omega), h]
  rw [if_neg hsmall] at h ⊢
  by_cases hfour : partCount prec digitCount ≤ 4
  · rw [if_pos hfour] at h ⊢
    rw [readSignedI128, readWords_append tail _ 0 0 (by omega) (by omega)]
    exact h
  · rw [if_neg hfour] at h ⊢
    rw [decodeWide, readLimbs_append tail _ 0 (by omega) (by omega)]
    exact h

end Append

/-! ## Nothing but the shape and the length is reported -/

section Errors

variable (E : NzError → Prop)

theorem wordAt_onlyFails (data : Bytes) (i : Nat) : OnlyFails (wordAt data i) E := by
  apply OnlyFails.bind (.or_panics _ E)
  intro start _
  apply OnlyFails.bind (.or_panics _ E)
  intro stop _
  exact OnlyFails.bind (.or_panics _ E) fun bytes _ => .ok _ E

theorem readWords_onlyFails (data : Bytes) (count i raw : Nat) :
    OnlyFails (readWords data count i raw) E := by
  induction count generalizing i raw with
  | zero => exact .ok _ E
  | succ count ih =>
      apply OnlyFails.bind (.or_panics _ E)
      intro shifted _
      exact OnlyFails.bind (wordAt_onlyFails E data i) fun w _ => ih (i + 1) _

theorem readLimbs_onlyFails (data : Bytes) (count i : Nat) :
    OnlyFails (readLimbs data count i) E := by
  induction count generalizing i with
  | zero => exact .ok _ E
  | succ count ih =>
      apply OnlyFails.bind (wordAt_onlyFails E data i)
      intro w _
      exact OnlyFails.bind (ih (i + 1)) fun rest _ => .ok _ E

theorem readSmall_onlyFails (data : Bytes) (parts : Nat) : OnlyFails (readSmall data parts) E := by
  apply OnlyFails.bind (.or_panics _ E)
  intro first _
  apply OnlyFails.ite
  · intro _
    exact .ok _ E
  intro _
  exact OnlyFails.bind (.or_panics _ E) fun second _ => .or_panics _ E

theorem readSignedI128_onlyFails (data : Bytes) (parts : Nat) :
    OnlyFails (readSignedI128 data parts) E := by
  apply OnlyFails.bind (readWords_onlyFails E data parts 0 0)
  intro raw _
  apply OnlyFails.bind (.or_panics _ E)
  intro totalBits _
  apply OnlyFails.bind (.or_panics _ E)
  intro signPlace _
  apply OnlyFails.bind (.or_panics _ E)
  intro signBit _
  apply OnlyFails.ite
  · intro _
    apply OnlyFails.ite
    · intro _
      exact .ok _ E
    intro _
    apply OnlyFails.bind (.or_panics _ E)
    intro limit _
    exact OnlyFails.bind (.or_panics _ E) fun full _ => .or_panics _ E
  intro _
  exact .ok _ E

theorem insertZeros_onlyFails (n : Nat) (out : Text) (pos : Nat) :
    OnlyFails (insertZeros n out pos) E := by
  induction n generalizing out with
  | zero => exact .ok _ E
  | succ n ih => exact OnlyFails.bind (.or_panics _ E) fun out _ => ih out

theorem insertDecimalPoint_onlyFails (out : Text) (signLen scale : Nat) :
    OnlyFails (insertDecimalPoint out signLen scale) E := by
  apply OnlyFails.bind (.or_panics _ E)
  intro digitLen _
  apply OnlyFails.ite
  · intro _
    apply OnlyFails.bind (.or_panics _ E)
    intro out _
    exact OnlyFails.bind (.or_panics _ E) fun out _ => insertZeros_onlyFails E _ out _
  intro _
  exact OnlyFails.bind (.or_panics _ E) fun point _ => .or_panics _ E

theorem exactText_onlyFails (unscaled : Int) (scale : Nat) (prec : Int) :
    OnlyFails (exactText ops unscaled scale prec) E := by
  apply OnlyFails.bind
  · unfold writeScaledDecimal
    apply OnlyFails.ite
    · intro _
      exact .ok _ E
    intro _
    exact insertDecimalPoint_onlyFails E _ _ scale
  · intro text _
    exact .ok _ E

theorem decodeWide_onlyFails (data : Bytes) (parts : Nat) (prec : Int) (scale : Nat) :
    OnlyFails (decodeWide ops data parts prec scale) E := by
  apply OnlyFails.bind (readLimbs_onlyFails E data parts 0)
  intro limbs _
  apply OnlyFails.bind (index_onlyFails limbs 0 E)
  intro high _
  apply OnlyFails.bind
  · apply OnlyFails.ite
    · intro _
      exact insertDecimalPoint_onlyFails E _ 0 scale
    intro _
    exact .ok _ E
  · intro text _
    exact .ok _ E

/-- With all words there, only the shape of the column is ever refused. -/
theorem getCsNumeric_onlyFails {data : Bytes} {prec scale digitCount : Int}
    (hlong : partCount prec digitCount * 4 ≤ data.length) :
    OnlyFails (getCsNumeric ops data prec scale digitCount) fun e => e = invalidShape := by
  unfold getCsNumeric
  apply OnlyFails.ite
  · intro _ e h
    exact (Fault.error.inj (Except.error.inj h)).symm
  intro _
  apply OnlyFails.bind (.or_panics _ fun e => e = invalidShape)
  intro need hneed
  have hsame : need = partCount prec digitCount * 4 := by
    split at hneed
    · exact (Except.ok.inj hneed).symm
    · cases hneed
  rw [if_neg (by omega)]
  apply OnlyFails.ite
  · intro _
    apply OnlyFails.bind (readSmall_onlyFails (fun e => e = invalidShape) data _)
    intro unscaled _
    cases decimalFromI128 ops unscaled scale.toNat with
    | some value => exact .ok _ _
    | none => exact exactText_onlyFails ops _ unscaled _ prec
  intro _
  apply OnlyFails.ite
  · intro _
    apply OnlyFails.bind (readSignedI128_onlyFails (fun e => e = invalidShape) data _)
    intro unscaled _
    cases decimalFromI128 ops unscaled scale.toNat with
    | some value => exact .ok _ _
    | none => exact exactText_onlyFails ops _ unscaled _ prec
  intro _
  exact decodeWide_onlyFails ops _ data _ prec _

end Errors

end Numeric

end NzRust
