import Mathlib.Algebra.Order.Ring.Int
import Mathlib.Data.List.Induction
import Mathlib.Data.Nat.Bitwise

/-!
# Integers in byte strings

Big- and little-endian unsigned readings of a byte string, and the two's
complement reading of an unsigned word of a given width.
-/

namespace ByteString

/-- Little-endian unsigned value. -/
def leNat : List UInt8 → Nat
  | [] => 0
  | byte :: rest => byte.toNat + 256 * leNat rest

/-- Big-endian unsigned value. -/
def beNat (bytes : List UInt8) : Nat := leNat bytes.reverse

/-- Two's complement reading of a word of `width` bits. -/
def signed (width word : Nat) : Int :=
  if word < 2 ^ (width - 1) then (word : Int) else (word : Int) - 2 ^ width

/-- Signed little- and big-endian integers of as many bits as the string holds. -/
def leInt (bytes : List UInt8) : Int := signed (8 * bytes.length) (leNat bytes)

def beInt (bytes : List UInt8) : Int := signed (8 * bytes.length) (beNat bytes)

/-- The `width` low bytes of a number, most significant first. -/
def natToBe : Nat → Nat → List UInt8
  | 0, _ => []
  | width + 1, value => natToBe width (value / 256) ++ [UInt8.ofNat (value % 256)]

/-- `to_be_bytes` of an integer of `width` bytes, wrapped to it. -/
def toBe (width : Nat) (value : Int) : List UInt8 :=
  natToBe width (value % 2 ^ (8 * width)).toNat

@[simp] theorem natToBe_length (width value : Nat) : (natToBe width value).length = width := by
  induction width generalizing value with
  | zero => rfl
  | succ width ih => simp [natToBe, ih]

@[simp] theorem toBe_length (width : Nat) (value : Int) : (toBe width value).length = width :=
  natToBe_length _ _

theorem beNat_natToBe (width value : Nat) :
    beNat (natToBe width value) = value % 256 ^ width := by
  unfold beNat
  induction width generalizing value with
  | zero => simp [natToBe, leNat, Nat.mod_one]
  | succ width ih =>
      have hbyte : (UInt8.ofNat (value % 256)).toNat = value % 256 := by
        simp
      rw [natToBe, List.reverse_append, List.reverse_singleton, List.singleton_append, leNat, ih,
        hbyte, Nat.pow_succ, Nat.mul_comm (256 ^ width) 256, Nat.mod_mul]

theorem leNat_lt (bytes : List UInt8) : leNat bytes < 256 ^ bytes.length := by
  induction bytes with
  | nil => decide
  | cons b bytes ih =>
      have hb : b.toNat < 256 := b.toNat_lt
      rw [leNat, List.length_cons, Nat.pow_succ]
      omega

theorem natToBe_beNat (bytes : List UInt8) : natToBe bytes.length (beNat bytes) = bytes := by
  induction bytes using List.reverseRecOn with
  | nil => rfl
  | append_singleton bytes b ih =>
      have hb : b.toNat < 256 := b.toNat_lt
      have hvalue : beNat (bytes ++ [b]) = b.toNat + 256 * beNat bytes := by
        rw [beNat, List.reverse_append, List.reverse_singleton, List.singleton_append, leNat, beNat]
      have hlow : (b.toNat + 256 * beNat bytes) % 256 = b.toNat := by
        omega
      have hhigh : (b.toNat + 256 * beNat bytes) / 256 = beNat bytes := by
        omega
      rw [List.length_append, List.length_singleton, natToBe, hvalue, hlow, hhigh, ih,
        UInt8.ofNat_toNat]

theorem signed_mod {width word : Nat} (h : word < 2 ^ width) :
    (signed width word % 2 ^ width).toNat = word := by
  have hcast : (word : Int) < 2 ^ width := by
    exact_mod_cast h
  have hmod : (word : Int) % 2 ^ width = word := Int.emod_eq_of_lt (Int.natCast_nonneg word) hcast
  unfold signed
  split
  · rw [hmod, Int.toNat_natCast]
  · rw [Int.sub_emod_right, hmod, Int.toNat_natCast]

/-- A word is what its signed reading writes. -/
theorem toBe_beInt (bytes : List UInt8) : toBe bytes.length (beInt bytes) = bytes := by
  have hlt : beNat bytes < 2 ^ (8 * bytes.length) := by
    have h := leNat_lt bytes.reverse
    rw [List.length_reverse, show (256 : Nat) = 2 ^ 8 from rfl, ← Nat.pow_mul] at h
    exact h
  rw [toBe, beInt, signed_mod hlt, natToBe_beNat]

/-- A length that fits its word survives the wire. -/
theorem beInt_toBe_ofNat {n : Nat} (h : n < 2 ^ 31) : beInt (toBe 4 n) = n := by
  have hmod : ((n : Int) % 2 ^ (8 * 4)).toNat = n := by omega
  rw [beInt, toBe_length, toBe, hmod, beNat_natToBe, Nat.mod_eq_of_lt (by omega)]
  simp only [signed]
  rw [if_pos (by omega)]

/-! ## Little-endian words -/

/-- `to_le_bytes` of an integer of `width` bytes, wrapped to it. -/
def toLe (width : Nat) (value : Int) : List UInt8 :=
  (toBe width value).reverse

@[simp] theorem toLe_length (width : Nat) (value : Int) : (toLe width value).length = width := by
  rw [toLe, List.length_reverse, toBe_length]

theorem signed_emod {width : Nat} {value : Int} (hlow : -(2 ^ (width - 1)) ≤ value)
    (hhigh : value < 2 ^ (width - 1)) (hpos : 0 < width) :
    signed width (value % 2 ^ width).toNat = value := by
  obtain ⟨w, rfl⟩ : ∃ w, width = w + 1 := ⟨width - 1, by omega⟩
  rw [Nat.add_sub_cancel] at hlow hhigh
  have hdouble : (2 : Int) ^ (w + 1) = 2 * 2 ^ w := Int.pow_succ' 2 w
  have hcast : ((2 ^ w : Nat) : Int) = 2 ^ w := by
    exact_mod_cast rfl
  unfold signed
  rw [Nat.add_sub_cancel, hdouble]
  by_cases hneg : value < 0
  · have hmod : value % (2 * 2 ^ w) = value + 2 * 2 ^ w := by
      rw [← Int.add_emod_right, Int.emod_eq_of_lt (by omega) (by omega)]
    rw [hmod, if_neg (by omega)]
    omega
  · have hmod : value % (2 * 2 ^ w) = value := Int.emod_eq_of_lt (by omega) (by omega)
    rw [hmod, if_pos (by omega)]
    omega

theorem bytes_pow (width : Nat) : ((256 ^ width : Nat) : Int) = 2 ^ (8 * width) := by
  rw [show (256 : Nat) = 2 ^ 8 from rfl, ← Nat.pow_mul]
  push_cast
  rfl

/-- A signed word is read back from its bytes. -/
theorem leInt_toLe {width : Nat} {value : Int} (hpos : 0 < width)
    (hlow : -(2 ^ (8 * width - 1)) ≤ value) (hhigh : value < 2 ^ (8 * width - 1)) :
    leInt (toLe width value) = value := by
  have hword : leNat (toLe width value) = (value % 2 ^ (8 * width)).toNat := by
    have hread : beNat (toBe width value) = _ := beNat_natToBe width (value % 2 ^ (8 * width)).toNat
    have hlt : (value % 2 ^ (8 * width)).toNat < 256 ^ width := by
      have hmod := Int.emod_lt_of_pos value (show (0 : Int) < 2 ^ (8 * width) from Int.pow_pos (by decide))
      have hpow := bytes_pow width
      omega
    rw [Nat.mod_eq_of_lt hlt] at hread
    exact hread
  rw [leInt, toLe_length, hword]
  exact signed_emod hlow hhigh (by omega)

theorem beInt_toBe {width : Nat} {value : Int} (hpos : 0 < width)
    (hlow : -(2 ^ (8 * width - 1)) ≤ value) (hhigh : value < 2 ^ (8 * width - 1)) :
    beInt (toBe width value) = value := by
  have hread := leInt_toLe hpos hlow hhigh
  rw [leInt, toLe_length, toLe] at hread
  rw [beInt, toBe_length, beNat]
  exact hread

/-- An unsigned word is read back from its bytes. -/
theorem leNat_toLe {width n : Nat} (h : n < 256 ^ width) : leNat (toLe width n) = n := by
  have hpow := bytes_pow width
  have hmod : ((n : Int) % 2 ^ (8 * width)).toNat = n := by
    rw [Int.emod_eq_of_lt (by omega) (by omega), Int.toNat_natCast]
  have hread : beNat (toBe width n) = _ := beNat_natToBe width ((n : Int) % 2 ^ (8 * width)).toNat
  rw [hmod, Nat.mod_eq_of_lt h] at hread
  exact hread

/-! ## Bits -/

theorem mask_testBit (byte : UInt8) {k : Nat} (hk : k < 8) :
    (byte &&& (1 <<< UInt8.ofNat k) != 0) = byte.toNat.testBit k := by
  have hshift : ((1 : UInt8) <<< UInt8.ofNat k).toNat = 2 ^ k := by
    rw [UInt8.toNat_shiftLeft, UInt8.toNat_ofNat', Nat.mod_eq_of_lt (show k < 2 ^ 8 by omega),
      Nat.mod_eq_of_lt hk, UInt8.toNat_one, Nat.one_shiftLeft,
      Nat.mod_eq_of_lt (Nat.pow_lt_pow_right (by decide) hk)]
  have hzero : (byte &&& (1 <<< UInt8.ofNat k) = 0) ↔ byte.toNat.testBit k = false := by
    rw [← UInt8.toNat_inj, UInt8.toNat_and, hshift, UInt8.toNat_zero, Nat.and_two_pow]
    cases byte.toNat.testBit k with
    | false => simp
    | true => simp
  cases hbit : byte.toNat.testBit k with
  | false => simpa using hzero.mpr hbit
  | true => simpa [hbit] using hzero

end ByteString
