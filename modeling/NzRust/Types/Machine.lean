import NzRust.Lib.Bytes
import NzRust.Lib.Checked
import NzRust.Types.Datetime

/-!
# Dates and times on machine integers

The functions behind the binary temporal formats once more, with every machine
operation that could overflow as a step of its own. On the values that the
formats can carry none of them does, and the texts are those of `Datetime`.
-/

namespace NzRust.Machine

open ByteString Checked Datetime

/-! ## The calendar -/

def yearOfEra (doe : Nat) : Exec NzError Nat := do
  let a ← subWord doe (doe / 1460)
  let a ← addWord 64 a (doe / 36524)
  let a ← subWord a (doe / 146096)
  return a / 365

def dayOfYear (doe yoe : Nat) : Exec NzError Nat := do
  let a ← mulWord 64 365 yoe
  let a ← addWord 64 a (yoe / 4)
  let a ← subWord a (yoe / 100)
  subWord doe a

/-- The number of the month from March on. -/
def monthOf (doy : Nat) : Exec NzError Nat := do
  let a ← mulWord 64 5 doy
  let a ← addWord 64 a 2
  return a / 153

def dayOf (doy mp : Nat) : Exec NzError Nat := do
  let a ← mulWord 64 153 mp
  let a ← addWord 64 a 2
  let a ← subWord doy (a / 5)
  addWord 64 a 1

def civilFromDays (z : Int) : Exec NzError (Int × Nat × Nat) := do
  let z ← int 64 (z + 719468)
  let shifted ← (if 0 ≤ z then .ok z else int 64 (z - 146096))
  let era := shifted.tdiv 146097
  let eraDays ← int 64 (era * 146097)
  let doe ← int 64 (z - eraDays)
  let doe := asWord 64 doe
  let yoe ← yearOfEra doe
  let eraYears ← int 64 (era * 400)
  let y ← int 64 (yoe + eraYears)
  let doy ← dayOfYear doe yoe
  let mp ← monthOf doy
  let d ← dayOf doy mp
  let m ← (if mp < 10 then addWord 64 mp 3 else subWord mp 9)
  let year ← (if m ≤ 2 then int 64 (y + 1) else .ok y)
  return (year, m, d)

theorem yearOfEra_eq {doe : Nat} (h : doe < 146097) :
    yearOfEra doe = .ok (Datetime.yearOfEra doe) := by
  unfold yearOfEra
  rw [subWord_eq (by omega), ok_bind, addWord_eq (by omega), ok_bind, subWord_eq (by omega), ok_bind]
  rfl

theorem dayOfYear_eq {doe yoe : Nat} (hyoe : yoe < 400) (hstart : yearStart yoe ≤ doe) :
    dayOfYear doe yoe = .ok (Datetime.dayOfYear doe yoe) := by
  unfold yearStart at hstart
  unfold dayOfYear
  rw [mulWord_eq (by omega), ok_bind, addWord_eq (by omega), ok_bind, subWord_eq (by omega), ok_bind,
    subWord_eq hstart]
  rfl

theorem monthOf_eq {doy : Nat} (h : doy ≤ 365) : monthOf doy = .ok ((5 * doy + 2) / 153) := by
  unfold monthOf
  rw [mulWord_eq (by omega), ok_bind, addWord_eq (by omega), ok_bind]
  rfl

theorem dayOf_eq {doy mp : Nat} (h : doy ≤ 365) (hmp : mp = (5 * doy + 2) / 153) :
    dayOf doy mp = .ok (doy - (153 * mp + 2) / 5 + 1) := by
  unfold dayOf
  rw [mulWord_eq (by omega), ok_bind, addWord_eq (by omega), ok_bind, subWord_eq (by omega), ok_bind,
    addWord_eq (by omega)]

/-- The calendar does not overflow before its epoch does. -/
theorem civilFromDays_eq {z : Int} (hlow : -(2 ^ 63) ≤ z) (hhigh : z < 2 ^ 63 - 719468) :
    civilFromDays z = .ok (Datetime.civilFromDays z) := by
  have hera := tdiv_era (z + 719468)
  have hdoe : (z + 719468 - (z + 719468) / 146097 * 146097).toNat < 146097 := by omega
  obtain ⟨hyoe, hstart, hdoy⟩ := yearOfEra_spec hdoe
  have hshift : (if 0 ≤ z + 719468 then .ok (z + 719468) else int 64 (z + 719468 - 146096) :
      Exec NzError Int) = .ok (if 0 ≤ z + 719468 then z + 719468 else z + 719468 - 146096) := by
    split
    · rfl
    · exact int_eq (by omega) (by omega)
  unfold civilFromDays Datetime.civilFromDays
  rw [int_eq (by omega) (by omega), ok_bind, hshift, ok_bind]
  dsimp only
  rw [hera, int_eq (by omega) (by omega), ok_bind, int_eq (by omega) (by omega), ok_bind,
    asWord_eq (by omega) (by omega), yearOfEra_eq hdoe, ok_bind, int_eq (by omega) (by omega),
    ok_bind, int_eq (by omega) (by omega), ok_bind, dayOfYear_eq hyoe hstart, ok_bind,
    monthOf_eq hdoy, ok_bind, dayOf_eq hdoy rfl, ok_bind]
  -- What is left are the month and the year of the shifted calendar.
  generalize Datetime.yearOfEra _ = yoe at *
  generalize Datetime.dayOfYear _ yoe = doy at *
  by_cases hm : (5 * doy + 2) / 153 < 10
  · rw [if_pos hm, if_pos hm, addWord_eq (by omega), ok_bind, if_neg (by omega), if_neg (by omega)]
    rfl
  · rw [if_neg hm, if_neg hm, subWord_eq (by omega), ok_bind, if_pos (by omega), if_pos (by omega),
      int_eq (by omega) (by omega)]
    rfl

/-! ## Digits -/

/-- The power of ten in front of the first digit. -/
def divisorFor : Nat → Int → Exec NzError Int
  | 0, divisor => .ok divisor
  | n + 1, divisor => do
      let divisor ← int 64 (divisor * 10)
      divisorFor n divisor

def digitLoop : Nat → Int → Int → Exec NzError Text
  | 0, _, _ => .ok []
  | n + 1, remaining, divisor => do
      let digit ← divInt 64 remaining divisor
      let code ← addWord 8 48 (digit % 10).toNat
      let remaining ← remInt 64 remaining divisor
      let rest ← digitLoop n remaining (if 1 < divisor then divisor.tdiv 10 else divisor)
      return Char.ofNat code :: rest

def appendFixedDigits (value : Int) (width : Nat) : Exec NzError Text := do
  let divisor ← divisorFor (width - 1) 1
  digitLoop width value divisor

theorem divisorFor_eq {n k : Nat} (h : n + k ≤ 18) :
    divisorFor n (10 ^ k) = .ok (10 ^ (n + k)) := by
  induction n generalizing k with
  | zero => rw [divisorFor, Nat.zero_add]
  | succ n ih =>
      have hpow : (10 : Int) ^ (k + 1) ≤ 10 ^ 18 := by
        have hnat : 10 ^ (k + 1) ≤ 10 ^ 18 := Nat.pow_le_pow_right (by decide) (by omega)
        exact_mod_cast hnat
      have hpos : (0 : Int) < 10 ^ (k + 1) := Int.pow_pos (by decide)
      rw [divisorFor, ← Int.pow_succ, int_eq (by omega) (by omega), ok_bind, ih (by omega)]
      congr 2
      omega

theorem digitChar_eq : ∀ d < 10, Char.ofNat (48 + d) = Nat.digitChar d := by
  decide

theorem digitLoop_succ {n value power : Nat} (hpower : 0 < power) :
    digitLoop (n + 1) value power =
      (digitLoop n (value % power : Nat) (if 1 < (power : Int) then (power : Int).tdiv 10 else power)
        >>= fun rest => .ok (Nat.digitChar (value / power % 10) :: rest)) := by
  have hdigit : ((value : Int).tdiv power % 10).toNat = value / power % 10 := by
    rw [← Int.ofNat_tdiv]
    omega
  rw [digitLoop, divInt_eq (by omega), ok_bind, hdigit, addWord_eq (by omega), ok_bind,
    remInt_eq (by omega), ok_bind, digitChar_eq _ (Nat.mod_lt _ (by decide)), ← Int.ofNat_tmod]
  rfl

theorem digitLoop_eq (n value : Nat) :
    digitLoop (n + 1) value (10 ^ n : Nat) = .ok (fixedDigits (n + 1) value) := by
  induction n generalizing value with
  | zero =>
      rw [digitLoop_succ (by decide)]
      rfl
  | succ n ih =>
      have hpos : 0 < 10 ^ n := Nat.pow_pos (by decide)
      have hnext : (if 1 < ((10 ^ (n + 1) : Nat) : Int) then ((10 ^ (n + 1) : Nat) : Int).tdiv 10
          else (10 ^ (n + 1) : Nat)) = (10 ^ n : Nat) := by
        rw [if_pos (by omega)]
        show ((10 ^ (n + 1) : Nat) : Int).tdiv ((10 : Nat) : Int) = _
        rw [← Int.ofNat_tdiv, Nat.pow_succ, Nat.mul_div_cancel _ (by decide)]
      rw [digitLoop_succ (Nat.pow_pos (by decide)), hnext, ih, ok_bind]
      rfl

theorem appendFixedDigits_eq (value : Nat) {width : Nat} (hwidth : 0 < width) (hsmall : width ≤ 18) :
    appendFixedDigits value width = .ok (fixedDigits width value) := by
  obtain ⟨n, rfl⟩ : ∃ n, width = n + 1 := ⟨width - 1, by omega⟩
  have hdivisor : divisorFor n 1 = .ok (10 ^ n) := divisorFor_eq (k := 0) (by omega)
  have hloop := digitLoop_eq n value
  push_cast at hloop
  rw [appendFixedDigits, Nat.add_sub_cancel, hdivisor, ok_bind, hloop]

/-! ## Texts -/

def appendDate (year : Int) (month day : Nat) : Exec NzError Text := do
  let y ← (if 0 ≤ year ∧ year ≤ 9999 then appendFixedDigits year 4 else .ok (displayInt year))
  let m ← appendFixedDigits month 2
  let d ← appendFixedDigits day 2
  return y ++ '-' :: (m ++ '-' :: d)

def appendHms (hours minutes seconds : Int) : Exec NzError Text := do
  let h ← appendFixedDigits hours 2
  let m ← appendFixedDigits minutes 2
  let s ← appendFixedDigits seconds 2
  return h ++ ':' :: (m ++ ':' :: s)

def fractionText (frac : Int) : Exec NzError Text :=
  if frac ≠ 0 then do
    let digits ← appendFixedDigits frac 6
    return '.' :: digits
  else .ok []

def dateFrom4bytes (days : Int) : Exec NzError Text := do
  let civil ← civilFromDays (← int 64 (days + postgresEpochDays))
  appendDate civil.1 civil.2.1 civil.2.2

def timestampFrom8bytes (micros : Int) : Exec NzError Text := do
  let days := micros / usPerDay
  let rem := micros % usPerDay
  let civil ← civilFromDays (← int 64 (days + postgresEpochDays))
  let secs := rem / 1000000
  let date ← appendDate civil.1 civil.2.1 civil.2.2
  let hms ← appendHms (secs / 3600) (secs % 3600 / 60) (secs % 60)
  let frac ← fractionText (rem % 1000000)
  return date ++ ' ' :: (hms ++ frac)

/-- The hours of a time are printed with `{:02}`, its fraction with fixed digits. -/
def timeFrom8bytes (micros : Int) : Exec NzError Text := do
  let secs := micros.natAbs / 1000000
  let frac ← fractionText ((micros.natAbs % 1000000 : Nat) : Int)
  return (if micros < 0 then ['-'] else []) ++
    (twoDigits (secs / 3600) ++ ':' ::
      (twoDigits (secs % 3600 / 60) ++ ':' :: (twoDigits (secs % 60) ++ frac)))

/-- An 8-byte time and the zone in the last four bytes of the field. -/
def timetzFromBytes (data : Bytes) (fieldLen : Nat) : Exec NzError Text := do
  let micros ← slice data 0 8
  let back ← subWord fieldLen 4
  let zone ← slice data back fieldLen
  let time ← timeFrom8bytes (leInt micros)
  return time ++ zoneText (leInt zone)

/-- An 8-byte time and the months behind it. -/
def intervalFrom12bytes (data : Bytes) : Exec NzError Text := do
  let micros ← slice data 0 8
  let months ← slice data 8 12
  let months := leInt months
  let time ← timeFrom8bytes (leInt micros)
  if months = 0 then return time
  else
    let years := months.tdiv 12
    let mons := displayInt (months.tmod 12) ++ " mons ".toList ++ time
    if years ≠ 0 then return displayInt years ++ " years ".toList ++ mons else return mons

theorem appendDate_eq (year : Int) (month day : Nat) :
    appendDate year month day = .ok (Datetime.appendDate year month day) := by
  have hyear : (if 0 ≤ year ∧ year ≤ 9999 then appendFixedDigits year 4
      else .ok (displayInt year)) =
        .ok (if 0 ≤ year ∧ year ≤ 9999 then fixedDigits 4 year.toNat else displayInt year) := by
    split
    · have hcast : year = (year.toNat : Int) := by omega
      rw [hcast, appendFixedDigits_eq _ (by decide) (by decide), Int.toNat_natCast]
    · rfl
  rw [appendDate, hyear, ok_bind, appendFixedDigits_eq _ (by decide) (by decide), ok_bind,
    appendFixedDigits_eq _ (by decide) (by decide), ok_bind]
  rfl

theorem appendHms_eq (hours minutes seconds : Nat) :
    appendHms hours minutes seconds = .ok (Datetime.appendHms hours minutes seconds) := by
  rw [appendHms, appendFixedDigits_eq _ (by decide) (by decide), ok_bind,
    appendFixedDigits_eq _ (by decide) (by decide), ok_bind,
    appendFixedDigits_eq _ (by decide) (by decide), ok_bind]
  rfl

theorem fractionText_eq (frac : Nat) : fractionText frac = .ok (Datetime.fractionText frac) := by
  unfold fractionText Datetime.fractionText
  by_cases hzero : frac = 0
  · subst hzero
    rfl
  · rw [if_pos (by omega), if_pos hzero, appendFixedDigits_eq _ (by decide) (by decide), ok_bind]
    rfl

theorem dateFrom4bytes_eq {days : Int} (hlow : -(2 ^ 31) ≤ days) (hhigh : days < 2 ^ 31) :
    dateFrom4bytes days = .ok (Datetime.dateFrom4bytes days) := by
  have hepoch : postgresEpochDays = 10957 := rfl
  unfold dateFrom4bytes Datetime.dateFrom4bytes
  rw [hepoch, int_eq (by omega) (by omega), ok_bind, civilFromDays_eq (by omega) (by omega), ok_bind,
    appendDate_eq]

theorem timestampFrom8bytes_eq {micros : Int} (hlow : -(2 ^ 63) ≤ micros) (hhigh : micros < 2 ^ 63) :
    timestampFrom8bytes micros = .ok (Datetime.timestampFrom8bytes micros) := by
  have hepoch : postgresEpochDays = 10957 := rfl
  have hus : usPerDay = 86400000000 := rfl
  have hrem : micros % usPerDay = ((micros % usPerDay).toNat : Int) := by
    rw [hus]
    omega
  unfold timestampFrom8bytes Datetime.timestampFrom8bytes
  dsimp only
  rw [hrem, Int.toNat_natCast]
  generalize (micros % usPerDay).toNat = rem
  have hsecs : ((rem : Int) / 1000000 / 3600) = (rem / 1000000 / 3600 : Nat) := by omega
  have hmins : ((rem : Int) / 1000000 % 3600 / 60) = (rem / 1000000 % 3600 / 60 : Nat) := by omega
  have hss : ((rem : Int) / 1000000 % 60) = (rem / 1000000 % 60 : Nat) := by omega
  have hfrac : ((rem : Int) % 1000000) = (rem % 1000000 : Nat) := by omega
  rw [hepoch, hus, int_eq (by omega) (by omega), ok_bind, civilFromDays_eq (by omega) (by omega),
    ok_bind, appendDate_eq, ok_bind, hsecs, hmins, hss, appendHms_eq, ok_bind, hfrac,
    fractionText_eq, ok_bind]
  rfl

theorem timeFrom8bytes_eq (micros : Int) :
    timeFrom8bytes micros = .ok (Datetime.timeFrom8bytes micros) := by
  unfold timeFrom8bytes
  rw [fractionText_eq, ok_bind]
  rfl

theorem timetzFromBytes_eq {data : Bytes} {fieldLen : Nat} (hlen : data.length = fieldLen)
    (hfield : 12 ≤ fieldLen) :
    timetzFromBytes data fieldLen =
      .ok (Datetime.timetzFromBytes (leInt (data.take 8)) (leInt (data.drop (fieldLen - 4)))) := by
  have hzone : (data.drop (fieldLen - 4)).take (fieldLen - (fieldLen - 4)) =
      data.drop (fieldLen - 4) := by
    rw [List.take_of_length_le]
    rw [List.length_drop]
    omega
  rw [timetzFromBytes, slice_eq (by omega) (by omega), ok_bind, subWord_eq (by omega), ok_bind,
    slice_eq (by omega) (by omega), ok_bind, timeFrom8bytes_eq, ok_bind, hzone]
  rfl

theorem intervalFrom12bytes_eq {data : Bytes} (hlen : data.length = 12) :
    intervalFrom12bytes data =
      .ok (Datetime.intervalFrom12bytes (leInt (data.take 8)) (leInt (data.drop 8))) := by
  have hmonths : (data.drop 8).take (12 - 8) = data.drop 8 := by
    rw [List.take_of_length_le]
    rw [List.length_drop]
    omega
  rw [intervalFrom12bytes, slice_eq (by omega) (by omega), ok_bind,
    slice_eq (by omega) (by omega), ok_bind, hmonths]
  dsimp only
  rw [timeFrom8bytes_eq, ok_bind, Datetime.intervalFrom12bytes]
  by_cases hzero : leInt (data.drop 8) = 0
  · rw [if_pos hzero, if_pos hzero]
    rfl
  · rw [if_neg hzero, if_neg hzero]
    dsimp only
    split <;> rfl

end NzRust.Machine
