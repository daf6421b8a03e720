import Mathlib.Algebra.Order.Ring.Int
import Mathlib.Order.Monotone.Basic
import NzRust.Core.Digits
import NzRust.Core.Error

/-!
# Dates and times

The texts that the driver makes from the binary temporal formats, and the
parsers behind its temporal getters. Machine integers are `Int`s; the parsers
check the ranges where the source does.
-/

namespace NzRust

namespace Datetime

def postgresEpochDays : Int := 10957

def usPerDay : Int := 86400000000

/-! ## The calendar -/

def yearOfEra (doe : Nat) : Nat :=
  (doe - doe / 1460 + doe / 36524 - doe / 146096) / 365

def dayOfYear (doe yoe : Nat) : Nat :=
  doe - (365 * yoe + yoe / 4 - yoe / 100)

/-- Year, month and day of a number of days since 1970-01-01. -/
def civilFromDays (z : Int) : Int × Nat × Nat :=
  let z := z + 719468
  let era := (if 0 ≤ z then z else z - 146096).tdiv 146097
  let doe := (z - era * 146097).toNat
  let yoe := yearOfEra doe
  let y : Int := yoe + era * 400
  let doy := dayOfYear doe yoe
  let mp := (5 * doy + 2) / 153
  let d := doy - (153 * mp + 2) / 5 + 1
  let m := if mp < 10 then mp + 3 else mp - 9
  (if m ≤ 2 then y + 1 else y, m, d)

def daysFromCivil (y : Int) (m d : Nat) : Int :=
  let y := if m ≤ 2 then y - 1 else y
  let era := (if 0 ≤ y then y else y - 399).tdiv 400
  let yoe := (y - era * 400).toNat
  let mp := if 2 < m then m - 3 else m + 9
  let doy := (153 * mp + 2) / 5 + d - 1
  let doe := yoe * 365 + yoe / 4 - yoe / 100 + doy
  era * 146097 + doe - 719468

/-! ## Texts -/

def appendDate (year : Int) (month day : Nat) : Text :=
  (if 0 ≤ year ∧ year ≤ 9999 then fixedDigits 4 year.toNat else displayInt year) ++
    '-' :: (fixedDigits 2 month ++ '-' :: fixedDigits 2 day)

def appendHms (hours minutes seconds : Nat) : Text :=
  fixedDigits 2 hours ++ ':' :: (fixedDigits 2 minutes ++ ':' :: fixedDigits 2 seconds)

/-- The fraction of a second, left out when it is zero. -/
def fractionText (frac : Nat) : Text :=
  if frac ≠ 0 then '.' :: fixedDigits 6 frac else []

/-- The magnitude of a time; its hours are not bounded. -/
def clockText (magnitude : Nat) : Text :=
  let secs := magnitude / 1000000
  twoDigits (secs / 3600) ++ ':' ::
    (twoDigits (secs % 3600 / 60) ++ ':' ::
      (twoDigits (secs % 60) ++ fractionText (magnitude % 1000000)))

def dateFrom4bytes (days : Int) : Text :=
  let civil := civilFromDays (days + postgresEpochDays)
  appendDate civil.1 civil.2.1 civil.2.2

def timestampFrom8bytes (micros : Int) : Text :=
  let days := micros / usPerDay
  let rem := (micros % usPerDay).toNat
  let secs := rem / 1000000
  dateFrom4bytes days ++ ' ' ::
    (appendHms (secs / 3600) (secs % 3600 / 60) (secs % 60) ++ fractionText (rem % 1000000))

def timeFrom8bytes (micros : Int) : Text :=
  (if micros < 0 then ['-'] else []) ++ clockText micros.natAbs

/-- The zone is stored with the opposite sign; minutes and seconds appear when they are needed. -/
def zoneText (zoneSeconds : Int) : Text :=
  let abs := zoneSeconds.natAbs
  let minutes := abs % 3600 / 60
  let seconds := abs % 60
  (if zoneSeconds < 0 then '+' else '-') ::
    (twoDigits (abs / 3600) ++
      if seconds ≠ 0 then ':' :: (twoDigits minutes ++ ':' :: twoDigits seconds)
      else if minutes ≠ 0 then ':' :: twoDigits minutes
      else [])

def timetzFromBytes (micros zoneSeconds : Int) : Text :=
  timeFrom8bytes micros ++ zoneText zoneSeconds

def intervalFrom12bytes (micros months : Int) : Text :=
  if months = 0 then timeFrom8bytes micros
  else
    let years := months.tdiv 12
    let remaining := months.tmod 12
    let mons := displayInt remaining ++ " mons ".toList ++ timeFrom8bytes micros
    if years ≠ 0 then displayInt years ++ " years ".toList ++ mons else mons

/-! ## The calendar is exact -/

/-- The shifted truncating divisions round down. -/
theorem tdiv_era (z : Int) : (if 0 ≤ z then z else z - 146096).tdiv 146097 = z / 146097 := by
  rw [Int.tdiv_eq_ediv]
  have hsign : Int.sign 146097 = 1 := rfl
  rw [hsign]
  split <;> split <;> omega

theorem tdiv_cycle (y : Int) : (if 0 ≤ y then y else y - 399).tdiv 400 = y / 400 := by
  rw [Int.tdiv_eq_ediv]
  have hsign : Int.sign 400 = 1 := rfl
  rw [hsign]
  split <;> split <;> omega

/-! ## Years of an era -/

/-- The first day of a year of the era. -/
def yearStart (yoe : Nat) : Nat :=
  365 * yoe + yoe / 4 - yoe / 100

theorem yearOfEra_le_succ (doe : Nat) : yearOfEra doe ≤ yearOfEra (doe + 1) := by
  unfold yearOfEra
  have hdays : doe - doe / 1460 + doe / 36524 - doe / 146096 ≤
      doe + 1 - (doe + 1) / 1460 + (doe + 1) / 36524 - (doe + 1) / 146096 := by
    omega
  exact Nat.div_le_div_right hdays

theorem yearOfEra_yearStart : ∀ y < 400,
    yearOfEra (yearStart y) = y ∧ yearOfEra (yearStart (y + 1) - 1) = y := by
  decide +kernel

theorem yearOfEra_eq {y doe : Nat} (hy : y < 400) (hstart : yearStart y ≤ doe)
    (hend : doe < yearStart (y + 1)) : yearOfEra doe = y := by
  have hmono := monotone_nat_of_le_succ yearOfEra_le_succ
  obtain ⟨hfirst, hlast⟩ := yearOfEra_yearStart y hy
  have hlow := hmono hstart
  have hhigh := hmono (show doe ≤ yearStart (y + 1) - 1 by omega)
  omega

theorem exists_year {n doe : Nat} (h : doe < yearStart n) :
    ∃ y < n, yearStart y ≤ doe ∧ doe < yearStart (y + 1) := by
  induction n with
  | zero => simp [yearStart] at h
  | succ n ih =>
      by_cases hn : doe < yearStart n
      · obtain ⟨y, hy, hyear⟩ := ih hn
        exact ⟨y, by omega, hyear⟩
      · exact ⟨n, by omega, by omega, h⟩

theorem yearOfEra_spec {doe : Nat} (h : doe < 146097) :
    yearOfEra doe < 400 ∧ yearStart (yearOfEra doe) ≤ doe ∧
      dayOfYear doe (yearOfEra doe) ≤ 365 := by
  by_cases hlast : doe = 146096
  · subst hlast
    decide
  · have hyear : doe < yearStart 400 := by
      show doe < 146096
      omega
    obtain ⟨y, hy, hstart, hend⟩ := exists_year hyear
    rw [yearOfEra_eq hy hstart hend]
    refine ⟨hy, hstart, ?_⟩
    simp only [dayOfYear, yearStart] at *
    omega

/-! ## The round trip -/

/-- Month and day are in their ranges, and the three give the days back. -/
theorem daysFromCivil_civilFromDays (z : Int) :
    let civil := civilFromDays z
    daysFromCivil civil.1 civil.2.1 civil.2.2 = z ∧ (1 ≤ civil.2.1 ∧ civil.2.1 ≤ 12) ∧
      (1 ≤ civil.2.2 ∧ civil.2.2 ≤ 31) := by
  intro civil
  have hcivil : civil = civilFromDays z := rfl
  simp only [civilFromDays, tdiv_era] at hcivil
  generalize hera : (z + 719468) / 146097 = era at hcivil
  generalize hdoe : (z + 719468 - era * 146097).toNat = doe at hcivil
  have hdoe_lt : doe < 146097 := by omega
  obtain ⟨hyoe, hstart, hdoy⟩ := yearOfEra_spec hdoe_lt
  generalize yearOfEra doe = yoe at hcivil hyoe hstart hdoy
  have hdays : doe = yearStart yoe + dayOfYear doe yoe := by
    simp only [dayOfYear, yearStart] at *
    omega
  generalize dayOfYear doe yoe = doy at hcivil hdoy hdays
  generalize hmp : (5 * doy + 2) / 153 = mp at hcivil
  have hcycle : ((yoe : Int) + era * 400) / 400 = era := by omega
  have hyear : ((yoe : Int) + era * 400 - era * 400).toNat = yoe := by omega
  have hmonth : (153 * mp + 2) / 5 ≤ doy := by omega
  have hday : doy - (153 * mp + 2) / 5 + 1 ≤ 31 := by omega
  simp only [yearStart] at hdays
  rw [hcivil]
  by_cases hm : mp < 10
  · have h₁ : ¬ mp + 3 ≤ 2 := by omega
    have h₂ : 2 < mp + 3 := by omega
    simp only [daysFromCivil, tdiv_cycle, hm, h₁, h₂, if_true, if_false, hcycle, hyear]
    omega
  · -- January and February belong to the next civil year
    have h₁ : mp - 9 ≤ 2 := by omega
    have h₂ : ¬ 2 < mp - 9 := by omega
    have hprev : (yoe : Int) + era * 400 + 1 - 1 = yoe + era * 400 := by omega
    simp only [daysFromCivil, tdiv_cycle, hm, h₁, h₂, if_true, if_false, hprev, hcycle, hyear]
    omega

theorem civilFromDays_year {z : Int} (hlow : -(2 ^ 31) ≤ z) (hhigh : z < 2 ^ 31 + 10957) :
    -6000000 ≤ (civilFromDays z).1 ∧ (civilFromDays z).1 ≤ 6000000 := by
  simp only [civilFromDays, tdiv_era]
  have hdoe : (z + 719468 - (z + 719468) / 146097 * 146097).toNat < 146097 := by omega
  have hyoe := (yearOfEra_spec hdoe).1
  split <;> omega

end Datetime

end NzRust
