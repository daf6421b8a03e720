import NzRust.Lib.Calendar
import NzRust.Types.Machine
import NzRust.Types.RoundTrip
import NzRust.Types.Value

/-!
# Days and dates

`civil_from_days` and `days_from_civil` against the Gregorian calendar: the one
yields a date that exists, the other its number, and they are inverse as far as
64 bits reach. `parse_date` accepts the texts of such dates and no others.
-/

namespace NzRust

namespace Datetime

/-! ## The number of a date -/

/-- Two months come before the calendar that starts in March, whose months follow one formula. -/
theorem daysBeforeMonth_eq (year : Int) {m : Nat} (hpos : 1 ≤ m) (hle : m ≤ 12) :
    Calendar.daysBeforeMonth year m =
      if m ≤ 2 then 31 * (m - 1) else 59 + Calendar.leapDays year + (153 * (m - 3) + 2) / 5 := by
  have hleap := Calendar.leapDays_le year
  obtain rfl | rfl | rfl | rfl | rfl | rfl | rfl | rfl | rfl | rfl | rfl | rfl :=
    Calendar.month_cases hpos hle <;>
    simp [Calendar.daysBeforeMonth, Calendar.daysInMonth] <;> omega

theorem daysFromCivil_eq {y : Int} {m d : Nat} (h : Calendar.Exists y m d) :
    daysFromCivil y m d = Calendar.dayNumber y m d := by
  obtain ⟨hpos, hle, hday, -⟩ := h
  have hyear := Calendar.daysBeforeYear_succ y
  simp only [daysFromCivil, tdiv_cycle, Calendar.dayNumber, daysBeforeMonth_eq y hpos hle]
  unfold Calendar.daysBeforeYear at *
  by_cases hm : m ≤ 2
  · have h₂ : ¬ 2 < m := by omega
    simp only [hm, h₂, if_true, if_false]
    omega
  · have h₂ : 2 < m := by omega
    simp only [hm, h₂, if_true, if_false]
    omega

/-! ## The date of a number -/

theorem isLeap_shift (year era : Int) :
    Calendar.IsLeap (year + era * 400) ↔ Calendar.IsLeap year := by
  unfold Calendar.IsLeap
  omega

/-- The year that ends in February has its day 365 only when that February has a day more. -/
theorem dayOfYear_leap {doe : Nat} (h : doe < 146097) :
    dayOfYear doe (yearOfEra doe) ≤ 364 + Calendar.leapDays ((yearOfEra doe : Int) + 1) := by
  by_cases hlast : doe = 146096
  · subst hlast
    decide
  · have hyear : doe < yearStart 400 := by
      show doe < 146096
      omega
    obtain ⟨y, hy, hstart, hend⟩ := exists_year hyear
    rw [yearOfEra_eq hy hstart hend]
    simp only [dayOfYear, yearStart] at *
    by_cases hleap : Calendar.IsLeap ((y : Int) + 1)
    · rw [Calendar.leapDays, if_pos hleap]
      omega
    · rw [Calendar.leapDays, if_neg hleap]
      unfold Calendar.IsLeap at hleap
      have hhundred : y / 100 ≤ (y + 1) / 100 := by omega
      by_cases hfour : (y + 1) % 4 = 0
      · have hcentury : (y + 1) / 100 = y / 100 + 1 := by omega
        omega
      · have hsame : (y + 1) / 4 = y / 4 := by omega
        omega

/-- The lengths of the months from March to December. -/
theorem daysInMonth_eq (year : Int) : ∀ mp < 10,
    Calendar.daysInMonth year (mp + 3) = (153 * (mp + 1) + 2) / 5 - (153 * mp + 2) / 5
  | 0, _ | 1, _ | 2, _ | 3, _ | 4, _ | 5, _ | 6, _ | 7, _ | 8, _ | 9, _ => rfl

theorem civilFromDays_exists (z : Int) :
    Calendar.Exists (civilFromDays z).1 (civilFromDays z).2.1 (civilFromDays z).2.2 := by
  simp only [civilFromDays, tdiv_era]
  generalize hera : (z + 719468) / 146097 = era
  generalize hdoe : (z + 719468 - era * 146097).toNat = doe
  have hdoe_lt : doe < 146097 := by omega
  have hleap := dayOfYear_leap hdoe_lt
  generalize yearOfEra doe = yoe at hleap
  generalize dayOfYear doe yoe = doy at hleap
  have hleap_le := Calendar.leapDays_le ((yoe : Int) + 1)
  generalize hmp : (5 * doy + 2) / 153 = mp
  by_cases hm : mp < 10
  · have h₁ : ¬ mp + 3 ≤ 2 := by omega
    simp only [hm, h₁, if_true, if_false]
    refine ⟨by omega, by omega, by omega, ?_⟩
    rw [daysInMonth_eq _ mp hm]
    omega
  · have h₁ : mp - 9 ≤ 2 := by omega
    simp only [hm, h₁, if_true, if_false]
    refine ⟨by omega, by omega, by omega, ?_⟩
    have hmonth : mp = 10 ∨ mp = 11 := by omega
    rcases hmonth with rfl | rfl
    · show doy - (153 * 10 + 2) / 5 + 1 ≤ 31
      omega
    · -- The days of February are those that the year has left.
      have hyear : (yoe : Int) + era * 400 + 1 = (yoe + 1) + era * 400 := by omega
      have hshift : Calendar.leapDays ((yoe : Int) + 1 + era * 400) =
          Calendar.leapDays ((yoe : Int) + 1) := by
        simp only [Calendar.leapDays, isLeap_shift]
      show doy - (153 * 11 + 2) / 5 + 1 ≤ 28 + Calendar.leapDays ((yoe : Int) + era * 400 + 1)
      rw [hyear, hshift]
      omega

/-- The date of a day. -/
def civilDate (z : Int) : Calendar.Date :=
  ⟨_, _, _, civilFromDays_exists z⟩

@[simp] theorem civilDate_number (z : Int) : (civilDate z).number = z :=
  (daysFromCivil_eq (civilFromDays_exists z)).symm.trans (daysFromCivil_civilFromDays z).1

/-- Consecutive days have consecutive dates. -/
theorem civilDate_succ (z : Int) : civilDate (z + 1) = (civilDate z).next := by
  apply Calendar.Date.number_injective
  rw [Calendar.Date.next_number, civilDate_number, civilDate_number]

theorem civilDate_of_number (date : Calendar.Date) : civilDate date.number = date :=
  Calendar.Date.number_injective (civilDate_number _)

theorem civilFromDays_dayNumber {y : Int} {m d : Nat} (h : Calendar.Exists y m d) :
    civilFromDays (Calendar.dayNumber y m d) = (y, m, d) :=
  congrArg (fun date : Calendar.Date => (date.year, date.month, date.day))
    (civilDate_of_number ⟨y, m, d, h⟩)

end Datetime

/-! ## The range of 64 bits -/

namespace Machine

open Checked Datetime

def daysFromCivil (y : Int) (m d : Nat) : Exec NzError Int := do
  let y ← (if m ≤ 2 then int 64 (y - 1) else .ok y)
  let shifted ← (if 0 ≤ y then .ok y else int 64 (y - 399))
  let era := shifted.tdiv 400
  let eraYears ← int 64 (era * 400)
  let yoe ← int 64 (y - eraYears)
  let yoe := asWord 64 yoe
  let mp ← (if 2 < m then subWord m 3 else addWord 32 m 9)
  let doy ← mulWord 64 153 mp
  let doy ← addWord 64 doy 2
  let doy ← addWord 64 (doy / 5) d
  let doy ← subWord doy 1
  let doe ← mulWord 64 yoe 365
  let doe ← addWord 64 doe (yoe / 4)
  let doe ← subWord doe (yoe / 100)
  let doe ← addWord 64 doe doy
  let days ← int 64 (era * 146097)
  let days ← int 64 (days + doe)
  int 64 (days - 719468)

/-- The days since 1970-01-01 whose number from 0000-03-01 on is an `i64` too. -/
def Reached (days : Int) : Prop :=
  -(2 ^ 63) ≤ days ∧ days < 2 ^ 63 - 719468

instance (days : Int) : Decidable (Reached days) :=
  inferInstanceAs (Decidable (_ ∧ _))

theorem int_panics {bits : Nat} {x : Int} (h : ¬(-(2 ^ (bits - 1)) ≤ x ∧ x < 2 ^ (bits - 1))) :
    (int bits x : Exec NzError Int) = panics :=
  if_neg h

theorem panics_bind {α β : Type} (f : α → Exec NzError β) :
    ((panics : Exec NzError α) >>= f) = panics :=
  rfl

theorem monthShift_eq {m : Nat} (hle : m ≤ 12) :
    (if 2 < m then subWord m 3 else addWord 32 m 9 : Exec NzError Nat) =
      .ok (if 2 < m then m - 3 else m + 9) := by
  by_cases h : 2 < m
  · rw [if_pos h, if_pos h, subWord_eq (by omega)]
  · rw [if_neg h, if_neg h, addWord_eq (by omega)]

/-- On a date only the last steps can leave the range, and only where the day itself is out of it. -/
theorem daysFromCivil_eq {y : Int} {m d : Nat} (hy : -(2 ^ 63) ≤ y ∧ y < 2 ^ 63)
    (h : Calendar.Exists y m d) :
    daysFromCivil y m d =
      if Reached (Calendar.dayNumber y m d) then .ok (Calendar.dayNumber y m d) else panics := by
  have hnumber := Datetime.daysFromCivil_eq h
  obtain ⟨hpos, hle, hday, hday'⟩ := h
  have hlength := Calendar.daysInMonth_le y m
  simp only [Datetime.daysFromCivil, tdiv_cycle] at hnumber
  unfold daysFromCivil
  generalize Calendar.dayNumber y m d = days at hnumber ⊢
  have hyear : (if m ≤ 2 then int 64 (y - 1) else .ok y : Exec NzError Int) =
      int 64 (if m ≤ 2 then y - 1 else y) := by
    split
    · rfl
    · exact (int_eq hy.1 hy.2).symm
  have hmp : (if 2 < m then m - 3 else m + 9) ≤ 11 := by
    split <;> omega
  rw [hyear, monthShift_eq hle]
  have hstart : (if m ≤ 2 then y - 1 else y) ≤ y := by
    split <;> omega
  generalize (if m ≤ 2 then y - 1 else y) = y' at hnumber hstart ⊢
  generalize (if 2 < m then m - 3 else m + 9) = mp at hnumber hmp ⊢
  have htdiv := tdiv_cycle y'
  by_cases hlow : -(2 ^ 63) + 399 ≤ y'
  · have hshift : (if 0 ≤ y' then .ok y' else int 64 (y' - 399) : Exec NzError Int) =
        .ok (if 0 ≤ y' then y' else y' - 399) := by
      split
      · rfl
      · exact int_eq (by omega) (by omega)
    rw [int_eq (by omega) (by omega), ok_bind, hshift, ok_bind]
    dsimp only
    rw [htdiv, int_eq (by omega) (by omega), ok_bind, int_eq (by omega) (by omega), ok_bind,
      asWord_eq (by omega) (by omega)]
    generalize hyoe : (y' - y' / 400 * 400).toNat = yoe at hnumber ⊢
    have hyoe_lt : yoe < 400 := by omega
    generalize y' / 400 = era at hnumber ⊢
    rw [ok_bind, mulWord_eq (by omega), ok_bind, addWord_eq (by omega), ok_bind,
      addWord_eq (by omega), ok_bind, subWord_eq (by omega), ok_bind, mulWord_eq (by omega), ok_bind,
      addWord_eq (by omega), ok_bind, subWord_eq (by omega), ok_bind, addWord_eq (by omega), ok_bind]
    generalize hdoe : yoe * 365 + yoe / 4 - yoe / 100 + ((153 * mp + 2) / 5 + d - 1) = doe
      at hnumber ⊢
    have hdoe_lt : doe < 719468 := by omega
    by_cases hdays : Reached days
    · have hvalue : era * 146097 + doe - 719468 = days := hnumber
      rw [if_pos hdays]
      unfold Reached at hdays
      rw [int_eq (by omega) (by omega), ok_bind, int_eq (by omega) (by omega), ok_bind,
        int_eq (by omega) (by omega), hvalue]
    · rw [if_neg hdays]
      unfold Reached at hdays
      -- One of the last three steps leaves the range.
      by_cases h₁ : -(2 ^ (64 - 1)) ≤ era * 146097 ∧ era * 146097 < 2 ^ (64 - 1)
      · rw [int_eq h₁.1 h₁.2, ok_bind]
        by_cases h₂ : -(2 ^ (64 - 1)) ≤ era * 146097 + doe ∧ era * 146097 + doe < 2 ^ (64 - 1)
        · rw [int_eq h₂.1 h₂.2, ok_bind, int_panics (by omega)]
        · rw [int_panics h₂, panics_bind]
      · rw [int_panics h₁, panics_bind]
  · have hdays : ¬Reached days := by
      unfold Reached
      omega
    rw [if_neg hdays]
    by_cases hleast : -(2 ^ (64 - 1)) ≤ y' ∧ y' < 2 ^ (64 - 1)
    · rw [int_eq hleast.1 hleast.2, ok_bind, if_neg (by omega), int_panics (by omega), panics_bind]
    · rw [int_panics hleast, panics_bind]

end Machine

/-! ## The texts of dates -/

open Datetime

/-- A text that gives a year, a month and a day as numbers with hyphens between them. -/
def Names (text : Text) (y : Int) (m d : Nat) : Prop :=
  ∃ year month day, text = year ++ '-' :: (month ++ '-' :: day) ∧ parseSigned 64 year = some y ∧
    parseUnsigned 32 month = some m ∧ parseUnsigned 32 day = some d

theorem orInvalid_ok {α : Type} {x : Option α} {a : α} (h : orInvalid x = .ok a) : x = some a := by
  cases x with
  | none => cases h
  | some b => exact congrArg some (Except.ok.inj h)

theorem parseDate_ok {text : Text} {days : Int} (h : parseDate text = .ok days) :
    ∃ y m d, Names text y m d ∧ (-6000000 ≤ y ∧ y ≤ 6000000) ∧ Calendar.Exists y m d ∧
      days = Calendar.dayNumber y m d - postgresEpochDays ∧ -(2 ^ 31) ≤ days ∧ days < 2 ^ 31 := by
  unfold parseDate at h
  obtain ⟨⟨front, day⟩, houter, h⟩ := Checked.except_bind_ok h
  obtain ⟨d, hd, h⟩ := Checked.except_bind_ok h
  obtain ⟨⟨year, month⟩, hinner, h⟩ := Checked.except_bind_ok h
  obtain ⟨y, hy, h⟩ := Checked.except_bind_ok h
  obtain ⟨m, hm, h⟩ := Checked.except_bind_ok h
  have htext := (rsplitOnce_eq_some (orInvalid_ok houter)).1
  have hfront := (rsplitOnce_eq_some (orInvalid_ok hinner)).1
  dsimp only at hfront hd hy hm h
  by_cases hrange : ¬(-6000000 ≤ y ∧ y ≤ 6000000) ∨ ¬(1 ≤ m ∧ m ≤ 12) ∨ ¬(1 ≤ d ∧ d ≤ 31)
  · rw [if_pos hrange] at h
    cases h
  rw [if_neg hrange] at h
  by_cases hback : civilFromDays (daysFromCivil y m d) ≠ (y, m, d)
  · rw [if_pos hback] at h
    cases h
  rw [if_neg hback] at h
  have hexists := civilFromDays_exists (daysFromCivil y m d)
  rw [not_not.mp hback] at hexists
  by_cases hfits : -(2 ^ 31) ≤ daysFromCivil y m d - postgresEpochDays ∧
      daysFromCivil y m d - postgresEpochDays < 2 ^ 31
  · rw [if_pos hfits] at h
    cases h
    have hnames : Names text y m d :=
      ⟨year, month, day, by simp [htext, hfront], orInvalid_ok hy, orInvalid_ok hm, orInvalid_ok hd⟩
    rw [daysFromCivil_eq hexists] at hfits ⊢
    exact ⟨y, m, d, hnames, by omega, hexists, rfl, hfits⟩
  · rw [if_neg hfits] at h
    cases h

theorem parseDate_names {text : Text} {y : Int} {m d : Nat} (hnames : Names text y m d)
    (hyear : -6000000 ≤ y ∧ y ≤ 6000000) (h : Calendar.Exists y m d)
    (hfits : -(2 ^ 31) ≤ Calendar.dayNumber y m d - postgresEpochDays ∧
      Calendar.dayNumber y m d - postgresEpochDays < 2 ^ 31) :
    parseDate text = .ok (Calendar.dayNumber y m d - postgresEpochDays) := by
  obtain ⟨year, month, day, rfl, hy, hm, hd⟩ := hnames
  have hback := civilFromDays_dayNumber h
  have hnumber := daysFromCivil_eq h
  obtain ⟨hpos, hle, hday, hday'⟩ := h
  have hlength := Calendar.daysInMonth_le y m
  have hrange : ¬(¬(-6000000 ≤ y ∧ y ≤ 6000000) ∨ ¬(1 ≤ m ∧ m ≤ 12) ∨ ¬(1 ≤ d ∧ d ≤ 31)) := by
    omega
  have hsplit : year ++ '-' :: (month ++ '-' :: day) = (year ++ '-' :: month) ++ '-' :: day := by
    simp
  have houter := rsplitOnce_append (parseUnsigned_not_mem hd (c := '-') rfl (by decide))
    (year ++ '-' :: month)
  have hinner := rsplitOnce_append (parseUnsigned_not_mem hm (c := '-') rfl (by decide)) year
  unfold parseDate
  simp only [hsplit, houter, hinner, orInvalid, result_ok_bind, hd, hy, hm, hrange, if_false,
    hnumber, hback, ne_eq, not_true_eq_false]
  exact if_pos hfits

/-- Days since 2000-01-01. -/
structure NzDate where
  days : Int32
  deriving DecidableEq, Repr

/-- `Display`, and with it the text of `to_nz_value`. -/
def NzDate.display (date : NzDate) : Text :=
  dateFrom4bytes date.days.toInt

def NzDate.toNzValue (N : Numerics) (date : NzDate) : NzValue N :=
  .date date.display

def NzDate.fromSql {N : Numerics} : NzValue N → NzResult NzDate
  | .date text => do
      let days ← parseDate text
      .ok ⟨Int32.ofInt days⟩
  | _ => .error invalidTemporal

theorem NzDate.fromSql_toNzValue (N : Numerics) (date : NzDate) :
    NzDate.fromSql (date.toNzValue N) = .ok date := by
  have hparse := parseDate_dateFrom4bytes date.days.minValue_le_toInt (by
    have := date.days.toInt_lt
    omega)
  unfold NzDate.fromSql NzDate.toNzValue NzDate.display
  dsimp only
  rw [hparse, result_ok_bind, Int32.ofInt_toInt]

/-! ## Days, dates and texts -/

/-- A year is as far from the epoch as its days. -/
theorem year_range (date : Calendar.Date) (h : Machine.Reached date.number) :
    -(2 ^ 63) ≤ date.year ∧ date.year < 2 ^ 63 := by
  have hfirst := date.le_number
  have hlast := date.number_lt
  unfold Machine.Reached at h
  unfold Calendar.daysBeforeYear at hfirst hlast
  omega

/-- Both functions as far as 64 bits reach. -/
theorem civil_machine (date : Calendar.Date) (h : Machine.Reached date.number) :
    Machine.civilFromDays date.number = .ok (date.year, date.month, date.day) ∧
      Machine.daysFromCivil date.year date.month date.day = .ok date.number := by
  constructor
  · rw [Machine.civilFromDays_eq h.1 h.2]
    exact congrArg Except.ok (civilFromDays_dayNumber date.valid)
  · rw [Machine.daysFromCivil_eq (year_range date h) date.valid]
    exact if_pos h

theorem calendar_exact (N : Numerics) :
    (∀ z, Machine.Reached z → ∃ date : Calendar.Date,
      Machine.civilFromDays z = .ok (date.year, date.month, date.day) ∧
      Machine.daysFromCivil date.year date.month date.day = .ok z ∧ date.number = z ∧
      (Machine.Reached (z + 1) → Machine.civilFromDays (z + 1) =
        .ok (date.next.year, date.next.month, date.next.day))) ∧
    (∀ y m d, -(2 ^ 63) ≤ y ∧ y < 2 ^ 63 → Calendar.Exists y m d →
      if Machine.Reached (Calendar.dayNumber y m d) then
        (Machine.daysFromCivil y m d >>= Machine.civilFromDays) = .ok (y, m, d)
      else Machine.daysFromCivil y m d = Checked.panics) ∧
    (∀ date : NzDate, NzDate.fromSql (date.toNzValue N) = .ok date) ∧
    ∀ text days, parseDate text = .ok days →
      ∃ y m d, Names text y m d ∧ (-6000000 ≤ y ∧ y ≤ 6000000) ∧ Calendar.Exists y m d ∧
        days = Calendar.dayNumber y m d - postgresEpochDays ∧ -(2 ^ 31) ≤ days ∧ days < 2 ^ 31 := by
  refine ⟨?_, ?_, NzDate.fromSql_toNzValue N, fun _ _ => parseDate_ok⟩
  · intro z hz
    have hnumber := civilDate_number z
    obtain ⟨hcivil, hdays⟩ := civil_machine (civilDate z) (by rwa [hnumber])
    rw [hnumber] at hcivil hdays
    refine ⟨civilDate z, hcivil, hdays, hnumber, ?_⟩
    intro hnext
    have hsucc : (civilDate z).next.number = z + 1 := by
      rw [Calendar.Date.next_number, hnumber]
    rw [← hsucc] at hnext ⊢
    exact (civil_machine _ hnext).1
  · intro y m d hy hexists
    by_cases hreached : Machine.Reached (Calendar.dayNumber y m d)
    · rw [if_pos hreached]
      have hmachine := civil_machine ⟨y, m, d, hexists⟩ hreached
      rw [hmachine.2]
      exact hmachine.1
    · rw [if_neg hreached, Machine.daysFromCivil_eq hy hexists, if_neg hreached]

/-- The last year of an `i64` has no day number. -/
theorem last_year_unreached :
    ¬∀ y m d, -(2 ^ 63) ≤ y ∧ y < 2 ^ 63 → Calendar.Exists y m d →
      ∃ z, Machine.daysFromCivil y m d = .ok z ∧ Machine.civilFromDays z = .ok (y, m, d) := by
  intro h
  obtain ⟨z, hz, -⟩ := h (2 ^ 63 - 1) 1 1 (by decide) (by decide)
  have hpanics : Machine.daysFromCivil (2 ^ 63 - 1) 1 1 = Checked.panics := by decide
  rw [hpanics] at hz
  cases hz

end NzRust
