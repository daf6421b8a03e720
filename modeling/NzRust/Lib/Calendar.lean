import Mathlib.Algebra.Order.Ring.Int

/-!
# The proleptic Gregorian calendar

Dates carry the proof that they exist. `dayNumber` numbers them; the day behind
a date has the next number, and a number belongs to one date only.
-/

namespace Calendar

def IsLeap (year : Int) : Prop :=
  year % 4 = 0 ∧ (year % 100 ≠ 0 ∨ year % 400 = 0)

instance (year : Int) : Decidable (IsLeap year) :=
  inferInstanceAs (Decidable (_ ∧ _))

def leapDays (year : Int) : Nat :=
  if IsLeap year then 1 else 0

/-- The length of a month, `0` for a number that names none. -/
def daysInMonth (year : Int) : Nat → Nat
  | 1 | 3 | 5 | 7 | 8 | 10 | 12 => 31
  | 4 | 6 | 9 | 11 => 30
  | 2 => 28 + leapDays year
  | _ => 0

/-- Such a day exists. -/
structure Exists (year : Int) (month day : Nat) : Prop where
  month_pos : 1 ≤ month
  month_le : month ≤ 12
  day_pos : 1 ≤ day
  day_le : day ≤ daysInMonth year month

instance (year : Int) (month day : Nat) : Decidable (Exists year month day) :=
  decidable_of_iff (1 ≤ month ∧ month ≤ 12 ∧ 1 ≤ day ∧ day ≤ daysInMonth year month)
    ⟨fun h => ⟨h.1, h.2.1, h.2.2.1, h.2.2.2⟩, fun h => ⟨h.1, h.2, h.3, h.4⟩⟩

structure Date where
  year : Int
  month : Nat
  day : Nat
  valid : Exists year month day

theorem month_cases {month : Nat} (hpos : 1 ≤ month) (hle : month ≤ 12) :
    month = 1 ∨ month = 2 ∨ month = 3 ∨ month = 4 ∨ month = 5 ∨ month = 6 ∨ month = 7 ∨ month = 8 ∨
      month = 9 ∨ month = 10 ∨ month = 11 ∨ month = 12 := by
  omega

theorem leapDays_le (year : Int) : leapDays year ≤ 1 := by
  unfold leapDays
  split <;> omega

theorem daysInMonth_pos (year : Int) {month : Nat} (hpos : 1 ≤ month) (hle : month ≤ 12) :
    28 ≤ daysInMonth year month := by
  obtain rfl | rfl | rfl | rfl | rfl | rfl | rfl | rfl | rfl | rfl | rfl | rfl :=
    month_cases hpos hle <;> simp [daysInMonth]

theorem daysInMonth_le (year : Int) (month : Nat) : daysInMonth year month ≤ 31 := by
  have hleap := leapDays_le year
  unfold daysInMonth
  split <;> omega

/-! ## The day behind a date -/

theorem first_exists (year : Int) {month : Nat} (hpos : 1 ≤ month) (hle : month ≤ 12) :
    Exists year month 1 :=
  ⟨hpos, hle, Nat.le_refl 1, by
    have := daysInMonth_pos year hpos hle
    omega⟩

/-- The day behind a date: in its month, on the first of the next month or of the next year. -/
def Date.next (date : Date) : Date :=
  if h : date.day + 1 ≤ daysInMonth date.year date.month then
    ⟨date.year, date.month, date.day + 1, date.valid.month_pos, date.valid.month_le, by omega, h⟩
  else if hmonth : date.month + 1 ≤ 12 then
    ⟨date.year, date.month + 1, 1, first_exists date.year (by omega) hmonth⟩
  else ⟨date.year + 1, 1, 1, first_exists (date.year + 1) (by decide) (by decide)⟩

/-! ## The numbers of the days -/

/-- The days of the year before a month. -/
def daysBeforeMonth (year : Int) : Nat → Nat
  | 0 => 0
  | month + 1 => daysBeforeMonth year month + daysInMonth year month

/-- The days from the first of January of the year 1 to that of another year. -/
def daysBeforeYear (year : Int) : Int :=
  365 * (year - 1) + (year - 1) / 4 - (year - 1) / 100 + (year - 1) / 400

/-- The day of a year and a month and a day, in days from 1970-01-01. -/
def dayNumber (year : Int) (month day : Nat) : Int :=
  daysBeforeYear year + daysBeforeMonth year month + day - 719163

def Date.number (date : Date) : Int :=
  dayNumber date.year date.month date.day

theorem daysBeforeYear_succ (year : Int) :
    daysBeforeYear (year + 1) = daysBeforeYear year + 365 + leapDays year := by
  unfold daysBeforeYear leapDays
  by_cases h : IsLeap year
  · rw [if_pos h]
    unfold IsLeap at h
    omega
  · rw [if_neg h]
    unfold IsLeap at h
    omega

/-- A year is as long as its months. -/
theorem daysBeforeMonth_thirteen (year : Int) : daysBeforeMonth year 13 = 365 + leapDays year := by
  simp only [daysBeforeMonth, daysInMonth]
  omega

theorem Date.next_number (date : Date) : date.next.number = date.number + 1 := by
  obtain ⟨year, month, day, hpos, hle, hday, hday'⟩ := date
  unfold Date.next Date.number dayNumber
  dsimp only
  by_cases hin : day + 1 ≤ daysInMonth year month
  · rw [dif_pos hin]
    dsimp only
    omega
  rw [dif_neg hin]
  have hlast : day = daysInMonth year month := by omega
  by_cases hmonth : month + 1 ≤ 12
  · rw [dif_pos hmonth]
    dsimp only
    rw [daysBeforeMonth, hlast]
    omega
  · rw [dif_neg hmonth]
    dsimp only
    obtain rfl : month = 12 := by omega
    have hyear := daysBeforeYear_succ year
    have hthirteen := daysBeforeMonth_thirteen year
    have hstep : daysBeforeMonth year 13 = daysBeforeMonth year 12 + daysInMonth year 12 := rfl
    have hone : daysBeforeMonth (year + 1) 1 = 0 := rfl
    omega

/-! ## A number belongs to one date -/

theorem daysBeforeMonth_le (year : Int) {a b : Nat} (h : a ≤ b) :
    daysBeforeMonth year a ≤ daysBeforeMonth year b := by
  induction h with
  | refl => exact Nat.le_refl _
  | step _ ih => exact ih.trans (Nat.le_add_right _ _)

theorem daysBeforeYear_le {a b : Int} (h : a ≤ b) : daysBeforeYear a ≤ daysBeforeYear b := by
  unfold daysBeforeYear
  omega

/-- A date lies in its year. -/
theorem Date.number_lt (date : Date) : date.number < daysBeforeYear (date.year + 1) - 719162 := by
  obtain ⟨year, month, day, hpos, hle, hday, hday'⟩ := date
  have hmonth : daysBeforeMonth year month + daysInMonth year month ≤ daysBeforeMonth year 13 :=
    daysBeforeMonth_le year (show month + 1 ≤ 13 by omega)
  rw [daysBeforeMonth_thirteen] at hmonth
  unfold Date.number dayNumber
  rw [daysBeforeYear_succ]
  dsimp only
  omega

theorem Date.le_number (date : Date) : daysBeforeYear date.year - 719162 ≤ date.number := by
  have := date.valid.day_pos
  unfold Date.number dayNumber
  omega

theorem Date.number_injective {a b : Date} (h : a.number = b.number) : a = b := by
  have hyear : a.year = b.year := by
    rcases Int.lt_trichotomy a.year b.year with hlt | heq | hlt
    · have hle := daysBeforeYear_le (show a.year + 1 ≤ b.year by omega)
      have hlast := a.number_lt
      have hfirst := b.le_number
      omega
    · exact heq
    · have hle := daysBeforeYear_le (show b.year + 1 ≤ a.year by omega)
      have hlast := b.number_lt
      have hfirst := a.le_number
      omega
  obtain ⟨year, month, day, hpos, hle, hday, hday'⟩ := a
  obtain ⟨year', month', day', hpos', hle', hday₂, hday₂'⟩ := b
  dsimp only at hyear
  subst hyear
  unfold Date.number dayNumber at h
  dsimp only at h
  have hmonth : month = month' := by
    rcases Nat.lt_trichotomy month month' with hlt | heq | hlt
    · have hbefore : daysBeforeMonth year month + daysInMonth year month ≤
          daysBeforeMonth year month' := daysBeforeMonth_le year hlt
      omega
    · exact heq
    · have hbefore : daysBeforeMonth year month' + daysInMonth year month' ≤
          daysBeforeMonth year month := daysBeforeMonth_le year hlt
      omega
  subst hmonth
  obtain rfl : day = day' := by omega
  rfl

end Calendar
