import NzRust.Types.Civil

/-!
# The days of a date text

`date_text_to_days` takes year, month and day as they come and looks at no
component behind them. It is right on a text whose components name a day of the
calendar, and on one where a component is missing or no number.
-/

namespace NzRust

open Datetime Checked

/-- The first three components of a text, as the numbers that they are parsed to. -/
def dateComponents (text : Text) : Option (Int × Nat × Nat) := do
  let it := splitAt '-' text
  let y ← parseSigned 64 (← it[0]?)
  let m ← parseUnsigned 32 (← it[1]?)
  let d ← parseUnsigned 32 (← it[2]?)
  return (y, m, d)

def dateTextToDays (s : Text) : Exec NzError (Option Int) :=
  match dateComponents (trim s) with
  | none => .ok none
  | some (y, m, d) => do
      let days ← Machine.daysFromCivil y m d
      let days ← int 64 (days - postgresEpochDays)
      return some days

/-! ## Components -/

theorem dateComponents_eq_some {text : Text} {y : Int} {m d : Nat}
    (h : dateComponents text = some (y, m, d)) :
    ∃ year month day rest, splitAt '-' text = year :: month :: day :: rest ∧
      parseSigned 64 year = some y ∧ parseUnsigned 32 month = some m ∧
      parseUnsigned 32 day = some d := by
  unfold dateComponents at h
  dsimp only at h
  obtain ⟨year, hyear, h⟩ := Option.bind_eq_some_iff.mp h
  obtain ⟨y', hy, h⟩ := Option.bind_eq_some_iff.mp h
  obtain ⟨month, hmonth, h⟩ := Option.bind_eq_some_iff.mp h
  obtain ⟨m', hm, h⟩ := Option.bind_eq_some_iff.mp h
  obtain ⟨day, hday, h⟩ := Option.bind_eq_some_iff.mp h
  obtain ⟨d', hd, h⟩ := Option.bind_eq_some_iff.mp h
  cases h
  generalize splitAt '-' text = parts at *
  match parts, hyear, hmonth, hday with
  | _ :: _ :: _ :: rest, rfl, rfl, rfl => exact ⟨_, _, _, rest, rfl, hy, hm, hd⟩

theorem splitSign_minus {text : Text} (h : (splitSign text).1 = true) :
    ∃ digits, text = '-' :: digits := by
  unfold splitSign at h
  split at h
  · exact ⟨_, rfl⟩
  · cases h
  · cases h

/-- A number without a hyphen has no minus. -/
theorem parseSigned_nonneg {width : Nat} {text : Text} {value : Int} (hfree : '-' ∉ text)
    (h : parseSigned width text = some value) : 0 ≤ value := by
  obtain ⟨n, -, hvalue, -⟩ := parseSigned_spells h
  by_cases hsign : (splitSign text).1 = true
  · obtain ⟨digits, rfl⟩ := splitSign_minus hsign
    exact absurd List.mem_cons_self hfree
  · rw [if_neg hsign] at hvalue
    omega

theorem dateComponents_nonneg {text : Text} {y : Int} {m d : Nat}
    (h : dateComponents text = some (y, m, d)) : 0 ≤ y := by
  obtain ⟨year, month, day, rest, hparts, hy, -⟩ := dateComponents_eq_some h
  exact parseSigned_nonneg (splitAt_eq_cons hparts).1 hy

/-- Three components name what they are parsed to. -/
theorem names_of_components {text : Text} {y : Int} {m d : Nat}
    (h : dateComponents text = some (y, m, d)) (hthree : (splitAt '-' text).length = 3) :
    Names text y m d := by
  obtain ⟨year, month, day, rest, hparts, hy, hm, hd⟩ := dateComponents_eq_some h
  rw [hparts] at hthree
  obtain rfl : rest = [] := List.eq_nil_of_length_eq_zero (by simpa using hthree)
  rcases (splitAt_eq_cons hparts).2 with ⟨hnil, -⟩ | ⟨front, htext, hparts⟩
  · cases hnil
  rcases (splitAt_eq_cons hparts).2 with ⟨hnil, -⟩ | ⟨back, hfront, hparts⟩
  · cases hnil
  rcases (splitAt_eq_cons hparts).2 with ⟨-, hback⟩ | ⟨more, -, hparts⟩
  · exact ⟨year, month, day, by rw [htext, hfront, hback], hy, hm, hd⟩
  · exact absurd hparts (splitWhere_ne_nil _ more)

theorem free_of_not_mem {text : Text} (h : '-' ∉ text) : ∀ c ∈ text, (c == '-') = false := by
  intro c hc
  simp only [beq_eq_false_iff_ne, ne_eq]
  rintro rfl
  exact h hc

/-- A text whose first component is a number names nothing but its components. -/
theorem components_of_names {text : Text} {y y' : Int} {m m' d d' : Nat}
    (h : dateComponents text = some (y, m, d)) (hnames : Names text y' m' d') :
    (splitAt '-' text).length = 3 ∧ y = y' ∧ m = m' ∧ d = d' := by
  obtain ⟨year, month, day, rest, hparts, hy, hm, hd⟩ := dateComponents_eq_some h
  obtain ⟨year', month', day', rfl, hy', hm', hd'⟩ := hnames
  have hmonth : '-' ∉ month' := parseUnsigned_not_mem hm' rfl (by decide)
  have hday : '-' ∉ day' := parseUnsigned_not_mem hd' rfl (by decide)
  have hyear : '-' ∉ year' := by
    intro hmem
    obtain ⟨n, hspells, -⟩ := parseSigned_spells hy'
    rcases splitSign_mem hmem with ⟨-, hsign⟩ | hplus | hmem
    · -- The hyphen of a negative year leaves an empty component in front.
      obtain ⟨digits, rfl⟩ := splitSign_minus hsign
      have hempty : [] = year := (List.cons.inj hparts).1
      rw [← hempty] at hy
      cases hy
    · exact absurd hplus (by decide)
    · exact hspells.not_mem rfl hmem
  have hsplit : splitAt '-' (year' ++ '-' :: (month' ++ '-' :: day')) = [year', month', day'] := by
    rw [splitAt, splitWhere_append (free_of_not_mem hyear) rfl,
      splitWhere_append (free_of_not_mem hmonth) rfl,
      splitWhere_eq_singleton (free_of_not_mem hday)]
  rw [hsplit] at hparts ⊢
  cases hparts
  rw [hy] at hy'
  rw [hm] at hm'
  rw [hd] at hd'
  exact ⟨rfl, Option.some.inj hy', Option.some.inj hm', Option.some.inj hd'⟩

/-! ## Days -/

/-- No overflow, and a number only for the text of a day with this number. -/
def HonestDays (s : Text) : Prop :=
  ∃ days, dateTextToDays s = .ok days ∧ ∀ n, days = some n →
    ∃ y m d, Names (trim s) y m d ∧ Calendar.Exists y m d ∧
      n = Calendar.dayNumber y m d - postgresEpochDays

/-- Components that are numbers are all there are and name a day within reach. -/
def CalendarText (s : Text) : Prop :=
  ∀ y m d, dateComponents (trim s) = some (y, m, d) → (splitAt '-' (trim s)).length = 3 ∧
    Calendar.Exists y m d ∧ Machine.Reached (Calendar.dayNumber y m d)

theorem dayNumber_low {y : Int} {m d : Nat} (h : Calendar.Exists y m d) (hy : 0 ≤ y) :
    -719528 ≤ Calendar.dayNumber y m d := by
  have hfirst := Calendar.Date.le_number ⟨y, m, d, h⟩
  have hyear := Calendar.daysBeforeYear_le hy
  have hzero : Calendar.daysBeforeYear 0 = -366 := rfl
  unfold Calendar.Date.number at hfirst
  dsimp only at hfirst
  omega

theorem dateTextToDays_reached {s : Text} {y : Int} {m d : Nat}
    (h : dateComponents (trim s) = some (y, m, d)) (hexists : Calendar.Exists y m d)
    (hreached : Machine.Reached (Calendar.dayNumber y m d)) :
    dateTextToDays s = .ok (some (Calendar.dayNumber y m d - postgresEpochDays)) := by
  have hlow := dayNumber_low hexists (dateComponents_nonneg h)
  have hyear : -(2 ^ 63) ≤ y ∧ y < 2 ^ 63 := year_range ⟨y, m, d, hexists⟩ hreached
  have hepoch : postgresEpochDays = 10957 := rfl
  have hbounds := hreached
  unfold Machine.Reached at hbounds
  unfold dateTextToDays
  rw [h]
  dsimp only
  rw [Machine.daysFromCivil_eq hyear hexists, if_pos hreached, ok_bind, hepoch,
    int_eq (by omega) (by omega)]
  rfl

theorem dateTextToDays_ok {s : Text} {y : Int} {m d : Nat} {days : Option Int}
    (h : dateComponents (trim s) = some (y, m, d)) (hok : dateTextToDays s = .ok days) :
    ∃ n, days = some n ∧ ∃ z, Machine.daysFromCivil y m d = .ok z := by
  unfold dateTextToDays at hok
  rw [h] at hok
  dsimp only at hok
  obtain ⟨z, hz, hok⟩ := bind_ok hok
  obtain ⟨n, hn, hok⟩ := bind_ok hok
  cases hok
  exact ⟨n, rfl, z, hz⟩

theorem dateTextToDays_honest_iff (s : Text) : HonestDays s ↔ CalendarText s := by
  constructor
  · rintro ⟨days, hok, hdays⟩ y m d hcomponents
    obtain ⟨n, hn, z, hz⟩ := dateTextToDays_ok hcomponents hok
    obtain ⟨y', m', d', hnames, hexists, -⟩ := hdays n hn
    obtain ⟨hthree, rfl, rfl, rfl⟩ := components_of_names hcomponents hnames
    refine ⟨hthree, hexists, ?_⟩
    obtain ⟨year, month, day, rest, -, hy, -⟩ := dateComponents_eq_some hcomponents
    obtain ⟨k, -, -, hyear⟩ := parseSigned_spells hy
    rw [Machine.daysFromCivil_eq hyear hexists] at hz
    by_contra hreached
    rw [if_neg hreached] at hz
    cases hz
  · intro h
    cases hcomponents : dateComponents (trim s) with
    | none =>
        refine ⟨none, ?_, nofun⟩
        unfold dateTextToDays
        rw [hcomponents]
    | some components =>
        obtain ⟨y, m, d⟩ := components
        obtain ⟨hthree, hexists, hreached⟩ := h y m d hcomponents
        refine ⟨_, dateTextToDays_reached hcomponents hexists hreached, ?_⟩
        intro n hn
        cases hn
        exact ⟨y, m, d, names_of_components hcomponents hthree, hexists, rfl⟩

/-- The day of an impossible date is that of another one. -/
theorem february_thirtieth_counted : ¬HonestDays "2000-02-30".toList := by
  intro h
  have hcalendar := (dateTextToDays_honest_iff _).mp h 2000 2 30 (by decide)
  exact absurd hcalendar.2.1 (by decide)

end NzRust
