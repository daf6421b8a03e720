import NzRust.Types.Temporal

/-!
# Temporal texts read back

The parsers behind the temporal getters recover the binary value from the text
that the row decoder printed, except at the ends of the 64-bit range.
-/

namespace NzRust

open Datetime

/-! ## Clocks -/

theorem result_ok_bind {α β : Type} (a : α) (f : α → NzResult β) :
    ((Except.ok a : NzResult α) >>= f) = f a :=
  rfl

theorem result_error_bind {α β : Type} (e : NzError) (f : α → NzResult β) :
    ((Except.error e : NzResult α) >>= f) = .error e :=
  rfl

theorem checked_of_range {value : Int} (hlow : -(2 ^ 63) ≤ value) (hhigh : value < 2 ^ 63) :
    checked value = .ok value :=
  if_pos ⟨hlow, hhigh⟩

theorem checked_of_not_range {value : Int} (h : ¬(-(2 ^ 63) ≤ value ∧ value < 2 ^ 63)) :
    checked value = .error invalidTemporal :=
  if_neg h

theorem checked_cases (value : Int) :
    checked value = .ok value ∨ checked value = .error invalidTemporal := by
  unfold checked
  split
  · exact .inl rfl
  · exact .inr rfl

theorem spells_append_splitSign {text : Text} {n : Nat} (h : Spells text n) (rest : Text) :
    splitSign (text ++ rest) = (false, text ++ rest) := by
  cases text with
  | nil => exact absurd rfl h.ne_nil
  | cons c cs =>
      have hc := h.digits c List.mem_cons_self
      unfold splitSign
      split
      · rename_i heq
        cases heq
        cases hc
      · rename_i heq
        cases heq
        cases hc
      · rfl

theorem fractionText_not_mem {c : Char} (hc : c.isDigit = false) (hdot : c ≠ '.') (frac : Nat) :
    c ∉ fractionText frac := by
  unfold fractionText
  split
  · intro hmem
    rcases List.mem_cons.mp hmem with rfl | hmem
    · exact hdot rfl
    · rw [fixedDigits_digits 6 frac c hmem] at hc
      cases hc
  · nofun

theorem parseSeconds_spelled {text : Text} {ss frac : Nat} (h : Spells text ss) (hss : ss < 60)
    (hfrac : frac < 10 ^ 6) : parseSeconds (text ++ fractionText frac) = .ok (ss, frac) := by
  have hparse : parseSigned 64 text = some (ss : Int) := h.parseSigned_eq (by omega)
  have hdot : '.' ∉ text := h.not_mem rfl
  have hseconds : 0 ≤ (ss : Int) ∧ (ss : Int) < 60 := by omega
  unfold parseSeconds fractionText
  by_cases hzero : frac = 0
  · subst hzero
    simp [splitOnce_eq_none hdot, secondsOf, hparse, orInvalid, hseconds, bind, Except.bind]
  · have hfixed : Spells (fixedDigits 6 frac) frac := spells_fixedDigits (by decide) hfrac
    have hall : (fixedDigits 6 frac).all Char.isDigit = true := List.all_eq_true.mpr hfixed.digits
    have hvalue : parseSigned 64 (fixedDigits 6 frac) = some (frac : Int) :=
      hfixed.parseSigned_eq (by omega)
    simp only [hzero, ne_eq, not_false_eq_true, if_true, splitOnce_append hdot, Option.getD_some]
    simp [secondsOf, hparse, orInvalid, hseconds, hall, hfixed.ne_nil, hvalue, bind, Except.bind]

/-- The last check decides: the sums before it are no larger. -/
theorem clockMicros_eq (hours minutes seconds fraction : Nat) :
    clockMicros hours minutes seconds fraction =
      checked ((hours * 3600 + (minutes * 60 + seconds)) * 1000000 + fraction) := by
  by_cases hbound : ((hours : Int) * 3600 + (minutes * 60 + seconds)) * 1000000 + fraction < 2 ^ 63
  · have h₁ : checked ((hours : Int) * 3600) = .ok ((hours : Int) * 3600) :=
      checked_of_range (by omega) (by omega)
    have h₂ : checked ((hours : Int) * 3600 + (minutes * 60 + seconds)) =
        .ok ((hours : Int) * 3600 + (minutes * 60 + seconds)) :=
      checked_of_range (by omega) (by omega)
    have h₃ : checked (((hours : Int) * 3600 + (minutes * 60 + seconds)) * 1000000) =
        .ok (((hours : Int) * 3600 + (minutes * 60 + seconds)) * 1000000) :=
      checked_of_range (by omega) (by omega)
    rw [clockMicros, h₁, result_ok_bind, h₂, result_ok_bind, h₃, result_ok_bind]
  · rw [checked_of_not_range (by omega), clockMicros]
    rcases checked_cases ((hours : Int) * 3600) with h₁ | h₁
    · rw [h₁, result_ok_bind]
      rcases checked_cases ((hours : Int) * 3600 + (minutes * 60 + seconds)) with h₂ | h₂
      · rw [h₂, result_ok_bind]
        rcases checked_cases (((hours : Int) * 3600 + (minutes * 60 + seconds)) * 1000000)
          with h₃ | h₃
        · rw [h₃, result_ok_bind, checked_of_not_range (by omega)]
        · rw [h₃, result_error_bind]
      · rw [h₂, result_error_bind]
    · rw [h₁, result_error_bind]

theorem Spells.colon_free {text : Text} {n : Nat} (h : Spells text n) :
    ∀ c ∈ text, (c == ':') = false := by
  intro c hc
  simp only [beq_eq_false_iff_ne, ne_eq]
  rintro rfl
  exact h.not_mem rfl hc

/-- A printed clock is read back, within the range of `i64`. -/
theorem parseClock_spelled {h m s : Text} {hh mm ss : Nat} (frac : Nat) (hhours : Spells h hh)
    (hminutes : Spells m mm) (hseconds : Spells s ss) (hbound : hh < 2 ^ 63) (hmm : mm < 60)
    (hss : ss < 60) (hfrac : frac < 10 ^ 6) (negative : Bool) :
    parseClock ((if negative then ['-'] else []) ++
        (h ++ ':' :: (m ++ ':' :: (s ++ fractionText frac)))) =
      (checked ((hh * 3600 + (mm * 60 + ss)) * 1000000 + frac) >>= fun micros =>
        .ok (if negative then -micros else micros)) := by
  have hsign : splitSign ((if negative then ['-'] else []) ++
      (h ++ ':' :: (m ++ ':' :: (s ++ fractionText frac)))) =
        (negative, h ++ ':' :: (m ++ ':' :: (s ++ fractionText frac))) := by
    cases negative with
    | true => rfl
    | false => exact spells_append_splitSign hhours _
  have hlast : ∀ c ∈ s ++ fractionText frac, (c == ':') = false := by
    intro c hc
    rcases List.mem_append.mp hc with hc | hc
    · exact hseconds.colon_free c hc
    · simp only [beq_eq_false_iff_ne, ne_eq]
      rintro rfl
      exact fractionText_not_mem rfl (by decide) frac hc
  have hparts : splitAt ':' (h ++ ':' :: (m ++ ':' :: (s ++ fractionText frac))) =
      [h, m, s ++ fractionText frac] := by
    rw [splitAt, splitWhere_append hhours.colon_free rfl,
      splitWhere_append hminutes.colon_free rfl, splitWhere_eq_singleton hlast]
  have hhours' : parseSigned 64 h = some (hh : Int) := hhours.parseSigned_eq hbound
  have hminutes' : parseSigned 64 m = some (mm : Int) := hminutes.parseSigned_eq (by omega)
  have hrange : ¬((hh : Int) < 0 ∨ ¬(0 ≤ (mm : Int) ∧ (mm : Int) < 60)) := by omega
  unfold parseClock
  simp only [hsign, hparts, hhours', hminutes', orInvalid, result_ok_bind, hrange, if_false,
    parseSeconds_spelled hseconds hss hfrac, clockMicros_eq]

theorem clockText_total (magnitude : Nat) :
    ((magnitude / 1000000 / 3600 : Nat) * 3600 +
        ((magnitude / 1000000 % 3600 / 60 : Nat) * 60 + (magnitude / 1000000 % 60 : Nat)) : Int) *
      1000000 + (magnitude % 1000000 : Nat) = magnitude := by
  omega

/-- Every time but the least `i64` is read back. -/
theorem parseClock_timeFrom8bytes {micros : Int} (hlow : -(2 ^ 63) ≤ micros)
    (hhigh : micros < 2 ^ 63) :
    parseClock (timeFrom8bytes micros) =
      if micros = -(2 ^ 63) then .error invalidTemporal else .ok micros := by
  have hclock := parseClock_spelled (micros.natAbs % 1000000)
    (spells_twoDigits (micros.natAbs / 1000000 / 3600))
    (spells_twoDigits (micros.natAbs / 1000000 % 3600 / 60))
    (spells_twoDigits (micros.natAbs / 1000000 % 60))
    (by omega) (by omega) (by omega) (by omega) (decide (micros < 0))
  rw [clockText_total] at hclock
  simp only [decide_eq_true_eq] at hclock
  unfold timeFrom8bytes clockText
  rw [hclock]
  by_cases hleast : micros = -(2 ^ 63)
  · rw [if_pos hleast, checked_of_not_range (by omega), result_error_bind]
  · rw [if_neg hleast, checked_of_range (by omega) (by omega), result_ok_bind]
    by_cases hneg : micros < 0
    · have hvalue : -(micros.natAbs : Int) = micros := by omega
      rw [if_pos hneg, hvalue]
    · have hvalue : (micros.natAbs : Int) = micros := by omega
      rw [if_neg hneg, hvalue]

/-! ## Dates -/

theorem parseSigned_year {year : Int} (hlow : -6000000 ≤ year) (hhigh : year ≤ 6000000) :
    parseSigned 64 (if 0 ≤ year ∧ year ≤ 9999 then fixedDigits 4 year.toNat else displayInt year) =
      some year := by
  split
  · have hspells : Spells (fixedDigits 4 year.toNat) year.toNat :=
      spells_fixedDigits (by decide) (by omega)
    have hparse : parseSigned 64 (fixedDigits 4 year.toNat) = some (year.toNat : Int) :=
      hspells.parseSigned_eq (by omega)
    have hvalue : (year.toNat : Int) = year := by omega
    rw [hparse, hvalue]
  · exact parseSigned_displayInt (by omega) (by omega)

theorem parseDate_dateFrom4bytes {days : Int} (hlow : -(2 ^ 31) ≤ days) (hhigh : days < 2 ^ 31) :
    parseDate (dateFrom4bytes days) = .ok days := by
  obtain ⟨hround, hmonth, hday⟩ := daysFromCivil_civilFromDays (days + postgresEpochDays)
  obtain ⟨hyear, hyear'⟩ := civilFromDays_year (z := days + postgresEpochDays)
    (by simp only [postgresEpochDays]; omega) (by simp only [postgresEpochDays]; omega)
  have hagain := congrArg civilFromDays hround
  unfold dateFrom4bytes
  generalize civilFromDays (days + postgresEpochDays) = civil at *
  obtain ⟨year, month, day⟩ := civil
  simp only at hround hmonth hday hyear hyear' hagain ⊢
  have hmonthText : Spells (fixedDigits 2 month) month := spells_fixedDigits (by decide) (by omega)
  have hdayText : Spells (fixedDigits 2 day) day := spells_fixedDigits (by decide) (by omega)
  have hsplit (front : Text) : front ++ '-' :: (fixedDigits 2 month ++ '-' :: fixedDigits 2 day) =
      (front ++ '-' :: fixedDigits 2 month) ++ '-' :: fixedDigits 2 day := by simp
  have hrange : ¬(¬(-6000000 ≤ year ∧ year ≤ 6000000) ∨ ¬(1 ≤ month ∧ month ≤ 12) ∨
      ¬(1 ≤ day ∧ day ≤ 31)) := by omega
  have hdays : days + postgresEpochDays - postgresEpochDays = days := by omega
  unfold parseDate appendDate
  rw [hsplit, rsplitOnce_append (hdayText.not_mem rfl)]
  simp only [orInvalid, result_ok_bind, hdayText.parseUnsigned_eq (show day < 2 ^ 32 by omega)]
  rw [rsplitOnce_append (hmonthText.not_mem rfl)]
  simp only [result_ok_bind, parseSigned_year hyear hyear', hrange, if_false,
    hmonthText.parseUnsigned_eq (show month < 2 ^ 32 by omega), hagain, ne_eq, not_true_eq_false]
  rw [hround, hdays]
  exact if_pos ⟨hlow, hhigh⟩

/-! ## Timestamps -/

theorem dateFrom4bytes_not_mem (days : Int) : ' ' ∉ dateFrom4bytes days := by
  have hdigits {text : Text} (h : ∀ c ∈ text, c.isDigit = true) : ' ' ∉ text := by
    intro hmem
    exact nomatch h ' ' hmem
  have hyear (year : Int) :
      ' ' ∉ (if 0 ≤ year ∧ year ≤ 9999 then fixedDigits 4 year.toNat else displayInt year) := by
    split
    · exact hdigits (fixedDigits_digits 4 _)
    · cases year with
      | ofNat n => exact hdigits (spells_toDigits n).digits
      | negSucc n =>
          have hrest := hdigits (spells_toDigits (n + 1)).digits
          simpa [displayInt] using hrest
  unfold dateFrom4bytes appendDate
  simp only [List.mem_append, List.mem_cons, not_or]
  exact ⟨hyear _, by decide, hdigits (fixedDigits_digits 2 _), by decide,
    hdigits (fixedDigits_digits 2 _)⟩

/-- A timestamp is read part by part. -/
theorem parseTimestamp_parts {date clock : Text} {days : Int} {time : NzTime}
    (hspace : ' ' ∉ date) (hdate : parseDate date = .ok days)
    (hclock : parseClock clock = .ok time.microseconds) :
    parseTimestamp (date ++ ' ' :: clock) =
      (checked (days * usPerDay)).bind fun midnight =>
        checked (midnight + time.microseconds) := by
  have htime : NzTime.new time.microseconds = .ok time := dif_pos time.inDay
  unfold parseTimestamp
  rw [splitOnce_append hspace, orInvalid, result_ok_bind, hclock, result_ok_bind, htime, result_ok_bind, hdate, result_ok_bind]
  rfl

/-- The clock of a timestamp, padded to two digits throughout. -/
theorem parseClock_appendHms {rem : Nat} (hrem : rem < 86400000000) :
    parseClock (appendHms (rem / 1000000 / 3600) (rem / 1000000 % 3600 / 60)
      (rem / 1000000 % 60) ++ fractionText (rem % 1000000)) = .ok (rem : Int) := by
  have hhours : rem / 1000000 / 3600 < 10 ^ 2 := by omega
  have hminutes : rem / 1000000 % 3600 / 60 < 10 ^ 2 := by omega
  have hseconds : rem / 1000000 % 60 < 10 ^ 2 := by omega
  have hclock := parseClock_spelled (rem % 1000000) (spells_fixedDigits (by decide) hhours)
    (spells_fixedDigits (by decide) hminutes) (spells_fixedDigits (by decide) hseconds)
    (by omega) (by omega) (by omega) (Nat.mod_lt rem (show 0 < 1000000 by decide)) false
  rw [clockText_total, checked_of_range (by omega) (by omega), result_ok_bind] at hclock
  simpa [appendHms] using hclock

/-- Every timestamp is read back, but those of the first day, whose midnight is out of range. -/
theorem parseTimestamp_timestampFrom8bytes {micros : Int} (hlow : -(2 ^ 63) ≤ micros)
    (hhigh : micros < 2 ^ 63) :
    parseTimestamp (timestampFrom8bytes micros) =
      if micros < -106751991 * usPerDay then .error invalidTemporal else .ok micros := by
  have hus : usPerDay = 86400000000 := rfl
  have hdate : parseDate (dateFrom4bytes (micros / usPerDay)) = .ok (micros / usPerDay) :=
    parseDate_dateFrom4bytes (by rw [hus]; omega) (by rw [hus]; omega)
  have hrem : (micros % usPerDay).toNat < 86400000000 := by
    rw [hus]
    omega
  have hin : 0 ≤ ((micros % usPerDay).toNat : Int) ∧
      ((micros % usPerDay).toNat : Int) < usPerDay := by
    rw [hus] at *
    omega
  have hsum : micros / usPerDay * usPerDay + ((micros % usPerDay).toNat : Int) = micros := by
    rw [hus]
    omega
  have hparts := parseTimestamp_parts (dateFrom4bytes_not_mem _) hdate
    (show parseClock _ = .ok (⟨_, hin⟩ : NzTime).microseconds from parseClock_appendHms hrem)
  refine hparts.trans ?_
  by_cases hfirst : micros < -106751991 * usPerDay
  · rw [if_pos hfirst, checked_of_not_range (by rw [hus] at *; omega)]
    rfl
  · rw [if_neg hfirst, checked_of_range (by rw [hus] at *; omega) (by rw [hus] at *; omega)]
    show checked _ = _
    rw [hsum, checked_of_range hlow hhigh]

end NzRust
