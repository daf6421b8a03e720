import NzRust.Types.Civil

/-!
# Temporal values as SQL text

`to_nz_value` prints a temporal value and `from_sql` reads it back. Times come
back without exception; a timestamp, an interval and a time with zone have one
end of their range that does not.
-/

namespace NzRust

open Datetime

/-! ## Values and their texts -/

def NzTime.display (time : NzTime) : Text :=
  timeFrom8bytes time.microseconds

/-- Microseconds since 2000-01-01. -/
structure NzTimestamp where
  microseconds : Int64
  deriving DecidableEq, Repr

def NzTimestamp.display (timestamp : NzTimestamp) : Text :=
  timestampFrom8bytes timestamp.microseconds.toInt

def NzInterval.display (interval : NzInterval) : Text :=
  intervalFrom12bytes interval.microseconds interval.months

/-- The zone is printed from its opposite; `saturating_neg` has nothing to saturate here. -/
def NzTimetz.display (timetz : NzTimetz) : Text :=
  timetzFromBytes timetz.time.microseconds (-timetz.offsetSeconds)

section Values

variable {N : Numerics}

def NzTime.toNzValue (N : Numerics) (time : NzTime) : NzValue N :=
  .time time.display

def NzTime.fromSql : NzValue N → NzResult NzTime
  | .time text => do NzTime.new (← parseClock text)
  | _ => .error invalidTemporal

def NzTimestamp.toNzValue (N : Numerics) (timestamp : NzTimestamp) : NzValue N :=
  .timestamp timestamp.display

def NzTimestamp.fromSql : NzValue N → NzResult NzTimestamp
  | .timestamp text => do
      let micros ← parseTimestamp text
      .ok ⟨Int64.ofInt micros⟩
  | _ => .error invalidTemporal

def NzInterval.toNzValue (N : Numerics) (interval : NzInterval) : NzValue N :=
  .interval interval.display

def NzInterval.fromSql : NzValue N → NzResult NzInterval
  | .interval text => parseInterval text
  | _ => .error invalidTemporal

def NzTimetz.toNzValue (N : Numerics) (timetz : NzTimetz) : NzValue N :=
  .timetz timetz.display

def NzTimetz.fromSql : NzValue N → NzResult NzTimetz
  | .timetz text => parseTimetz text
  | _ => .error invalidTemporal

end Values

/-! ## Times and timestamps -/

theorem NzTime.fromSql_toNzValue (N : Numerics) (time : NzTime) :
    NzTime.fromSql (time.toNzValue N) = .ok time := by
  have hus : usPerDay = 86400000000 := rfl
  have hbounds := time.inDay
  have hclock : parseClock time.display = .ok time.microseconds := by
    rw [NzTime.display, parseClock_timeFrom8bytes (by omega) (by omega), if_neg (by omega)]
  unfold NzTime.fromSql NzTime.toNzValue
  dsimp only
  rw [hclock, result_ok_bind]
  exact dif_pos time.inDay

theorem NzTimestamp.fromSql_toNzValue_iff (N : Numerics) (timestamp : NzTimestamp) :
    NzTimestamp.fromSql (timestamp.toNzValue N) = .ok timestamp ↔
      -106751991 * usPerDay ≤ timestamp.microseconds.toInt := by
  have hparse := parseTimestamp_timestampFrom8bytes timestamp.microseconds.minValue_le_toInt (by
    have := timestamp.microseconds.toInt_lt
    omega)
  unfold NzTimestamp.fromSql NzTimestamp.toNzValue NzTimestamp.display
  dsimp only
  rw [hparse]
  by_cases hfirst : timestamp.microseconds.toInt < -106751991 * usPerDay
  · rw [if_pos hfirst, result_error_bind]
    exact iff_of_false (by simp) (by omega)
  · rw [if_neg hfirst, result_ok_bind, Int64.ofInt_toInt]
    exact iff_of_true rfl (by omega)

/-! ## Intervals -/

/-- The characters of the printed numbers and clocks. -/
def isTokenChar (c : Char) : Bool :=
  c.isDigit || c == ':' || c == '.' || c == '-'

theorem isTokenChar_visible {c : Char} (h : isTokenChar c = true) : isWhitespace c = false := by
  have hrange : 45 ≤ c.toNat ∧ c.toNat ≤ 58 := by
    simp only [isTokenChar, Bool.or_eq_true, beq_iff_eq] at h
    rcases h with ((h | rfl) | rfl) | rfl
    · have hdigit : 48 ≤ c.toNat ∧ c.toNat ≤ 57 := Char.isDigit_iff_toNat.mp h
      omega
    · decide
    · decide
    · decide
  unfold isWhitespace
  simp
  omega

theorem Spells.token {text : Text} {n : Nat} (h : Spells text n) : text.all isTokenChar = true := by
  rw [List.all_eq_true]
  intro c hc
  simp [isTokenChar, h.digits c hc]

theorem displayInt_token (value : Int) : (displayInt value).all isTokenChar = true := by
  cases value with
  | ofNat n => exact (spells_toDigits n).token
  | negSucc n =>
      have hdigits := (spells_toDigits (n + 1)).token
      rw [displayInt, List.all_cons, hdigits]
      rfl

theorem displayInt_colon (value : Int) : (displayInt value).contains ':' = false := by
  cases value with
  | ofNat n =>
      have hfree := (spells_toDigits n).not_mem (c := ':') rfl
      simpa [displayInt] using hfree
  | negSucc n => simpa [displayInt] using (spells_toDigits (n + 1)).not_mem (c := ':') rfl

theorem displayInt_ne_nil (value : Int) : displayInt value ≠ [] := by
  cases value with
  | ofNat n => exact (spells_toDigits n).ne_nil
  | negSucc n => simp [displayInt]

theorem fractionText_token (frac : Nat) : (fractionText frac).all isTokenChar = true := by
  unfold fractionText
  by_cases h : frac ≠ 0
  · have hdigits : (fixedDigits 6 frac).all isTokenChar = true := by
      rw [List.all_eq_true]
      intro c hc
      simp [isTokenChar, fixedDigits_digits 6 frac c hc]
    rw [if_pos h, List.all_cons, hdigits]
    rfl
  · rw [if_neg h]
    rfl

theorem clockText_token (magnitude : Nat) : (clockText magnitude).all isTokenChar = true := by
  have hcolon : isTokenChar ':' = true := rfl
  simp only [clockText, List.all_append, List.all_cons, (spells_twoDigits _).token,
    fractionText_token, hcolon, Bool.and_self]

theorem timeFrom8bytes_token (micros : Int) : (timeFrom8bytes micros).all isTokenChar = true := by
  unfold timeFrom8bytes
  rw [List.all_append, clockText_token, Bool.and_true]
  by_cases h : micros < 0
  · rw [if_pos h]
    rfl
  · rw [if_neg h]
    rfl

theorem timeFrom8bytes_colon (micros : Int) : (timeFrom8bytes micros).contains ':' = true := by
  simp [timeFrom8bytes, clockText]

theorem timeFrom8bytes_ne_nil (micros : Int) : timeFrom8bytes micros ≠ [] := by
  intro h
  have hcolon := timeFrom8bytes_colon micros
  rw [h] at hcolon
  cases hcolon

theorem token_visible {token : Text} (h : token.all isTokenChar = true) :
    token.all (!isWhitespace ·) = true := by
  rw [List.all_eq_true] at h ⊢
  intro c hc
  rw [isTokenChar_visible (h c hc)]
  rfl

theorem splitWhitespace_word {word : Text} (hne : word ≠ [])
    (h : word.all (!isWhitespace ·) = true) (rest : Text) :
    splitWhitespace (word ++ ' ' :: rest) = word :: splitWhitespace rest := by
  have hvisible : ∀ c ∈ word, isWhitespace c = false := by simpa using h
  unfold splitWhitespace
  rw [splitWhere_append hvisible rfl, List.filter_cons_of_pos (by simpa using hne)]

theorem splitWhitespace_last {word : Text} (hne : word ≠ [])
    (h : word.all (!isWhitespace ·) = true) : splitWhitespace word = [word] := by
  have hvisible : ∀ c ∈ word, isWhitespace c = false := by simpa using h
  unfold splitWhitespace
  rw [splitWhere_eq_singleton hvisible, List.filter_cons_of_pos (by simpa using hne)]
  rfl

/-- The last token of a printed interval. -/
theorem intervalTokens_clock {micros : Int} (hlow : -(2 ^ 63) ≤ micros) (hhigh : micros < 2 ^ 63)
    (months : Int) :
    intervalTokens [timeFrom8bytes micros] ⟨months, 0⟩ =
      if micros = -(2 ^ 63) then .error invalidTemporal else .ok ⟨months, micros⟩ := by
  rw [intervalTokens, if_pos (timeFrom8bytes_colon micros), parseClock_timeFrom8bytes hlow hhigh]
  by_cases hleast : micros = -(2 ^ 63)
  · rw [if_pos hleast, if_pos hleast]
    rfl
  · rw [if_neg hleast, if_neg hleast, result_ok_bind, Int.zero_add, checked_of_range hlow hhigh,
      result_ok_bind, intervalTokens]

theorem intervalTokens_years {value : Int} (hvalue : -(2 ^ 31) ≤ value ∧ value < 2 ^ 31)
    (rest : List Text) :
    intervalTokens (displayInt value :: "years".toList :: rest) ⟨0, 0⟩ =
      intervalTokens rest ⟨value * 12, 0⟩ := by
  have hparse : parseSigned 64 (displayInt value) = some value :=
    parseSigned_displayInt (by omega) (by omega)
  rw [intervalTokens, if_neg (by rw [displayInt_colon]; decide)]
  dsimp only
  rw [hparse, orInvalid, result_ok_bind, if_pos (by decide), checked_of_range (by omega) (by omega),
    result_ok_bind, Int.zero_add, checked_of_range (by omega) (by omega), result_ok_bind]

theorem intervalTokens_mons {value sum : Int} (hvalue : -(2 ^ 31) ≤ value ∧ value < 2 ^ 31)
    (hsum : -(2 ^ 32) ≤ sum ∧ sum < 2 ^ 32) (rest : List Text) :
    intervalTokens (displayInt value :: "mons".toList :: rest) ⟨sum, 0⟩ =
      intervalTokens rest ⟨sum + value, 0⟩ := by
  have hparse : parseSigned 64 (displayInt value) = some value :=
    parseSigned_displayInt (by omega) (by omega)
  rw [intervalTokens, if_neg (by rw [displayInt_colon]; decide)]
  dsimp only
  rw [hparse, orInvalid, result_ok_bind, if_neg (by decide), if_pos (by decide),
    checked_of_range (by omega) (by omega), result_ok_bind]

theorem intervalTokens_display {micros months : Int} (hlow : -(2 ^ 63) ≤ micros)
    (hhigh : micros < 2 ^ 63) (hmonths : -(2 ^ 31) ≤ months ∧ months < 2 ^ 31) :
    intervalTokens (splitWhitespace (intervalFrom12bytes micros months)) ⟨0, 0⟩ =
      if micros = -(2 ^ 63) then .error invalidTemporal else .ok ⟨months, micros⟩ := by
  have hclock := splitWhitespace_last (timeFrom8bytes_ne_nil micros)
    (token_visible (timeFrom8bytes_token micros))
  have hnumber (value : Int) := splitWhitespace_word (displayInt_ne_nil value)
    (token_visible (displayInt_token value))
  unfold intervalFrom12bytes
  by_cases hzero : months = 0
  · rw [if_pos hzero, hclock, hzero, intervalTokens_clock hlow hhigh]
  rw [if_neg hzero]
  dsimp only
  have hunit (unit : String) (hne : unit.toList ≠ [])
      (h : unit.toList.all (!isWhitespace ·) = true) (value : Int) (rest : Text) :
      splitWhitespace (displayInt value ++ ' ' :: (unit.toList ++ ' ' :: rest)) =
        displayInt value :: unit.toList :: splitWhitespace rest := by
    rw [hnumber, splitWhitespace_word hne h]
  have hmons := hunit "mons" (by decide) (by decide) (months.tmod 12) (timeFrom8bytes micros)
  rw [hclock] at hmons
  have htext : displayInt (months.tmod 12) ++ " mons ".toList ++ timeFrom8bytes micros =
      displayInt (months.tmod 12) ++ ' ' :: ("mons".toList ++ ' ' :: timeFrom8bytes micros) := by
    rw [List.append_assoc]
    rfl
  have hsplit := Int.mul_tdiv_add_tmod months 12
  have hlt := Int.tmod_lt_of_pos months (show (0 : Int) < 12 by decide)
  have hgt := Int.lt_tmod_of_pos months (show (0 : Int) < 12 by decide)
  rw [htext]
  by_cases hyears : months.tdiv 12 ≠ 0
  · have hwhole : months.tdiv 12 * 12 + months.tmod 12 = months := by omega
    have hyearsText (rest : Text) : splitWhitespace (displayInt (months.tdiv 12) ++
        " years ".toList ++ rest) = displayInt (months.tdiv 12) :: "years".toList ::
          splitWhitespace rest := by
      rw [List.append_assoc]
      exact hunit "years" (by decide) (by decide) (months.tdiv 12) rest
    rw [if_pos hyears, hyearsText, hmons, intervalTokens_years (by omega), intervalTokens_mons (by omega) (by omega),
      hwhole, intervalTokens_clock hlow hhigh]
  · have hwhole : 0 + months.tmod 12 = months := by omega
    rw [if_neg hyears, hmons, intervalTokens_mons (by omega) (by omega), hwhole,
      intervalTokens_clock hlow hhigh]

theorem parseInterval_intervalFrom12bytes {micros months : Int} (hlow : -(2 ^ 63) ≤ micros)
    (hhigh : micros < 2 ^ 63) (hmonths : -(2 ^ 31) ≤ months ∧ months < 2 ^ 31) :
    parseInterval (intervalFrom12bytes micros months) =
      if micros = -(2 ^ 63) then .error invalidTemporal else .ok ⟨months, micros⟩ := by
  unfold parseInterval
  rw [intervalTokens_display hlow hhigh hmonths]
  by_cases hleast : micros = -(2 ^ 63)
  · rw [if_pos hleast, result_error_bind]
  · rw [if_neg hleast, result_ok_bind]
    exact if_pos hmonths

/-- The fields are of 32 and of 64 bits. -/
def NzInterval.Machine (interval : NzInterval) : Prop :=
  (-(2 ^ 31) ≤ interval.months ∧ interval.months < 2 ^ 31) ∧
    (-(2 ^ 63) ≤ interval.microseconds ∧ interval.microseconds < 2 ^ 63)

theorem NzInterval.fromSql_toNzValue_iff (N : Numerics) {interval : NzInterval}
    (h : interval.Machine) :
    NzInterval.fromSql (interval.toNzValue N) = .ok interval ↔
      interval.microseconds ≠ -(2 ^ 63) := by
  unfold NzInterval.fromSql NzInterval.toNzValue NzInterval.display
  dsimp only
  rw [parseInterval_intervalFrom12bytes h.2.1 h.2.2 h.1]
  by_cases hleast : interval.microseconds = -(2 ^ 63)
  · rw [if_pos hleast]
    exact iff_of_false (by simp) (by simp [hleast])
  · rw [if_neg hleast]
    exact iff_of_true rfl hleast

/-! ## Times with a zone -/

theorem Spells.unsigned {text : Text} {n : Nat} (h : Spells text n) :
    ∀ c ∈ text, isSign c = false := by
  intro c hc
  have hdigit := h.digits c hc
  by_contra hsign
  simp only [isSign, Bool.not_eq_false, Bool.or_eq_true, beq_iff_eq] at hsign
  rcases hsign with rfl | rfl <;> cases hdigit

/-- A printed clock has no sign behind its first character. -/
theorem clockText_unsigned (magnitude : Nat) : ∀ c ∈ clockText magnitude, isSign c = false := by
  have hfrac : ∀ c ∈ fractionText (magnitude % 1000000), isSign c = false := by
    unfold fractionText
    by_cases h : magnitude % 1000000 ≠ 0
    · have hspells : Spells (fixedDigits 6 (magnitude % 1000000)) (magnitude % 1000000) :=
        spells_fixedDigits (by decide) (Nat.mod_lt _ (by decide))
      rw [if_pos h]
      exact List.forall_mem_cons.mpr ⟨rfl, hspells.unsigned⟩
    · rw [if_neg h]
      simp
  simp only [clockText, List.mem_append, List.mem_cons]
  rintro c (hc | rfl | hc | rfl | hc | hc)
  · exact (spells_twoDigits _).unsigned c hc
  · rfl
  · exact (spells_twoDigits _).unsigned c hc
  · rfl
  · exact (spells_twoDigits _).unsigned c hc
  · exact hfrac c hc

theorem splitZone_append {c : Char} {cs : Text} (h : ∀ d ∈ cs, isSign d = false) {sign : Char}
    (hsign : isSign sign = true) (zone : Text) :
    splitZone (c :: cs ++ sign :: zone) = some (c :: cs, sign, zone) := by
  have hcs : ∀ d ∈ cs, (!isSign d) = true := by
    intro d hd
    rw [h d hd]
    rfl
  simp [splitZone, List.dropWhile_append_of_pos hcs, List.takeWhile_append_of_pos hcs, hsign]

theorem parseZone_parts {zone hours : Text} {rest : List Text} {h m s : Nat}
    (hparts : splitAt ':' zone = hours :: rest) (hrest : rest.length ≤ 2)
    (hhours : parseSigned 32 hours = some (h : Int))
    (hminutes : parseSigned 32 (rest.getD 0 ['0']) = some (m : Int))
    (hseconds : parseSigned 32 (rest.getD 1 ['0']) = some (s : Int)) (hm : m < 60) (hs : s < 60) :
    parseZone zone =
      if h < 24 then .ok ((h * 3600 + m * 60 + s : Nat) : Int) else .error invalidTemporal := by
  unfold parseZone
  rw [hparts]
  dsimp only
  rw [if_neg (by omega), hhours, orInvalid, result_ok_bind, hminutes, orInvalid, result_ok_bind,
    hseconds, orInvalid, result_ok_bind]
  by_cases hh : h < 24
  · rw [if_neg (by omega), if_pos hh]
    push_cast
    rfl
  · rw [if_pos (by omega), if_neg hh]

/-- The printed offset without its sign. -/
def offsetText (abs : Nat) : Text :=
  twoDigits (abs / 3600) ++
    if abs % 60 ≠ 0 then ':' :: (twoDigits (abs % 3600 / 60) ++ ':' :: twoDigits (abs % 60))
    else if abs % 3600 / 60 ≠ 0 then ':' :: twoDigits (abs % 3600 / 60)
    else []

theorem parseZone_offsetText {abs : Nat} (habs : abs ≤ 2 ^ 31) :
    parseZone (offsetText abs) =
      if abs < 86400 then .ok (abs : Int) else .error invalidTemporal := by
  have hours := spells_twoDigits (abs / 3600)
  have minutes := spells_twoDigits (abs % 3600 / 60)
  have seconds := spells_twoDigits (abs % 60)
  have hours' : parseSigned 32 (twoDigits (abs / 3600)) = some ((abs / 3600 : Nat) : Int) :=
    hours.parseSigned_eq (by omega)
  have minutes' : parseSigned 32 (twoDigits (abs % 3600 / 60)) =
      some ((abs % 3600 / 60 : Nat) : Int) := minutes.parseSigned_eq (by omega)
  have seconds' : parseSigned 32 (twoDigits (abs % 60)) = some ((abs % 60 : Nat) : Int) :=
    seconds.parseSigned_eq (by omega)
  have hzero : parseSigned 32 ['0'] = some ((0 : Nat) : Int) := by decide
  have hday : abs / 3600 < 24 ↔ abs < 86400 := by omega
  unfold offsetText
  by_cases hs : abs % 60 ≠ 0
  · rw [if_pos hs]
    have hparts : splitAt ':' (twoDigits (abs / 3600) ++ ':' :: (twoDigits (abs % 3600 / 60) ++
        ':' :: twoDigits (abs % 60))) =
          [twoDigits (abs / 3600), twoDigits (abs % 3600 / 60), twoDigits (abs % 60)] := by
      rw [splitAt, splitWhere_append hours.colon_free rfl, splitWhere_append minutes.colon_free rfl,
        splitWhere_eq_singleton seconds.colon_free]
    rw [parseZone_parts hparts (by simp) hours' minutes' seconds' (by omega) (by omega)]
    have hsum : abs / 3600 * 3600 + abs % 3600 / 60 * 60 + abs % 60 = abs := by omega
    simp only [hsum, hday]
  rw [if_neg hs]
  by_cases hm : abs % 3600 / 60 ≠ 0
  · rw [if_pos hm]
    have hparts : splitAt ':' (twoDigits (abs / 3600) ++ ':' :: twoDigits (abs % 3600 / 60)) =
        [twoDigits (abs / 3600), twoDigits (abs % 3600 / 60)] := by
      rw [splitAt, splitWhere_append hours.colon_free rfl, splitWhere_eq_singleton minutes.colon_free]
    rw [parseZone_parts hparts (by simp) hours' minutes' hzero (by omega) (by omega)]
    have hsum : abs / 3600 * 3600 + abs % 3600 / 60 * 60 + 0 = abs := by omega
    simp only [hsum, hday]
  · rw [if_neg hm, List.append_nil]
    have hparts : splitAt ':' (twoDigits (abs / 3600)) = [twoDigits (abs / 3600)] :=
      splitWhere_eq_singleton hours.colon_free
    rw [parseZone_parts hparts (by simp) hours' hzero hzero (by omega) (by omega)]
    have hsum : abs / 3600 * 3600 + 0 * 60 + 0 = abs := by omega
    rw [hsum]
    simp only [hday]

/-- A printed time has a first character, and no sign behind it. -/
theorem timeFrom8bytes_cons (micros : Int) :
    ∃ c cs, timeFrom8bytes micros = c :: cs ∧ ∀ d ∈ cs, isSign d = false := by
  have hclock := clockText_unsigned micros.natAbs
  by_cases hneg : micros < 0
  · exact ⟨'-', clockText micros.natAbs, by rw [timeFrom8bytes, if_pos hneg]; rfl, hclock⟩
  · have htime : timeFrom8bytes micros = clockText micros.natAbs := by
      rw [timeFrom8bytes, if_neg hneg, List.nil_append]
    obtain ⟨c, cs, hcons⟩ := List.exists_cons_of_ne_nil (timeFrom8bytes_ne_nil micros)
    rw [← htime, hcons] at hclock
    exact ⟨c, cs, hcons, fun d hd => hclock d (List.mem_cons_of_mem c hd)⟩

/-- A time of less than a day comes back with a zone of less than a day. -/
theorem parseTimetz_timetzFromBytes {micros zone : Int} (hlow : -(2 ^ 63) ≤ micros)
    (hhigh : micros < 2 ^ 63) (hzone : -(2 ^ 31) ≤ zone ∧ zone < 2 ^ 31) :
    parseTimetz (timetzFromBytes micros zone) =
      (NzTime.new micros >>= fun time =>
        if zone.natAbs < 86400 then NzTimetz.new time (-zone) else .error invalidTemporal) := by
  obtain ⟨c, cs, hcons, hfree⟩ := timeFrom8bytes_cons micros
  have hsign : isSign (if zone < 0 then '+' else '-') = true := by
    split <;> rfl
  have htext : timetzFromBytes micros zone =
      c :: cs ++ (if zone < 0 then '+' else '-') :: offsetText zone.natAbs := by
    rw [← hcons]
    rfl
  have hclock : (parseClock (c :: cs) >>= fun t => NzTime.new t) = NzTime.new micros := by
    rw [← hcons, parseClock_timeFrom8bytes hlow hhigh]
    by_cases hleast : micros = -(2 ^ 63)
    · rw [if_pos hleast, result_error_bind, NzTime.new, dif_neg (by omega)]
    · rw [if_neg hleast, result_ok_bind]
  have hvalue : (if (if zone < 0 then '+' else '-') = '-' then -(zone.natAbs : Int)
      else zone.natAbs) = -zone := by
    by_cases hneg : zone < 0
    · rw [if_pos hneg, if_neg (by decide)]
      omega
    · rw [if_neg hneg, if_pos rfl]
      omega
  have hsplit := splitZone_append (c := c) hfree hsign (offsetText zone.natAbs)
  unfold parseTimetz
  rw [htext, hsplit, orInvalid, result_ok_bind, ← bind_assoc, hclock,
    parseZone_offsetText (by omega)]
  congr 1
  funext time
  by_cases hday : zone.natAbs < 86400
  · rw [if_pos hday, if_pos hday, result_ok_bind, hvalue]
  · rw [if_neg hday, if_neg hday, result_error_bind]

theorem parseTimetz_display (timetz : NzTimetz) :
    parseTimetz timetz.display =
      if timetz.offsetSeconds = -86400 then .error invalidTemporal else .ok timetz := by
  obtain ⟨time, offset, hrange⟩ := timetz
  have hus : usPerDay = 86400000000 := rfl
  have hbounds := time.inDay
  have hnew : NzTime.new time.microseconds = .ok time := dif_pos time.inDay
  unfold NzTimetz.display
  dsimp only
  rw [parseTimetz_timetzFromBytes (by omega) (by omega) (by omega), hnew, result_ok_bind,
    Int.neg_neg]
  by_cases hleast : offset = -86400
  · rw [if_pos hleast, if_neg (by omega)]
  · rw [if_neg hleast, if_pos (by omega)]
    exact dif_pos hrange

theorem NzTimetz.fromSql_toNzValue_iff (N : Numerics) (timetz : NzTimetz) :
    NzTimetz.fromSql (timetz.toNzValue N) = .ok timetz ↔ timetz.offsetSeconds ≠ -86400 := by
  unfold NzTimetz.fromSql NzTimetz.toNzValue
  dsimp only
  rw [parseTimetz_display]
  by_cases hleast : timetz.offsetSeconds = -86400
  · rw [if_pos hleast]
    exact iff_of_false (by simp) (by simp [hleast])
  · rw [if_neg hleast]
    exact iff_of_true rfl hleast

/-! ## What comes back -/

theorem sql_text_survives_iff (N : Numerics) :
    (∀ time : NzTime, NzTime.fromSql (time.toNzValue N) = .ok time) ∧
    (∀ timestamp : NzTimestamp,
      NzTimestamp.fromSql (timestamp.toNzValue N) = .ok timestamp ↔
        -106751991 * usPerDay ≤ timestamp.microseconds.toInt) ∧
    (∀ interval : NzInterval, interval.Machine →
      (NzInterval.fromSql (interval.toNzValue N) = .ok interval ↔
        interval.microseconds ≠ -(2 ^ 63))) ∧
    ∀ timetz : NzTimetz,
      NzTimetz.fromSql (timetz.toNzValue N) = .ok timetz ↔ timetz.offsetSeconds ≠ -86400 :=
  ⟨NzTime.fromSql_toNzValue N, NzTimestamp.fromSql_toNzValue_iff N,
    fun _ => NzInterval.fromSql_toNzValue_iff N, NzTimetz.fromSql_toNzValue_iff N⟩

/-- The constructor accepts an offset of a whole day, whose text the parser rejects. -/
theorem whole_day_offset_lost :
    ¬∀ (N : Numerics) (timetz : NzTimetz),
      NzTimetz.fromSql (timetz.toNzValue N) = .ok timetz := by
  intro h
  have hlost := h ⟨Unit, Unit, Unit, id, fun _ => true, fun _ => [], fun _ => []⟩
    ⟨⟨0, by decide⟩, -86400, by decide⟩
  exact (NzTimetz.fromSql_toNzValue_iff _ _).mp hlost rfl

end NzRust
