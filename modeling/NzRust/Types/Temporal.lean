import NzRust.Types.Datetime

/-!
# Temporal values

`NzDate` and its relatives with the parsers of their texts. A value read from
text passes the same range check as one read from its binary form.
-/

namespace NzRust

open Datetime

def invalidTemporal : NzError :=
  .config "invalid temporal value or SQL type"

/-- An `i64` operation that reports an overflow. -/
def checked (value : Int) : NzResult Int :=
  if -(2 ^ 63) ≤ value ∧ value < 2 ^ 63 then .ok value else .error invalidTemporal

/-- `ok_or_else(invalid)`. -/
def orInvalid {α : Type} : Option α → NzResult α
  | some a => .ok a
  | none => .error invalidTemporal

/-! ## Parsers -/

def parseDate (input : Text) : NzResult Int := do
  let outer ← orInvalid (rsplitOnce '-' input)
  let day ← orInvalid (parseUnsigned 32 outer.2)
  let inner ← orInvalid (rsplitOnce '-' outer.1)
  let year ← orInvalid (parseSigned 64 inner.1)
  let month ← orInvalid (parseUnsigned 32 inner.2)
  if ¬(-6000000 ≤ year ∧ year ≤ 6000000) ∨ ¬(1 ≤ month ∧ month ≤ 12) ∨ ¬(1 ≤ day ∧ day ≤ 31) then
    .error invalidTemporal
  else
    let unixDays := daysFromCivil year month day
    if civilFromDays unixDays ≠ (year, month, day) then .error invalidTemporal
    else
      let days := unixDays - postgresEpochDays
      if -(2 ^ 31) ≤ days ∧ days < 2 ^ 31 then .ok days else .error invalidTemporal

/-- Seconds and their decimals, six at most: the seconds and the microseconds. -/
def secondsOf (seconds fraction : Text) : NzResult (Int × Int) := do
  let seconds ← orInvalid (parseSigned 64 seconds)
  if ¬(0 ≤ seconds ∧ seconds < 60) ∨ 6 < fraction.length ∨ fraction.all Char.isDigit = false then
    .error invalidTemporal
  else if fraction.isEmpty then .ok (seconds, 0)
  else
    let value ← orInvalid (parseSigned 64 fraction)
    .ok (seconds, value * 10 ^ (6 - fraction.length))

def parseSeconds (text : Text) : NzResult (Int × Int) :=
  let parts := (splitOnce '.' text).getD (text, [])
  secondsOf parts.1 parts.2

/-- The microseconds of a clock without its sign. -/
def clockMicros (hours minutes seconds fraction : Int) : NzResult Int := do
  let value ← checked (hours * 3600)
  let value ← checked (value + (minutes * 60 + seconds))
  let value ← checked (value * 1000000)
  checked (value + fraction)

def parseClock (input : Text) : NzResult Int := do
  let negative := (splitSign input).1
  match splitAt ':' (splitSign input).2 with
  | [hours, minutes, seconds] =>
      let hours ← orInvalid (parseSigned 64 hours)
      let minutes ← orInvalid (parseSigned 64 minutes)
      if hours < 0 ∨ ¬(0 ≤ minutes ∧ minutes < 60) then .error invalidTemporal
      else
        let seconds ← parseSeconds seconds
        let micros ← clockMicros hours minutes seconds.1 seconds.2
        .ok (if negative then -micros else micros)
  | _ => .error invalidTemporal

/-! ## Values -/

/-- Microseconds since midnight. -/
structure NzTime where
  microseconds : Int
  inDay : 0 ≤ microseconds ∧ microseconds < usPerDay
  deriving DecidableEq, Repr

def NzTime.new (microseconds : Int) : NzResult NzTime :=
  if h : 0 ≤ microseconds ∧ microseconds < usPerDay then .ok ⟨microseconds, h⟩
  else .error invalidTemporal

/-- A time and its offset from UTC in seconds. -/
structure NzTimetz where
  time : NzTime
  offsetSeconds : Int
  inRange : -86400 ≤ offsetSeconds ∧ offsetSeconds < 86400
  deriving DecidableEq, Repr

def NzTimetz.new (time : NzTime) (offsetSeconds : Int) : NzResult NzTimetz :=
  if h : -86400 ≤ offsetSeconds ∧ offsetSeconds < 86400 then .ok ⟨time, offsetSeconds, h⟩
  else .error invalidTemporal

/-- Calendar months and signed microseconds. -/
structure NzInterval where
  months : Int
  microseconds : Int
  deriving DecidableEq, Repr

/-- The text of a `Timestamp` as microseconds since 2000-01-01. -/
def parseTimestamp (text : Text) : NzResult Int := do
  let parts ← orInvalid (splitOnce ' ' text)
  let time ← NzTime.new (← parseClock parts.2)
  let days ← checked ((← parseDate parts.1) * usPerDay)
  checked (days + time.microseconds)

/-- The tokens of an interval: a clock, or a number and its unit. -/
def intervalTokens : List Text → NzInterval → NzResult NzInterval
  | [], sum => .ok sum
  | token :: rest, sum =>
      if token.contains ':' then do
        let micros ← checked (sum.microseconds + (← parseClock token))
        intervalTokens rest { sum with microseconds := micros }
      else
        match rest with
        | [] => .error invalidTemporal
        | unit :: rest => do
            let number ← orInvalid (parseSigned 64 token)
            if unit ∈ ["year".toList, "years".toList] then
              let months ← checked (sum.months + (← checked (number * 12)))
              intervalTokens rest { sum with months := months }
            else if unit ∈ ["mon".toList, "mons".toList, "month".toList, "months".toList] then
              let months ← checked (sum.months + number)
              intervalTokens rest { sum with months := months }
            else if unit ∈ ["day".toList, "days".toList] then
              let micros ← checked (sum.microseconds + (← checked (number * usPerDay)))
              intervalTokens rest { sum with microseconds := micros }
            else .error invalidTemporal

def parseInterval (text : Text) : NzResult NzInterval := do
  let sum ← intervalTokens (splitWhitespace text) ⟨0, 0⟩
  if -(2 ^ 31) ≤ sum.months ∧ sum.months < 2 ^ 31 then .ok sum else .error invalidTemporal

def isSign (c : Char) : Bool :=
  c == '+' || c == '-'

/-- The text before the first sign behind the first character, the sign, and the rest. -/
def splitZone : Text → Option (Text × Char × Text)
  | [] => none
  | c :: cs =>
      match cs.dropWhile (!isSign ·) with
      | [] => none
      | sign :: zone => some (c :: cs.takeWhile (!isSign ·), sign, zone)

/-- Hours with optional minutes and seconds. -/
def parseZone (zone : Text) : NzResult Int := do
  match splitAt ':' zone with
  | hours :: rest =>
      if 2 < rest.length then .error invalidTemporal
      else
        let hours ← orInvalid (parseSigned 32 hours)
        let minutes ← orInvalid (parseSigned 32 (rest.getD 0 ['0']))
        let seconds ← orInvalid (parseSigned 32 (rest.getD 1 ['0']))
        if ¬(0 ≤ hours ∧ hours < 24) ∨ ¬(0 ≤ minutes ∧ minutes < 60) ∨
            ¬(0 ≤ seconds ∧ seconds < 60) then
          .error invalidTemporal
        else .ok (hours * 3600 + minutes * 60 + seconds)
  | [] => .error invalidTemporal

def parseTimetz (text : Text) : NzResult NzTimetz := do
  let parts ← orInvalid (splitZone text)
  let time ← NzTime.new (← parseClock parts.1)
  let offset ← parseZone parts.2.2
  NzTimetz.new time (if parts.2.1 = '-' then -offset else offset)

end NzRust
