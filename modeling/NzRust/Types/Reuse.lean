import NzRust.Lib.InPlace
import NzRust.Types.Machine
import NzRust.Types.Numeric

/-!
# Values written over values

The writers of the binary decoders: a temporal text goes into a string that a
slot kept from the row before, a NUMERIC into the string of an exact value. Each
of them leaves what the function that returns a fresh value returns.
-/

namespace NzRust

open ByteString Checked InPlace

/-! ## String slots -/

/-- The variants whose strings are kept for the next row. -/
inductive StringValueKind where
  | text
  | date
  | time
  | timetz
  | timestamp
  | interval
  deriving DecidableEq, Repr

section Slots

variable {N : Numerics}

def StringValueKind.value : StringValueKind → Text → NzValue N
  | .text, t => .text t
  | .date, t => .date t
  | .time, t => .time t
  | .timetz, t => .timetz t
  | .timestamp, t => .timestamp t
  | .interval, t => .interval t

def StringValueKind.empty (kind : StringValueKind) : NzValue N :=
  kind.value []

/-- The table in `string_value_slot`. -/
def matchesKind : StringValueKind → NzValue N → Bool
  | .text, .text _ => true
  | .date, .date _ => true
  | .time, .time _ => true
  | .timetz, .timetz _ => true
  | .timestamp, .timestamp _ => true
  | .interval, .interval _ => true
  | _, _ => false

/-- The variant of a slot and its string. -/
def NzValue.stringParts : NzValue N → Option (StringValueKind × Text)
  | .text t => some (.text, t)
  | .date t => some (.date, t)
  | .time t => some (.time, t)
  | .timetz t => some (.timetz, t)
  | .timestamp t => some (.timestamp, t)
  | .interval t => some (.interval, t)
  | _ => none

/-- An edit of the string that `string_value_slot` returns. -/
def stringValueSlot (kind : StringValueKind) (m : Edit NzError Text Unit) :
    Edit NzError (NzValue N) Unit := do
  modify fun value => if matchesKind kind value then value else kind.empty
  match (← get).stringParts with
  | some parts => onPart (fun _ => parts.2) (fun t _ => parts.1.value t) m
  | none => run panics

theorem stringParts_of_matches {kind : StringValueKind} {value : NzValue N}
    (h : matchesKind kind value = true) : ∃ t, value.stringParts = some (kind, t) := by
  cases kind <;> cases value <;> cases h <;> exact ⟨_, rfl⟩

theorem stringParts_installed (kind : StringValueKind) (value : NzValue N) :
    ∃ t, (if matchesKind kind value then value else kind.empty).stringParts = some (kind, t) := by
  by_cases hkind : matchesKind kind value = true
  · rw [if_pos hkind]
    exact stringParts_of_matches hkind
  · rw [if_neg hkind]
    exact ⟨[], by cases kind <;> rfl⟩

theorem stringValueSlot_overwrites (kind : StringValueKind) {m : Edit NzError Text Unit}
    {x : Exec NzError Text} (h : Overwrites m x) :
    Overwrites (stringValueSlot (N := N) kind m) (x >>= fun t => .ok (kind.value t)) := by
  intro value
  obtain ⟨t, hparts⟩ := stringParts_installed kind value
  rw [stringValueSlot, settled_bind, settled_modify, ok_bind, settled_bind, settled_get, ok_bind,
    hparts]
  dsimp only
  rw [settled_onPart, ← h t, bind_assoc, bind_assoc]
  rfl

end Slots

/-! ## Temporal texts -/

namespace Machine

open Datetime

def dateFrom4bytesInto (days : Int) : Edit NzError Text Unit := do
  let civil ← run (do civilFromDays (← int 64 (days + postgresEpochDays)))
  clear
  append (appendDate civil.1 civil.2.1 civil.2.2)

def timestampFrom8bytesInto (micros : Int) : Edit NzError Text Unit := do
  let days := micros / usPerDay
  let rem := micros % usPerDay
  let civil ← run (do civilFromDays (← int 64 (days + postgresEpochDays)))
  let secs := rem / 1000000
  clear
  append (appendDate civil.1 civil.2.1 civil.2.2)
  push ' '
  append (appendHms (secs / 3600) (secs % 3600 / 60) (secs % 60))
  append (fractionText (rem % 1000000))

def appendTimeFrom8bytes (micros : Int) : Edit NzError Text Unit := do
  let secs := micros.natAbs / 1000000
  pushAll (if micros < 0 then ['-'] else [])
  pushAll (twoDigits (secs / 3600) ++ ':' ::
    (twoDigits (secs % 3600 / 60) ++ ':' :: twoDigits (secs % 60)))
  append (fractionText ((micros.natAbs % 1000000 : Nat) : Int))

def timeFrom8bytesInto (micros : Int) : Edit NzError Text Unit := do
  clear
  appendTimeFrom8bytes micros

def timetzFromBytesInto (data : Bytes) (fieldLen : Nat) : Edit NzError Text Unit := do
  let micros ← run (slice data 0 8)
  let zone ← run (do slice data (← subWord fieldLen 4) fieldLen)
  clear
  appendTimeFrom8bytes (leInt micros)
  pushAll (zoneText (leInt zone))

def intervalFrom12bytesInto (data : Bytes) : Edit NzError Text Unit := do
  let micros ← run (slice data 0 8)
  let months ← run (slice data 8 12)
  clear
  if leInt months = 0 then appendTimeFrom8bytes (leInt micros)
  else
    let years := (leInt months).tdiv 12
    let remaining := (leInt months).tmod 12
    pushAll (if years ≠ 0 then
      displayInt years ++ " years ".toList ++ displayInt remaining ++ " mons ".toList
      else displayInt remaining ++ " mons ".toList)
    appendTimeFrom8bytes (leInt micros)

theorem appendTimeFrom8bytes_appends (micros : Int) :
    Appends (appendTimeFrom8bytes micros) (timeFrom8bytes micros) := by
  refine ((Appends.pushAll _).seq ((Appends.pushAll _).seq (Appends.append _))).congr ?_
  rw [ok_bind, ok_bind, timeFrom8bytes]
  cases fractionText ((micros.natAbs % 1000000 : Nat) : Int) with
  | error e => rfl
  | ok frac =>
      show Except.ok _ = Except.ok _
      simp

theorem dateFrom4bytesInto_overwrites (days : Int) :
    Overwrites (dateFrom4bytesInto days) (dateFrom4bytes days) := by
  rw [dateFrom4bytes, ← bind_assoc]
  apply Leaves.run_bind
  intro civil
  exact (Appends.append _).clear

theorem timeFrom8bytesInto_overwrites (micros : Int) :
    Overwrites (timeFrom8bytesInto micros) (timeFrom8bytes micros) :=
  (appendTimeFrom8bytes_appends micros).clear

theorem timestampFrom8bytesInto_overwrites (micros : Int) :
    Overwrites (timestampFrom8bytesInto micros) (timestampFrom8bytes micros) := by
  have hwritten : ∀ civil : Int × Nat × Nat,
      Overwrites (do
        clear
        append (appendDate civil.1 civil.2.1 civil.2.2)
        push ' '
        append (appendHms (micros % usPerDay / 1000000 / 3600)
          (micros % usPerDay / 1000000 % 3600 / 60) (micros % usPerDay / 1000000 % 60))
        append (fractionText (micros % usPerDay % 1000000)))
      (do
        let date ← appendDate civil.1 civil.2.1 civil.2.2
        let hms ← appendHms (micros % usPerDay / 1000000 / 3600)
          (micros % usPerDay / 1000000 % 3600 / 60) (micros % usPerDay / 1000000 % 60)
        let frac ← fractionText (micros % usPerDay % 1000000)
        return date ++ ' ' :: (hms ++ frac)) := by
    intro civil
    refine ((Appends.append _).seq ((Appends.pushAll [' ']).seq
      ((Appends.append _).seq (Appends.append _)))).clear.congr ?_
    simp [ok_bind]
  rw [timestampFrom8bytes, ← bind_assoc]
  exact Leaves.run_bind hwritten

theorem timetzFromBytesInto_overwrites (data : Bytes) (fieldLen : Nat) :
    Overwrites (timetzFromBytesInto data fieldLen) (timetzFromBytes data fieldLen) := by
  rw [timetzFromBytes]
  apply Leaves.run_bind
  intro micros
  rw [← bind_assoc]
  apply Leaves.run_bind
  intro zone
  exact ((appendTimeFrom8bytes_appends _).seq (Appends.pushAll _)).clear

theorem intervalFrom12bytesInto_overwrites (data : Bytes) :
    Overwrites (intervalFrom12bytesInto data) (intervalFrom12bytes data) := by
  apply Leaves.run_bind
  intro micros
  apply Leaves.run_bind
  intro months
  apply Appends.clear
  have htime := appendTimeFrom8bytes_appends (leInt micros)
  dsimp only
  by_cases hzero : leInt months = 0
  · simp only [if_pos hzero]
    exact htime.congr (bind_pure _).symm
  simp only [if_neg hzero]
  refine ((Appends.pushAll _).seq htime).congr ?_
  cases timeFrom8bytes (leInt micros) with
  | error e => rfl
  | ok time =>
      by_cases hyears : (leInt months).tdiv 12 = 0
      · simp [hyears, ok_bind]
      · simp [hyears, ok_bind]

end Machine

/-! ## NUMERIC -/

inductive NumericDecodedInto (N : Numerics) where
  | number (n : N.F64)
  | decimal (value : N.Decimal)
  | exact

/-- What is decoded, with the text that the string holds. -/
def NumericDecodedInto.decoded {N : Numerics} : NumericDecodedInto N → Text → NumericDecoded N
  | .number n, _ => .number n
  | .decimal value, _ => .decimal value
  | .exact, text => .exact text

/-- An exact text stays in the string. -/
def NumericDecoded.into {N : Numerics} : NumericDecoded N → NumericDecodedInto N
  | .number n => .number n
  | .decimal value => .decimal value
  | .exact _ => .exact

namespace Numeric

variable {N : Numerics} (ops : NumberOps N)

/-- `classify_numeric` of the text that was written. -/
def classifyWritten (prec : Int) : Edit NzError Text (NumericDecodedInto N) := do
  return (classifyNumeric ops (← get) prec).into

def writeScaledDecimalInto (magnitude scale : Nat) (negative : Bool) : Edit NzError Text Unit := do
  let signed := negative && magnitude != 0
  clear
  pushAll (if signed then ['-'] else [])
  pushAll (Nat.toDigits 10 magnitude)
  if scale = 0 then pure () else change fun out => insertDecimalPoint out signed.toNat scale

def exactTextInto (unscaled : Int) (scale : Nat) (prec : Int) :
    Edit NzError Text (NumericDecodedInto N) := do
  writeScaledDecimalInto unscaled.natAbs scale (decide (unscaled < 0))
  classifyWritten ops prec

def decodeWideInto (data : Bytes) (partCount : Nat) (prec : Int) (scale : Nat) :
    Edit NzError Text (NumericDecodedInto N) := do
  let limbs ← run (readLimbs data partCount 0)
  let high ← run (index limbs 0)
  let negative := decide (high &&& ((1 : UInt32) <<< 31) ≠ 0)
  let limbs := if negative then negateLimbs limbs else limbs
  clear
  pushAll (wideText (wideDigits limbs))
  change fun out => if scale ≠ 0 then insertDecimalPoint out 0 scale else .ok out
  change fun out =>
    .ok (if negative ∧ out ≠ ['0'] ∧ ¬out.all (fun c => c == '0' || c == '.') then '-' :: out
      else out)
  classifyWritten ops prec

def getCsNumericInto (data : Bytes) (prec scale digitCount : Int) :
    Edit NzError Text (NumericDecodedInto N) :=
  if ¬(0 ≤ prec ∧ prec ≤ 38) ∨ ¬(0 ≤ scale ∧ scale ≤ 38) ∨ ¬(0 ≤ digitCount ∧ digitCount ≤ 5) then
    run (fail invalidShape)
  else do
    let parts := partCount prec digitCount
    let need ← run (mulWord 64 parts 4)
    if data.length < need then run (fail (truncatedPayload data.length need))
    else if parts ≤ 2 ∧ prec ≤ 15 then
      let unscaled ← run (readSmall data parts)
      match decimalFromI128 ops unscaled scale.toNat with
      | some value => return (smallNumber ops unscaled scale.toNat value).into
      | none => exactTextInto ops unscaled scale.toNat prec
    else if parts ≤ 4 then
      let unscaled ← run (readSignedI128 data parts)
      match decimalFromI128 ops unscaled scale.toNat with
      | some value => return .decimal value
      | none => exactTextInto ops unscaled scale.toNat prec
    else decodeWideInto ops data parts prec scale.toNat

/-- The string of an exact value is read, whatever it held before. -/
abbrev LeavesDecoded (m : Edit NzError Text (NumericDecodedInto N))
    (x : Exec NzError (NumericDecoded N)) : Prop :=
  Leaves m NumericDecodedInto.decoded x

theorem classifyNumeric_into (text : Text) (prec : Int) :
    (classifyNumeric ops text prec).into.decoded text = classifyNumeric ops text prec := by
  unfold classifyNumeric
  by_cases hprec : prec ≤ 15
  · rw [if_pos hprec]
    cases ops.parseF64 text with
    | none => rfl
    | some num =>
        dsimp only
        by_cases hprints : N.displayF64 num = text
        · rw [if_pos hprints]
          rfl
        · rw [if_neg hprints]
          rfl
  · rw [if_neg hprec]
    rfl

theorem smallNumber_into (unscaled : Int) (scale : Nat) (value : N.Decimal) (text : Text) :
    (smallNumber ops unscaled scale value).into.decoded text =
      smallNumber ops unscaled scale value := by
  unfold smallNumber
  dsimp only
  cases ops.decimalOfF64 (ops.quotient unscaled scale) with
  | none => rfl
  | some roundTripped =>
      dsimp only
      by_cases hsame : ops.decimalEq roundTripped value ∧
          ops.decimalScale roundTripped = ops.decimalScale value
      · rw [if_pos hsame]
        rfl
      · rw [if_neg hsame]
        rfl

theorem classifyWritten_leaves (prec : Int) (text : Text) :
    (settled (classifyWritten ops prec) text >>= fun r => .ok (r.1.decoded r.2)) =
      .ok (classifyNumeric ops text prec) :=
  congrArg Except.ok (classifyNumeric_into ops text prec)

/-- Classifying what was written is classifying the text. -/
theorem classified {m : Edit NzError Text Unit} {x : Exec NzError Text} (h : Overwrites m x)
    (prec : Int) :
    LeavesDecoded (do m; classifyWritten ops prec)
      (do let text ← x; return classifyNumeric ops text prec) := by
  refine Leaves.bind h ?_
  intro _ text
  exact classifyWritten_leaves ops prec text

theorem writeScaledDecimalInto_overwrites (magnitude scale : Nat) (negative : Bool) :
    Overwrites (writeScaledDecimalInto magnitude scale negative)
      (writeScaledDecimal magnitude scale negative) := by
  intro text
  unfold writeScaledDecimalInto writeScaledDecimal
  dsimp only
  by_cases hscale : scale = 0
  · simp only [if_pos hscale]
    rfl
  · simp only [if_neg hscale]
    simp only [settled_bind, settled_clear, settled_pushAll, settled_change, ok_bind, bind_assoc,
      List.nil_append]
    exact bind_pure _

theorem exactTextInto_leaves (unscaled : Int) (scale : Nat) (prec : Int) :
    LeavesDecoded (exactTextInto ops unscaled scale prec) (exactText ops unscaled scale prec) :=
  classified ops (writeScaledDecimalInto_overwrites _ scale _) prec

theorem decodeWideInto_leaves (data : Bytes) (partCount : Nat) (prec : Int) (scale : Nat) :
    LeavesDecoded (decodeWideInto ops data partCount prec scale)
      (decodeWide ops data partCount prec scale) := by
  apply Leaves.run_bind
  intro limbs
  apply Leaves.run_bind
  intro high
  dsimp only
  generalize wideText _ = text
  intro old
  simp only [settled_bind, settled_clear, settled_pushAll, settled_change, ok_bind, bind_assoc,
    List.nil_append]
  congr 1
  funext out
  exact classifyWritten_leaves ops prec _

theorem getCsNumericInto_leaves (data : Bytes) (prec scale digitCount : Int) :
    LeavesDecoded (getCsNumericInto ops data prec scale digitCount)
      (getCsNumeric ops data prec scale digitCount) := by
  apply Leaves.ite
  · intro _
    exact Leaves.run_fail _ _
  intro _
  apply Leaves.run_bind
  intro need
  apply Leaves.ite
  · intro _
    exact Leaves.run_fail _ _
  intro _
  apply Leaves.ite
  · intro _
    apply Leaves.run_bind
    intro unscaled
    cases decimalFromI128 ops unscaled scale.toNat with
    | some value =>
        intro text
        exact congrArg Except.ok (smallNumber_into ops unscaled scale.toNat value text)
    | none => exact exactTextInto_leaves ops unscaled scale.toNat prec
  intro _
  apply Leaves.ite
  · intro _
    apply Leaves.run_bind
    intro unscaled
    cases decimalFromI128 ops unscaled scale.toNat with
    | some value =>
        intro text
        rfl
    | none => exact exactTextInto_leaves ops unscaled scale.toNat prec
  intro _
  exact decodeWideInto_leaves ops data _ prec scale.toNat

end Numeric

end NzRust
