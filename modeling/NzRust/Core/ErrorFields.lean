import NzRust.Core.Error
import NzRust.Lib.Terminated
import NzRust.Types.Utf8

/-!
# The fields of an error response

`parse_backend_error_fields` with its loops and its reads by index, and what it
finds in an encoded list of fields.
-/

namespace NzRust

open Checked Terminated

/-! ## The parse by index -/

/-- The loop over the fields, from offset `i` on; `fail ()` when `fuel` turns are not enough. -/
def fieldLoop (data : Bytes) : (fuel i : Nat) → NzDatabaseError → Exec Unit NzDatabaseError
  | 0, _, _ => fail ()
  | fuel + 1, i, err =>
      if i < data.length then do
        let fieldType ← index data i
        if fieldType = 0 then .ok err
        else
          let stop ← scanUntil (· == 0) data (i + 1)
          let value ← slice data (i + 1) stop
          let next := if stop < data.length then stop + 1 else stop
          fieldLoop data fuel next
            (err.setField (Char.ofNat fieldType.toNat) (fromUtf8Lossy value))
      else .ok err

/-- `parse_backend_error_fields` on its buffer. -/
def parseBackendErrorFieldsAt (fuel : Nat) (data : Bytes) : Exec Unit NzDatabaseError := do
  let raw := fromUtf8Lossy data
  let err : NzDatabaseError := { raw := (raw.reverse.dropWhile (· == '\x00')).reverse }
  let err ← if 2 ≤ data.countP (· == 0) then fieldLoop data fuel 0 err else .ok err
  .ok (if err.message.isEmpty then { err with message := fallbackMessage raw } else err)

/-- More turns than bytes are enough, and every read is inside the buffer. -/
theorem fieldLoop_eq (data : Bytes) {fuel i k : Nat} (err : NzDatabaseError)
    (hfuel : data.length - i < fuel) (hk : data.length - i ≤ k) :
    fieldLoop data fuel i err =
      .ok ((errorFields k (data.drop i)).foldl (fun err field => err.setField field.1 field.2)
        err) := by
  induction fuel generalizing i k err with
  | zero => omega
  | succ fuel ih =>
      rw [fieldLoop]
      by_cases hi : i < data.length
      · obtain ⟨k, rfl⟩ : ∃ k', k = k' + 1 := ⟨k - 1, by omega⟩
        rw [if_pos hi, index_eq hi, ok_bind, List.drop_eq_getElem_cons hi, errorFields]
        by_cases hzero : data[i] = 0
        · rw [if_pos hzero, if_pos hzero]
          rfl
        · rw [if_neg hzero, if_neg hzero, scanUntil_eq, ok_bind, slice_upTo data hi, ok_bind,
            List.foldl_cons]
          have hlen := length_upTo_le (p := (· == (0 : UInt8))) (data.drop (i + 1))
          rw [List.length_drop] at hlen
          generalize hstop : i + 1 + (upTo (· == (0 : UInt8)) (data.drop (i + 1))).length = stop
          have hrest : ((data.drop (i + 1)).dropWhile (· != 0)).tail =
              data.drop (if stop < data.length then stop + 1 else stop) := by
            have hdrop : (data.drop (i + 1)).dropWhile (· != 0) = data.drop stop := by
              rw [← hstop, drop_scan]
              rfl
            rw [hdrop, List.tail_drop]
            by_cases hinside : stop < data.length
            · rw [if_pos hinside]
            · rw [if_neg hinside, List.drop_eq_nil_of_le (by omega),
                List.drop_eq_nil_of_le (by omega)]
          rw [hrest]
          apply ih
          · split <;> omega
          · split <;> omega
      · rw [if_neg hi, List.drop_eq_nil_of_le (Nat.not_lt.mp hi)]
        cases k <;> rfl

/-- The parse ends without a panic, in what the model of the driver computes. -/
theorem parseBackendErrorFieldsAt_eq {fuel : Nat} {data : Bytes} (hfuel : data.length < fuel) :
    parseBackendErrorFieldsAt fuel data = .ok (parseBackendErrorFields data) := by
  unfold parseBackendErrorFieldsAt parseBackendErrorFields
  dsimp only
  by_cases hcount : 2 ≤ data.countP (· == 0)
  · rw [if_pos hcount, if_pos hcount, fieldLoop_eq data _ (by omega) (Nat.le_refl _)]
    rfl
  · rw [if_neg hcount, if_neg hcount]
    rfl

theorem fallbackMessage_ne_nil (raw : Text) : fallbackMessage raw ≠ [] := by
  unfold fallbackMessage
  dsimp only
  cases htext : trim (raw.filter (· != '\x00')) with
  | nil => decide
  | cons c cs => simp

theorem parseBackendErrorFields_message_ne_nil (data : Bytes) :
    (parseBackendErrorFields data).message ≠ [] := by
  unfold parseBackendErrorFields
  dsimp only
  generalize (if 2 ≤ data.countP (· == 0) then _ else _ : NzDatabaseError) = err
  by_cases hempty : err.message.isEmpty
  · rw [if_pos hempty]
    exact fallbackMessage_ne_nil _
  · rw [if_neg hempty]
    simpa using hempty

/-! ## Encoded fields -/

/-- A field of an error response: an ASCII byte and a text without NUL. -/
structure ErrorField where
  code : UInt8
  value : Text
  nonzero : code ≠ 0
  ascii : code.toNat < 128
  nulFree : '\x00' ∉ value

/-- What the parse makes of a field. -/
def ErrorField.pair (f : ErrorField) : Char × Text :=
  (Char.ofNat f.code.toNat, f.value)

def ErrorField.encode (f : ErrorField) : Bytes :=
  f.code :: (toUtf8 f.value ++ [0])

/-- The fields one behind the other, with a final NUL. -/
def encodeFields (fields : List ErrorField) : Bytes :=
  fields.flatMap ErrorField.encode ++ [0]

@[simp] theorem encodeFields_nil : encodeFields [] = [0] := rfl

theorem encodeFields_cons (f : ErrorField) (fields : List ErrorField) :
    encodeFields (f :: fields) = f.code :: (toUtf8 f.value ++ 0 :: encodeFields fields) := by
  simp [encodeFields, ErrorField.encode]

theorem errorFields_encode (fields : List ErrorField) {k : Nat}
    (hk : (encodeFields fields).length ≤ k) :
    errorFields k (encodeFields fields) = fields.map ErrorField.pair := by
  induction fields generalizing k with
  | nil =>
      obtain ⟨k, rfl⟩ : ∃ k', k = k' + 1 := ⟨k - 1, by simp at hk; omega⟩
      rfl
  | cons f fields ih =>
      rw [encodeFields_cons] at hk ⊢
      simp only [List.length_cons, List.length_append] at hk
      obtain ⟨k, rfl⟩ : ∃ k', k = k' + 1 := ⟨k - 1, by omega⟩
      have hfree : ∀ b ∈ toUtf8 f.value, (b == (0 : UInt8)) = false := by
        intro b hb
        rw [beq_eq_false_iff_ne]
        intro hzero
        exact zero_not_mem_toUtf8 f.nulFree (hzero ▸ hb)
      have hvalue : (toUtf8 f.value ++ 0 :: encodeFields fields).takeWhile (· != 0) =
          toUtf8 f.value := upTo_append hfree (beq_self_eq_true 0)
      have hrest : (toUtf8 f.value ++ 0 :: encodeFields fields).dropWhile (· != 0) =
          0 :: encodeFields fields := fromOn_append hfree (beq_self_eq_true 0)
      rw [errorFields, if_neg f.nonzero, hvalue, hrest, List.tail_cons, fromUtf8Lossy_toUtf8,
        List.map_cons, ih (by omega)]
      rfl

/-- An encoded list has the two NULs that mark a body as structured. -/
theorem two_le_countP_encode {fields : List ErrorField} (h : fields ≠ []) :
    2 ≤ (encodeFields fields).countP (· == 0) := by
  cases fields with
  | nil => exact absurd rfl h
  | cons f fields =>
      have hlast : 0 < (encodeFields fields).countP (· == 0) :=
        List.countP_pos_iff.mpr ⟨0, by simp [encodeFields], rfl⟩
      rw [encodeFields_cons, List.countP_cons, List.countP_append, List.countP_cons_of_pos rfl]
      omega

/-! ## What the fields set -/

/-- The first and the last value of a field type. -/
def firstValue (field : Char) (fields : List (Char × Text)) : Option Text :=
  (fields.find? fun f => f.1 == field).map Prod.snd

def lastValue (field : Char) (fields : List (Char × Text)) : Option Text :=
  firstValue field fields.reverse

@[simp] theorem firstValue_nil (field : Char) : firstValue field [] = none := rfl

@[simp] theorem lastValue_nil (field : Char) : lastValue field [] = none := rfl

theorem firstValue_append (field : Char) (xs ys : List (Char × Text)) :
    firstValue field (xs ++ ys) = (firstValue field xs <|> firstValue field ys) := by
  rw [firstValue, List.find?_append, firstValue, firstValue]
  cases xs.find? fun f => f.1 == field <;> rfl

theorem firstValue_singleton (field : Char) (f : Char × Text) :
    firstValue field [f] = if f.1 = field then some f.2 else none := by
  by_cases h : f.1 = field <;> simp [firstValue, h]

theorem lastValue_append (field : Char) (fields : List (Char × Text)) (f : Char × Text) :
    lastValue field (fields ++ [f]) = if f.1 = field then some f.2 else lastValue field fields := by
  rw [lastValue, List.reverse_append, List.reverse_singleton, firstValue_append,
    firstValue_singleton]
  by_cases h : f.1 = field
  · rw [if_pos h, if_pos h]
    rfl
  · rw [if_neg h, if_neg h]
    rfl

/-- What an error holds once the fields have been set one after the other. -/
structure Holds (err : NzDatabaseError) (fields : List (Char × Text)) : Prop where
  diagnostics : err.diagnostics = fields
  severity : err.severity = (lastValue 'V' fields <|> firstValue 'S' fields)
  code : err.code = lastValue 'C' fields
  message : err.message = (lastValue 'M' fields).getD []
  detail : err.detail = lastValue 'D' fields
  hint : err.hint = lastValue 'H' fields

theorem NzDatabaseError.setField_diagnostics (err : NzDatabaseError) (field : Char) (value : Text) :
    (err.setField field value).diagnostics = err.diagnostics ++ [(field, value)] := by
  unfold setField
  dsimp only
  repeat' split
  all_goals rfl

theorem NzDatabaseError.setField_severity (err : NzDatabaseError) (field : Char) (value : Text) :
    (err.setField field value).severity =
      if field = 'V' then some value
      else (err.severity <|> if field = 'S' then some value else none) := by
  unfold setField
  dsimp only
  by_cases hS : field = 'S'
  · cases err.severity <;> simp [hS]
  · by_cases hV : field = 'V'
    · simp [hV]
    · simp only [hS, hV, false_and, if_false]
      repeat' split
      all_goals simp

/-- A field of another type than its own leaves a value alone. -/
theorem NzDatabaseError.setField_values (err : NzDatabaseError) (field : Char) (value : Text) :
    (err.setField field value).code = (if field = 'C' then some value else err.code) ∧
      (err.setField field value).message = (if field = 'M' then value else err.message) ∧
      (err.setField field value).detail = (if field = 'D' then some value else err.detail) ∧
      (err.setField field value).hint = (if field = 'H' then some value else err.hint) := by
  unfold setField
  dsimp only
  by_cases hS : field = 'S'
  · by_cases hnone : err.severity.isNone = true <;> simp [hS, hnone]
  · simp only [hS, false_and, if_false]
    by_cases hV : field = 'V'
    · simp [hV]
    by_cases hC : field = 'C'
    · simp [hC]
    by_cases hM : field = 'M'
    · simp [hM]
    by_cases hD : field = 'D'
    · simp [hD]
    by_cases hH : field = 'H' <;> simp [hV, hC, hM, hD, hH]

theorem Holds.setField {err : NzDatabaseError} {fields : List (Char × Text)} (h : Holds err fields)
    (f : Char × Text) : Holds (err.setField f.1 f.2) (fields ++ [f]) := by
  obtain ⟨hcode, hmessage, hdetail, hhint⟩ := err.setField_values f.1 f.2
  constructor
  · rw [NzDatabaseError.setField_diagnostics, h.diagnostics]
  · rw [NzDatabaseError.setField_severity, h.severity, lastValue_append, firstValue_append,
      firstValue_singleton]
    by_cases hV : f.1 = 'V'
    · simp [hV]
    · rw [if_neg hV, if_neg hV]
      cases lastValue 'V' fields <;> rfl
  · rw [hcode, lastValue_append, h.code]
  · rw [hmessage, lastValue_append, h.message]
    split <;> rfl
  · rw [hdetail, lastValue_append, h.detail]
  · rw [hhint, lastValue_append, h.hint]

theorem Holds.foldl (fields : List (Char × Text)) {err : NzDatabaseError}
    {seen : List (Char × Text)} (h : Holds err seen) :
    Holds (fields.foldl (fun err field => err.setField field.1 field.2) err) (seen ++ fields) := by
  induction fields generalizing err seen with
  | nil => simpa using h
  | cons f fields ih =>
      have hnext := ih (h.setField f)
      rwa [List.append_assoc, List.singleton_append] at hnext

/-- The parse of an encoded list finds every field; a missing message alone is filled in. -/
theorem parseBackendErrorFields_encode {fields : List ErrorField} (hne : fields ≠ []) :
    ∃ err, Holds err (fields.map ErrorField.pair) ∧
      parseBackendErrorFields (encodeFields fields) =
        if err.message.isEmpty then
          { err with message := fallbackMessage (fromUtf8Lossy (encodeFields fields)) }
        else err := by
  unfold parseBackendErrorFields
  dsimp only
  rw [if_pos (two_le_countP_encode hne), errorFields_encode fields (Nat.le_refl _)]
  refine ⟨_, ?_, rfl⟩
  have hempty : Holds { raw := ((fromUtf8Lossy (encodeFields fields)).reverse.dropWhile
      (· == '\x00')).reverse } [] := ⟨rfl, rfl, rfl, rfl, rfl, rfl⟩
  simpa using hempty.foldl (fields.map ErrorField.pair)

/--
An encoded list of fields is read back in order, whatever its order is, and the
parse of any bytes ends without a panic and with a message.
-/
theorem error_fields_round_trip (fuel : Nat) :
    (∀ fields : List ErrorField, fields ≠ [] → (encodeFields fields).length < fuel →
      ∃ err, parseBackendErrorFieldsAt fuel (encodeFields fields) = .ok err ∧
        err.diagnostics = fields.map ErrorField.pair ∧
        err.severity = (lastValue 'V' err.diagnostics <|> firstValue 'S' err.diagnostics) ∧
        err.code = lastValue 'C' err.diagnostics ∧
        err.detail = lastValue 'D' err.diagnostics ∧
        err.hint = lastValue 'H' err.diagnostics ∧
        ∀ message, lastValue 'M' err.diagnostics = some message → message ≠ [] →
          err.message = message) ∧
      ∀ data : Bytes, data.length < fuel →
        ∃ err, parseBackendErrorFieldsAt fuel data = .ok err ∧ err.message ≠ [] := by
  constructor
  · intro fields hne hfuel
    obtain ⟨err, h, hparse⟩ := parseBackendErrorFields_encode hne
    refine ⟨_, parseBackendErrorFieldsAt_eq hfuel, ?_⟩
    rw [hparse]
    by_cases hempty : err.message.isEmpty
    · rw [if_pos hempty]
      dsimp only
      rw [h.diagnostics]
      refine ⟨rfl, h.severity, h.code, h.detail, h.hint, ?_⟩
      intro message hlast hmessage
      rw [h.message, hlast] at hempty
      exact absurd (by simpa using hempty) hmessage
    · rw [if_neg hempty, h.diagnostics]
      refine ⟨rfl, h.severity, h.code, h.detail, h.hint, ?_⟩
      intro message hlast _
      rw [h.message, hlast]
      rfl
  · intro data hfuel
    exact ⟨_, parseBackendErrorFieldsAt_eq hfuel, parseBackendErrorFields_message_ne_nil data⟩

theorem error_fields_round_trip_short :
    ∃ err, parseBackendErrorFieldsAt 9 (encodeFields [⟨77, ['a'], by decide, by decide, by decide⟩,
        ⟨83, [], by decide, by decide, by decide⟩]) = .ok err ∧
      err.diagnostics = [('M', ['a']), ('S', [])] := by
  obtain ⟨err, hrun, hfields, -⟩ := (error_fields_round_trip 9).1
    [⟨77, ['a'], by decide, by decide, by decide⟩, ⟨83, [], by decide, by decide, by decide⟩]
    (by simp) (by decide)
  exact ⟨err, hrun, hfields⟩

end NzRust
