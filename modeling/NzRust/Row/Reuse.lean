import NzRust.Row.Dbos
import NzRust.Types.Reuse

/-!
# Rows decoded over the row before

`parse_row_into_with_scratch` writes into the values and the scratch that an
earlier row left, complete or broken off. Whatever they hold, it ends as
`parse_row` does and leaves the values that `parse_row` returns.
-/

namespace NzRust

open ByteString Checked InPlace

/-- The vectors that a decoder keeps from row to row. -/
structure RowBuffers (N : Numerics) where
  values : List (NzValue N)
  varStarts : List Nat

namespace DbosTupleDesc

variable {N : Numerics} (ops : NumberOps N)

/-! ## The decoder in place -/

/-- `resize_with` or `truncate`. -/
def resized (n : Nat) (values : List (NzValue N)) : List (NzValue N) :=
  if values.length < n then values ++ List.replicate (n - values.length) .null
  else values.take n

/-- A start is pushed before its length is checked. -/
def walkStarts (row : Bytes) : (count j voff : Nat) → Edit NzError (List Nat) Unit
  | 0, _, _ => pure ()
  | count + 1, j, voff => do
      let prefixEnd ← run (addWord 64 voff 2)
      if row.length < prefixEnd then
        run (fail (invalidRow s!"varying field {j} length prefix is truncated"))
      else
        push voff
        let vlen ← run (lengthAt row voff)
        if vlen < 2 then run (fail (invalidRow s!"varying field {j} length is invalid"))
        else
          let stop ← run (addWord 64 voff vlen)
          if row.length < stop then
            run (fail (invalidRow s!"varying field {j} length is invalid"))
          else
            let next ← run (if vlen % 2 ≠ 0 then addWord 64 stop 1 else .ok stop)
            if row.length < next then
              run (fail (invalidRow s!"varying field {j} padding is truncated"))
            else walkStarts row count (j + 1) next

def allStartsInto (desc : DbosTupleDesc) (row : Bytes) : Edit NzError (List Nat) Unit := do
  clear
  if 0 < desc.numVaryingFields then
    if desc.fixedFieldsSize < 0 then
      run (fail (invalidRow "fixed-field area offset is invalid"))
    else walkStarts row desc.numVaryingFields.toNat 0 desc.fixedFieldsSize.toNat
  else pure ()

/-- The buffer of an exact NUMERIC is moved out of the slot. -/
def takeExact (value : NzValue N) : Text :=
  match value with
  | .numeric text => text
  | _ => []

/-- `parse_field_into`. -/
def parseFieldInto (row : Bytes) (off i : Nat) (f : DbosField) :
    Edit NzError (NzValue N) Unit :=
  match f.kind with
  | .char => do
      let bytes ← run (orFail (protocolTrunc i)
        ((addChecked 64 off (asWord 64 f.size)).bind fun stop => getSlice row off stop))
      let text ← run (utf8Field i bytes)
      stringValueSlot .text (do clear; pushAll (trimEndMatches ' ' text))
  | .nchar => do
      let text ← run (do utf8Field i (← prefixedBytes row off i))
      stringValueSlot .text (do clear; pushAll (trimEndMatches '\x00' text))
  | .varchar => do
      let text ← run (do utf8Field i (← prefixedBytes row off i))
      stringValueSlot .text (do clear; pushAll text)
  | .int8 => do
      let bytes ← run (fixedBytes row off 8 i)
      set (NzValue.int8 (N := N) (Int64.ofInt (leInt bytes)))
  | .int => do
      let bytes ← run (fixedBytes row off 4 i)
      set (NzValue.int4 (N := N) (Int32.ofInt (leInt bytes)))
  | .int2 => do
      let bytes ← run (fixedBytes row off 2 i)
      set (NzValue.int2 (N := N) (Int16.ofInt (leInt bytes)))
  | .int1 => do
      let byte ← run (fixedByte row off i)
      set (NzValue.int2 (N := N) (Int16.ofInt (leInt [byte])))
  | .double => do
      let bytes ← run (fixedBytes row off 8 i)
      set (NzValue.float8 (ops.f64OfBits (leNat bytes)))
  | .float => do
      let bytes ← run (fixedBytes row off 4 i)
      set (NzValue.float4 (ops.f32OfBits (leNat bytes)))
  | .date => do
      let bytes ← run (fixedBytes row off 4 i)
      stringValueSlot .date (Machine.dateFrom4bytesInto (leInt bytes))
  | .time => do
      let bytes ← run (fixedBytes row off 8 i)
      stringValueSlot .time (Machine.timeFrom8bytesInto (leInt bytes))
  | .interval => do
      let bytes ← run (fixedBytes row off 12 i)
      stringValueSlot .interval (Machine.intervalFrom12bytesInto bytes)
  | .timetz =>
      if overruns row (addChecked 64 off (asWord 64 f.size)) ∨ asWord 64 f.size < 12 then
        run (fail (protocolTrunc i))
      else do
        let stop ← run (addWord 64 off (asWord 64 f.size))
        let bytes ← run (slice row off stop)
        stringValueSlot .timetz (Machine.timetzFromBytesInto bytes (asWord 64 f.size))
  | .timestamp => do
      let bytes ← run (fixedBytes row off 8 i)
      stringValueSlot .timestamp (Machine.timestampFrom8bytesInto (leInt bytes))
  | .bool => do
      let byte ← run (fixedByte row off i)
      if byte = 0 then set (NzValue.bool (N := N) false)
      else if byte = 1 then set (NzValue.bool (N := N) true)
      else run (fail (.protocol "invalid binary BOOLEAN"))
  | .numeric => do
      let previous ← get
      set (NzValue.null (N := N))
      let bytes ← run (slice row (min off row.length) row.length)
      let decoded ← onLocal (Numeric.getCsNumericInto ops bytes (fieldPrecision f.size)
        (fieldScale f.size) (f.trueSize.tdiv 4)) (takeExact previous)
      set (decoded.1.decoded decoded.2).value
  | .opaqueBytes => do
      let bytes ← run (opaqueBytes row off i f)
      set (NzValue.bytea (N := N) bytes)

/-- An error goes out with the stage; what the edit has left stays. -/
def stagedEdit {σ : Type} (fieldStage : Bool) (m : Edit NzError σ Unit) :
    Edit (NzError × Bool) σ Unit := fun s =>
  match m s with
  | .ok a s => .ok a s
  | .error (.error e) s => .error (.error (e, fieldStage)) s
  | .error .panic s => .error .panic s

/-- One round of the conversion loop, on a slot and the field stage. -/
def convertSlot (desc : DbosTupleDesc) (row : Bytes) (starts : List Nat) (i : Nat)
    (f : DbosField) : Edit (NzError × Bool) (NzValue N × Bool) Unit := do
  let fieldStage := (← get).2
  let null ← run (staged fieldStage (desc.isNull row f))
  if null then modify fun s => (.null, s.2)
  else
    let start ← run (staged fieldStage (desc.rowFieldStart row i f starts))
    modify fun s => (s.1, true)
    onPart Prod.fst (fun value s => (value, s.2)) (stagedEdit true (parseFieldInto ops row start i f))

/-- `parse_row_classified`. -/
def parseRowClassifiedInto (desc : DbosTupleDesc) (row : Bytes) :
    Edit (NzError × Bool) (RowBuffers N) Unit := do
  run (staged false (desc.validateRowBitmap row))
  modify fun b => { b with values := resized desc.numFields b.values }
  onPart RowBuffers.varStarts (fun starts b => { b with varStarts := starts })
    (stagedEdit false (desc.allStartsInto row))
  let starts := (← get).varStarts
  run (staged false (desc.checkStorage row starts 0 desc.fields))
  onPart (fun b => (b.values, false)) (fun s b => { b with values := s.1 })
    (eachSlot (desc.convertSlot ops row starts) 0 desc.fields)

/-- The caller does not see the stage. -/
def parseRowIntoWithScratch (desc : DbosTupleDesc) (row : Bytes) :
    Edit NzError (RowBuffers N) Unit := fun b =>
  match desc.parseRowClassifiedInto ops row b with
  | .ok a b => .ok a b
  | .error (.error e) b => .error (.error e.1) b
  | .error .panic b => .error .panic b

/-- `parse_row`, on vectors of its own. -/
def parseRowFresh (desc : DbosTupleDesc) (row : Bytes) : Exec NzError (List (NzValue N)) := do
  let decoded ← settled (desc.parseRowIntoWithScratch ops row) ⟨[], []⟩
  return decoded.2.values

/-! ## What the rounds leave -/

theorem resized_length (n : Nat) (values : List (NzValue N)) : (resized n values).length = n := by
  unfold resized
  by_cases hshort : values.length < n
  · rw [if_pos hshort, List.length_append, List.length_replicate]
    omega
  · rw [if_neg hshort, List.length_take]
    omega

theorem settled_stagedEdit {σ : Type} (fieldStage : Bool) (m : Edit NzError σ Unit) (s : σ) :
    settled (stagedEdit fieldStage m) s = staged fieldStage (settled m s) := by
  unfold settled stagedEdit
  cases m s with
  | ok a t => rfl
  | error e t =>
      cases e with
      | error e => rfl
      | panic => rfl

theorem staged_bind {α β : Type} (fieldStage : Bool) (x : Exec NzError α)
    (f : α → Exec NzError β) :
    staged fieldStage (x >>= f) = (staged fieldStage x >>= fun a => staged fieldStage (f a)) := by
  cases x with
  | ok a => rfl
  | error e =>
      cases e with
      | error e => rfl
      | panic => rfl

theorem walkStarts_appends (row : Bytes) (count j voff : Nat) :
    Appends (walkStarts row count j voff) (varyingStarts row count j voff) := by
  induction count generalizing j voff with
  | zero => exact Appends.nothing
  | succ count ih =>
      intro starts
      rw [walkStarts, varyingStarts, settled_bind, settled_run]
      cases addWord 64 voff 2 with
      | error e => rfl
      | ok prefixEnd =>
          simp only [ok_bind]
          by_cases hlead : row.length < prefixEnd
          · simp only [if_pos hlead]
            rfl
          simp only [if_neg hlead]
          rw [settled_bind, settled_push, ok_bind, settled_bind, settled_run]
          cases lengthAt row voff with
          | error e => rfl
          | ok vlen =>
              simp only [ok_bind]
              by_cases hsmall : vlen < 2
              · simp only [if_pos hsmall]
                rfl
              simp only [if_neg hsmall]
              rw [settled_bind, settled_run]
              cases addWord 64 voff vlen with
              | error e => rfl
              | ok stop =>
                  simp only [ok_bind]
                  by_cases hover : row.length < stop
                  · simp only [if_pos hover]
                    rfl
                  simp only [if_neg hover]
                  rw [settled_bind, settled_run]
                  generalize (if vlen % 2 ≠ 0 then addWord 64 stop 1 else .ok stop :
                    Exec NzError Nat) = padded
                  cases padded with
                  | error e => rfl
                  | ok next =>
                      simp only [ok_bind]
                      by_cases hpadding : row.length < next
                      · simp only [if_pos hpadding]
                        rfl
                      simp only [if_neg hpadding]
                      rw [ih]
                      cases varyingStarts row count (j + 1) next with
                      | error e => rfl
                      | ok rest => simp [ok_bind]

theorem allStartsInto_overwrites (desc : DbosTupleDesc) (row : Bytes) :
    Overwrites (desc.allStartsInto row) (desc.allStarts row) := by
  apply Appends.clear
  apply Appends.ite
  · intro _
    apply Appends.ite
    · intro _
      exact Appends.run_fail _
    · intro _
      exact walkStarts_appends row _ 0 _
  · intro _
    exact Appends.nothing

/-- The text of an exact value goes through a buffer with any contents. -/
theorem numericInto_overwrites (row : Bytes) (off : Nat) (f : DbosField) (buffer : Text) :
    Overwrites
      (do
        let bytes ← run (slice row (min off row.length) row.length)
        let decoded ← onLocal (Numeric.getCsNumericInto ops bytes (fieldPrecision f.size)
          (fieldScale f.size) (f.trueSize.tdiv 4)) buffer
        set (decoded.1.decoded decoded.2).value)
      (do
        let bytes ← slice row (min off row.length) row.length
        let decoded ← Numeric.getCsNumeric ops bytes (fieldPrecision f.size) (fieldScale f.size)
          (f.trueSize.tdiv 4)
        return decoded.value) := by
  apply Leaves.run_bind
  intro bytes
  rw [← Numeric.getCsNumericInto_leaves ops bytes _ _ _ buffer, bind_assoc]
  apply Leaves.run_bind
  intro decoded
  exact Leaves.set _ _

/-- Whatever the slot held, it holds the value of the field. -/
theorem parseFieldInto_overwrites (row : Bytes) (off i : Nat) (f : DbosField) :
    Overwrites (parseFieldInto ops row off i f) (parseField ops row off i f) := by
  unfold parseFieldInto parseField
  cases f.kind with
  | char =>
      apply Leaves.run_bind
      intro bytes
      apply Leaves.run_bind
      intro text
      exact stringValueSlot_overwrites .text (Appends.pushAll _).clear
  | nchar =>
      dsimp only
      rw [← bind_assoc]
      apply Leaves.run_bind
      intro text
      exact stringValueSlot_overwrites .text (Appends.pushAll _).clear
  | varchar =>
      dsimp only
      rw [← bind_assoc]
      apply Leaves.run_bind
      intro text
      exact stringValueSlot_overwrites .text (Appends.pushAll _).clear
  | date =>
      apply Leaves.run_bind
      intro bytes
      exact stringValueSlot_overwrites .date (Machine.dateFrom4bytesInto_overwrites _)
  | time =>
      apply Leaves.run_bind
      intro bytes
      exact stringValueSlot_overwrites .time (Machine.timeFrom8bytesInto_overwrites _)
  | interval =>
      apply Leaves.run_bind
      intro bytes
      exact stringValueSlot_overwrites .interval (Machine.intervalFrom12bytesInto_overwrites _)
  | timetz =>
      apply Leaves.ite
      · intro _
        exact Leaves.run_fail _ _
      intro _
      apply Leaves.run_bind
      intro stop
      apply Leaves.run_bind
      intro bytes
      exact stringValueSlot_overwrites .timetz (Machine.timetzFromBytesInto_overwrites _ _)
  | timestamp =>
      apply Leaves.run_bind
      intro bytes
      exact stringValueSlot_overwrites .timestamp (Machine.timestampFrom8bytesInto_overwrites _)
  | bool =>
      apply Leaves.run_bind
      intro byte
      apply Leaves.ite
      · intro _
        exact Leaves.set _ _
      intro _
      apply Leaves.ite
      · intro _
        exact Leaves.set _ _
      intro _
      exact Leaves.run_fail _ _
  | numeric =>
      intro slot
      exact numericInto_overwrites ops row off f (takeExact slot) .null
  | _ =>
      apply Leaves.run_bind
      intro bytes
      exact Leaves.set _ _

/-- The value for a slot, and the stage behind it. -/
def slotValue (desc : DbosTupleDesc) (row : Bytes) (starts : List Nat) (i : Nat) (f : DbosField)
    (fieldStage : Bool) : Exec (NzError × Bool) (NzValue N × Bool) := do
  let null ← staged fieldStage (desc.isNull row f)
  if null then return (.null, fieldStage)
  else
    let start ← staged fieldStage (desc.rowFieldStart row i f starts)
    let value ← staged true (parseField ops row start i f)
    return (value, true)

theorem settled_convertSlot (desc : DbosTupleDesc) (row : Bytes) (starts : List Nat) (i : Nat)
    (f : DbosField) (value : NzValue N) (fieldStage : Bool) :
    settled (desc.convertSlot ops row starts i f) (value, fieldStage) =
      (desc.slotValue ops row starts i f fieldStage >>= fun r => .ok ((), r)) := by
  unfold convertSlot slotValue
  rw [settled_bind, settled_get, ok_bind, settled_bind, settled_run]
  cases staged fieldStage (desc.isNull row f) with
  | error e => rfl
  | ok null =>
      rw [ok_bind, ok_bind, ok_bind]
      cases null with
      | true => rfl
      | false =>
          rw [if_neg Bool.false_ne_true, if_neg Bool.false_ne_true, settled_bind, settled_run]
          cases staged fieldStage (desc.rowFieldStart row i f starts) with
          | error e => rfl
          | ok start =>
              rw [ok_bind, ok_bind, ok_bind, settled_bind, settled_modify, ok_bind, settled_onPart,
                settled_stagedEdit, ← parseFieldInto_overwrites ops row start i f value, staged_bind]
              dsimp only
              cases staged true (settled (parseFieldInto ops row start i f) value) with
              | error e => rfl
              | ok r => rfl

/-- The values collected are those that `parse_row` collects. -/
theorem collect_slotValue (desc : DbosTupleDesc) (row : Bytes) (starts : List Nat)
    (fields : List DbosField) (i : Nat) (fieldStage : Bool) :
    (collect (desc.slotValue ops row starts) i fields fieldStage >>= fun r => .ok r.1) =
      desc.convertFields ops row starts i fieldStage fields := by
  induction fields generalizing i fieldStage with
  | nil => rfl
  | cons f fields ih =>
      rw [collect, convertFields, slotValue]
      cases staged fieldStage (desc.isNull row f) with
      | error e => rfl
      | ok null =>
          cases null with
          | true =>
              simp only [ok_bind, if_true, ← ih, bind_assoc]
              rfl
          | false =>
              simp only [ok_bind, if_neg Bool.false_ne_true, ← ih, bind_assoc]
              rfl

/-- The decoder in place ends as the one that builds a new row, at the same stage. -/
theorem parseRowClassifiedInto_leaves (desc : DbosTupleDesc) (row : Bytes) :
    Leaves (desc.parseRowClassifiedInto ops row) (fun _ b => b.values)
      (desc.parseRowClassified ops row) := by
  apply Leaves.run_bind
  intro _ b
  rw [settled_bind, settled_modify, ok_bind, settled_bind, settled_onPart, settled_stagedEdit,
    ← allStartsInto_overwrites desc row b.varStarts, staged_bind]
  dsimp only
  cases staged false (settled (desc.allStartsInto row) b.varStarts) with
  | error e => rfl
  | ok walked =>
      rw [ok_bind, ok_bind, ok_bind, staged, ok_bind, settled_bind, settled_get, ok_bind,
        settled_bind, settled_run]
      dsimp only
      cases staged false (desc.checkStorage row walked.2 0 desc.fields) with
      | error e => rfl
      | ok _ =>
          rw [ok_bind, ok_bind, settled_onPart,
            settled_eachSlot (settled_convertSlot ops desc row walked.2) desc.fields 0 _ false
              (resized_length desc.numFields b.values),
            ← collect_slotValue ops desc row walked.2 desc.fields 0 false]
          cases collect (desc.slotValue ops row walked.2) 0 desc.fields false with
          | error e => rfl
          | ok r => rfl

theorem settled_parseRowIntoWithScratch (desc : DbosTupleDesc) (row : Bytes) (b : RowBuffers N) :
    settled (desc.parseRowIntoWithScratch ops row) b =
      unstaged (settled (desc.parseRowClassifiedInto ops row) b) := by
  unfold settled parseRowIntoWithScratch
  cases desc.parseRowClassifiedInto ops row b with
  | ok a t => rfl
  | error e t =>
      cases e with
      | error e => rfl
      | panic => rfl

/-- The decoder in place leaves the values of `parse_row`, over whatever the vectors held. -/
theorem parseRowIntoWithScratch_leaves (desc : DbosTupleDesc) (row : Bytes) :
    Leaves (desc.parseRowIntoWithScratch ops row) (fun _ b => b.values) (desc.parseRow ops row) := by
  intro b
  rw [settled_parseRowIntoWithScratch, parseRow, ← parseRowClassifiedInto_leaves ops desc row b]
  cases settled (desc.parseRowClassifiedInto ops row) b with
  | ok r => rfl
  | error e =>
      cases e with
      | error e => rfl
      | panic => rfl

theorem parseRowFresh_eq (desc : DbosTupleDesc) (row : Bytes) :
    desc.parseRowFresh ops row = desc.parseRow ops row :=
  parseRowIntoWithScratch_leaves ops desc row ⟨[], []⟩

/-! ## Nothing leaks -/

/-- `parse_row_into_with_scratch` on any buffers: it ends as `parse_row` does, with its values. -/
theorem row_buffers_never_leak (desc : DbosTupleDesc) (row : Bytes) (b : RowBuffers N) :
    match desc.parseRowFresh ops row with
    | .ok values => ∃ b', desc.parseRowIntoWithScratch ops row b = .ok () b' ∧ b'.values = values
    | .error e => ∃ b', desc.parseRowIntoWithScratch ops row b = .error e b' := by
  have hleaves := parseRowIntoWithScratch_leaves ops desc row b
  rw [parseRowFresh_eq, ← hleaves, settled]
  cases desc.parseRowIntoWithScratch ops row b with
  | ok a b' => exact ⟨b', rfl, rfl⟩
  | error e b' => exact ⟨b', rfl⟩

end DbosTupleDesc

end NzRust
