import Mathlib.Algebra.Group.Defs
import NzRust.Events.Calls
import NzRust.Lib.Transition
import NzRust.Sql.ByteScan

/-!
# The two ends of an event stream

`EventSender` and its `StreamBatchPool` at the one end, the public stream at the
other, over the calls of one response. The ends run on different threads, so a
step is what one of them does between two points at which the other may observe
it; a batch is dropped piece by piece.
-/

namespace NzRust.Events

open Response.Inner Transition
open Sql (byteLen)

def streamBytes : Nat := 8 * 1024 * 1024
def streamBatchRows : Nat := 256
def streamBatchBytes : Nat := 1024 * 1024
def streamEventChannelBatches : Nat := 6
def streamBatchPoolSize : Nat := 1

/-! ## Sizes -/

/-- What `size_of` makes of the types. -/
structure Sizes where
  row : Nat
  rawRowData : Nat
  value : Nat
  columnDesc : Nat

section Sizes

variable {N : Numerics} (sizes : Sizes)

def valueBytes : NzValue N → Nat
  | .text s | .numeric s | .date s | .time s | .timestamp s | .timetz s | .interval s => byteLen s
  | .bytea bytes => bytes.length
  | _ => 0

def retainedBytes : StoredRow N → Nat
  | .raw row =>
      let layoutBytes :=
        match row.kind with
        | .text => 0
        | .dbos desc => (max desc.numVaryingFields 0).toNat * 8
      row.payload.length + (sizes.rawRowData + sizes.row) + layoutBytes
  | .values _ values _ => (values.map fun value => valueBytes value + sizes.value).sum

def eventBytes : QueryStreamEvent N → Nat
  | .row row => retainedBytes sizes row
  | .notice text => byteLen text + 64
  | .resultSetStart _ columns _ =>
      (columns.map fun c => byteLen c.name + sizes.columnDesc).sum
  | _ => 64

end Sizes

/-- `clamp(1, STREAM_BYTES)`. -/
def clampBytes (bytes : Nat) : Nat :=
  max 1 (min bytes streamBytes)

/-! ## What both ends share -/

/-- Byte permits, batch slots and free blocks. -/
@[ext] structure Resources where
  budget : Nat
  slots : Nat
  free : Nat
  deriving DecidableEq, Repr

/-- A batch of rows that takes one block of the pool. The rows before `next` have been taken. -/
structure PooledRowBatch (N : Numerics) where
  rows : List (StoredRow N) := []
  next : Nat := 0
  bytes : Nat := 0
  rowPermit : Option Nat := none
  stagingPermit : Option Nat := none

inductive QueuedStreamItem (N : Numerics) where
  | event (value : QueryStreamEvent N) (permit : Nat)
  | rows (batch : PooledRowBatch N)

/-- What is left of a value while it is dropped: a batch gives its block back first, then its
fields go in their order. -/
inductive Dropping where
  | block (rowPermit stagingPermit : Option Nat)
  | rowPermit (rowPermit stagingPermit : Option Nat)
  | stagingPermit (stagingPermit : Option Nat)
  | slot
  | event (permit : Nat)

def Dropping.step (r : Resources) : Dropping → Resources × List Dropping
  | .block row staging => ({ r with free := r.free + 1 }, [.rowPermit row staging])
  | .rowPermit row staging => ({ r with budget := r.budget + row.getD 0 }, [.stagingPermit staging])
  | .stagingPermit staging => ({ r with budget := r.budget + staging.getD 0 }, [.slot])
  | .slot => ({ r with slots := r.slots + 1 }, [])
  | .event permit => ({ r with budget := r.budget + permit }, [])

namespace PooledRowBatch

variable {N : Numerics}

def push (batch : PooledRowBatch N) (row : StoredRow N) (bytes : Nat) : PooledRowBatch N :=
  { batch with rows := batch.rows ++ [row], bytes := batch.bytes + bytes }

def popRow (batch : PooledRowBatch N) : Option (StoredRow N × PooledRowBatch N) :=
  batch.rows[batch.next]?.map fun row => (row, { batch with next := batch.next + 1 })

def drained (batch : PooledRowBatch N) : Bool :=
  decide (batch.rows.length ≤ batch.next)

def dropping (batch : PooledRowBatch N) : Dropping :=
  .block batch.rowPermit batch.stagingPermit

end PooledRowBatch

def QueuedStreamItem.dropping {N : Numerics} : QueuedStreamItem N → Dropping
  | .event _ permit => .event permit
  | .rows batch => batch.dropping

/-! ## The state -/

/-- Where the producer waits. A row that a flush makes room for is kept beside its batch. -/
inductive Wait (N : Numerics) where
  | eventBudget (event : QueryStreamEvent N)
  | eventChannel (event : QueryStreamEvent N) (permit : Nat)
  | slot (row : StoredRow N)
  | staging (row : StoredRow N) (batch : PooledRowBatch N)
  | rowBudget (batch : PooledRowBatch N) (row : Option (StoredRow N))
  | rowChannel (batch : PooledRowBatch N) (row : Option (StoredRow N))

/-- Every wait selects between the interruption, which is looked at first, and what it is for. -/
inductive Point (N : Numerics) where
  | idle
  | waiting (wait : Wait N) (looked : Bool)
  | popping (row : StoredRow N)
  | dropping (garbage : List Dropping)
  | panicked

structure Producer (N : Numerics) where
  calls : List (Call N)
  eventRows : Option (PooledRowBatch N) := none
  point : Point N := .idle

/-- The public stream; `gone` once its receiver is dropped. -/
structure Consumer (N : Numerics) where
  pendingRows : Option (PooledRowBatch N) := none
  garbage : List Dropping := []
  gone : Bool := false

structure StreamState (N : Numerics) where
  resources : Resources := ⟨streamBytes, streamBatchPoolSize, streamBatchPoolSize⟩
  items : List (QueuedStreamItem N) := []
  closed : Bool := false
  stopped : Bool := false
  producer : Producer N
  consumer : Consumer N := {}
  /-- The events that `poll_event` has returned. -/
  yielded : List (QueryStreamEvent N) := []

inductive ProducerSignal where
  | call
  | look
  | interrupt
  | take
  | refuse
  | pop
  | drop
  | leave
  deriving DecidableEq, Repr

inductive ConsumerSignal where
  | poll
  | drop
  | close
  | dropStream
  deriving DecidableEq, Repr

inductive Action where
  | producer (signal : ProducerSignal)
  | consumer (signal : ConsumerSignal)
  | stop
  deriving DecidableEq, Repr

/-! ## The producer -/

namespace Producer

variable {N : Numerics} (sizes : Sizes)

/-- `flush_rows`. -/
def flushRows (p : Producer N) (row : Option (StoredRow N)) : Producer N :=
  match p.eventRows with
  | none => { p with point := .idle }
  | some batch => { p with eventRows := none, point := .waiting (.rowBudget batch row) false }

/-- The end of `push_row`, once there is a batch for the row. -/
def stage (p : Producer N) (batch : PooledRowBatch N) (row : StoredRow N) : Producer N :=
  let batch := batch.push row (clampBytes (retainedBytes sizes row))
  let p := { p with eventRows := some batch, point := .idle }
  if streamBatchRows ≤ batch.rows.length ∨ streamBatchBytes ≤ batch.bytes then p.flushRows none
  else p

/-- `push_row`. -/
def pushRow (p : Producer N) (row : StoredRow N) : Producer N :=
  match p.eventRows with
  | none => { p with point := .waiting (.slot row) false }
  | some batch =>
      if 0 < batch.rows.length ∧ (streamBatchRows ≤ batch.rows.length ∨
          streamBatchBytes < batch.bytes + clampBytes (retainedBytes sizes row)) then
        p.flushRows (some row)
      else p.stage sizes batch row

/-- The next call of the drain, whose result it ignores. -/
def call (p : Producer N) : Call N → Producer N
  | .send event => { p with point := .waiting (.eventBudget event) false }
  | .pushRow row => p.pushRow sizes row
  | .flushRows => p.flushRows none
  | .pushBatch _ | .flushBatch | .record _ => p

end Producer

/-- What a failed call drops. -/
def Wait.garbage {N : Numerics} : Wait N → List Dropping
  | .eventBudget _ | .slot _ => []
  | .eventChannel _ permit => [.event permit]
  | .staging _ batch | .rowBudget batch _ | .rowChannel batch _ => [batch.dropping]

namespace StreamState

variable {N : Numerics} (sizes : Sizes)

/-- The channel takes an item while there is room in it. -/
def queues (s : StreamState N) (item : QueuedStreamItem N) (point : Point N) :
    Option (StreamState N) :=
  if !s.closed && decide (s.items.length < streamEventChannelBatches) then
    some { s with items := s.items ++ [item], producer := { s.producer with point := point } }
  else none

/-- What the wait is for is there. The channel of an event is in the same selection as its budget,
the one of a batch is not. -/
def takes (s : StreamState N) : Wait N → Option (StreamState N)
  | .eventBudget event =>
      let size := clampBytes (eventBytes sizes event)
      if size ≤ s.resources.budget then
        some { s with
          resources := { s.resources with budget := s.resources.budget - size }
          producer := { s.producer with point := .waiting (.eventChannel event size) true } }
      else none
  | .eventChannel event permit => s.queues (.event event permit) .idle
  | .slot row =>
      if 0 < s.resources.slots then
        some { s with
          resources := { s.resources with slots := s.resources.slots - 1 }
          producer := { s.producer with point := .popping row } }
      else none
  | .staging row batch =>
      if streamBatchBytes ≤ s.resources.budget then
        some { s with
          resources := { s.resources with budget := s.resources.budget - streamBatchBytes }
          producer := s.producer.stage sizes
            { batch with stagingPermit := some streamBatchBytes } row }
      else none
  | .rowBudget batch row =>
      let size := clampBytes batch.bytes
      if size ≤ s.resources.budget then
        some { s with
          resources := { s.resources with
            budget := s.resources.budget - size + batch.stagingPermit.getD 0 }
          producer := { s.producer with
            point := .waiting
              (.rowChannel { batch with rowPermit := some size, stagingPermit := none } row) false } }
      else none
  | .rowChannel batch row =>
      s.queues (.rows batch)
        (match row with
        | none => .idle
        | some row => .waiting (.slot row) false)

/-- The rest of `acquire`, and of `push_row` up to its next wait. -/
def pops (s : StreamState N) (row : StoredRow N) : StreamState N :=
  if s.resources.free = 0 then { s with producer := { s.producer with point := .panicked } }
  else
    let s := { s with resources := { s.resources with free := s.resources.free - 1 } }
    if clampBytes (retainedBytes sizes row) ≤ streamBatchBytes then
      { s with producer := { s.producer with point := .waiting (.staging row {}) false } }
    else { s with producer := s.producer.stage sizes {} row }

def fails (s : StreamState N) (wait : Wait N) : StreamState N :=
  { s with producer := { s.producer with point := .dropping wait.garbage } }

/-- The drain returns, or its future is dropped at a wait. -/
def leaves (s : StreamState N) (garbage : List Dropping) : StreamState N :=
  { s with
    producer :=
      ⟨[], none, .dropping (garbage ++ s.producer.eventRows.toList.map PooledRowBatch.dropping)⟩ }

def produce (s : StreamState N) : ProducerSignal → Option (StreamState N)
  | .call =>
      match s.producer.point, s.producer.calls with
      | .idle, call :: calls =>
          some { s with producer := { s.producer with calls := calls }.call sizes call }
      | _, _ => none
  | .look =>
      match s.producer.point with
      | .waiting wait false =>
          if s.stopped then none
          else some { s with producer := { s.producer with point := .waiting wait true } }
      | _ => none
  | .interrupt =>
      match s.producer.point with
      | .waiting wait _ => if s.stopped then some (s.fails wait) else none
      | _ => none
  | .take =>
      match s.producer.point with
      | .waiting wait true => s.takes sizes wait
      | _ => none
  | .refuse =>
      match s.producer.point with
      | .waiting wait true =>
          match wait with
          | .eventChannel _ _ | .rowChannel _ _ => if s.closed then some (s.fails wait) else none
          | _ => none
      | _ => none
  | .pop =>
      match s.producer.point with
      | .popping row => some (s.pops sizes row)
      | _ => none
  | .drop =>
      match s.producer.point with
      | .dropping [] => some { s with producer := { s.producer with point := .idle } }
      | .dropping (g :: garbage) =>
          let (resources, rest) := g.step s.resources
          some { s with
            resources := resources
            producer := { s.producer with point := .dropping (rest ++ garbage) } }
      | _ => none
  | .leave =>
      match s.producer.point with
      | .idle => some (s.leaves [])
      | .waiting wait _ => some (s.leaves wait.garbage)
      | _ => none

/-! ## The consumer -/

/-- The batch has no use any more. -/
def discards (s : StreamState N) (batch : PooledRowBatch N) : StreamState N :=
  { s with consumer := { s.consumer with pendingRows := none, garbage := [batch.dropping] } }

/-- A turn of the loop of `poll_event`. -/
def polls (s : StreamState N) : Option (StreamState N) :=
  match s.consumer.pendingRows with
  | some batch =>
      match batch.popRow with
      | some (row, batch) =>
          let s := { s with yielded := s.yielded ++ [QueryStreamEvent.row row] }
          if batch.drained then some (s.discards batch)
          else some { s with consumer := { s.consumer with pendingRows := some batch } }
      | none => some (s.discards batch)
  | none =>
      match s.items with
      | [] => none
      | .event value permit :: items =>
          some { s with
            items := items
            consumer := { s.consumer with garbage := [.event permit] }
            yielded := s.yielded ++ [value] }
      | .rows batch :: items =>
          some { s with
            items := items
            consumer := { s.consumer with pendingRows := some batch } }

/-- Dropping the receiver empties the channel, and then the pending rows go. -/
def empties (s : StreamState N) : Option (StreamState N) :=
  match s.items with
  | item :: items =>
      some { s with items := items, consumer := { s.consumer with garbage := [item.dropping] } }
  | [] => s.consumer.pendingRows.map s.discards

def consume (s : StreamState N) : ConsumerSignal → Option (StreamState N)
  | .poll => if s.consumer.gone || !s.consumer.garbage.isEmpty then none else s.polls
  | .drop =>
      match s.consumer.garbage with
      | g :: garbage =>
          let (resources, rest) := g.step s.resources
          some { s with
            resources := resources
            consumer := { s.consumer with garbage := rest ++ garbage } }
      | [] => if s.consumer.gone then s.empties else none
  | .close => if s.consumer.gone then none else some { s with closed := true }
  | .dropStream =>
      if s.consumer.gone || !s.consumer.garbage.isEmpty then none
      else some { s with closed := true, consumer := { s.consumer with gone := true } }

def next (s : StreamState N) : Action → Option (StreamState N)
  | .producer signal => s.produce sizes signal
  | .consumer signal => s.consume signal
  | .stop => some { s with stopped := true }

end StreamState

/-- All runs of a stream whose response makes these calls. -/
def streaming {N : Numerics} (sizes : Sizes) (calls : List (Call N)) :
    System (StreamState N) Action where
  initial s := s = { producer := { calls := calls } }
  step s a s' := s.next sizes a = some s'

/-! ## What a step is -/

section Steps

variable {N : Numerics} (sizes : Sizes)

/-- The steps of the producer. -/
inductive Produces (s : StreamState N) : StreamState N → Prop where
  | call {call : Call N} {calls : List (Call N)} (hpoint : s.producer.point = .idle)
      (hcalls : s.producer.calls = call :: calls) :
      Produces s { s with producer := { s.producer with calls := calls }.call sizes call }
  | look {wait : Wait N} (hpoint : s.producer.point = .waiting wait false)
      (hrunning : s.stopped = false) :
      Produces s { s with producer := { s.producer with point := .waiting wait true } }
  | fail {wait : Wait N} {looked : Bool} (hpoint : s.producer.point = .waiting wait looked)
      (hcause : s.stopped = true ∨ s.closed = true) : Produces s (s.fails wait)
  | take {wait : Wait N} {s' : StreamState N} (hpoint : s.producer.point = .waiting wait true)
      (htakes : s.takes sizes wait = some s') : Produces s s'
  | pop {row : StoredRow N} (hpoint : s.producer.point = .popping row) :
      Produces s (s.pops sizes row)
  | dropped (hpoint : s.producer.point = .dropping []) :
      Produces s { s with producer := { s.producer with point := .idle } }
  | drop {g : Dropping} {garbage : List Dropping}
      (hpoint : s.producer.point = .dropping (g :: garbage)) :
      Produces s { s with
        resources := (g.step s.resources).1
        producer := { s.producer with point := .dropping ((g.step s.resources).2 ++ garbage) } }
  | leaveIdle (hpoint : s.producer.point = .idle) : Produces s (s.leaves [])
  | leaveWait {wait : Wait N} {looked : Bool} (hpoint : s.producer.point = .waiting wait looked) :
      Produces s (s.leaves wait.garbage)

theorem produces {s s' : StreamState N} {signal : ProducerSignal}
    (h : s.produce sizes signal = some s') : Produces sizes s s' := by
  cases signal with
  | call =>
      simp only [StreamState.produce] at h
      split at h
      · next call calls hpoint hcalls =>
          obtain rfl := Option.some.inj h
          exact .call hpoint hcalls
      · cases h
  | look =>
      simp only [StreamState.produce] at h
      split at h
      · next wait hpoint =>
          split at h
          · cases h
          · next hrunning =>
              obtain rfl := Option.some.inj h
              exact .look hpoint (by simpa using hrunning)
      · cases h
  | interrupt =>
      simp only [StreamState.produce] at h
      split at h
      · next wait looked hpoint =>
          split at h
          · next hstopped =>
              obtain rfl := Option.some.inj h
              exact .fail hpoint (.inl hstopped)
          · cases h
      · cases h
  | take =>
      simp only [StreamState.produce] at h
      split at h
      · next wait hpoint => exact .take hpoint h
      · cases h
  | refuse =>
      simp only [StreamState.produce] at h
      split at h
      · next wait hpoint =>
          have hfails : s.closed = true ∧ s' = s.fails wait := by
            cases wait <;> simp_all
          rw [hfails.2]
          exact .fail hpoint (.inr hfails.1)
      · cases h
  | pop =>
      simp only [StreamState.produce] at h
      split at h
      · next row hpoint =>
          obtain rfl := Option.some.inj h
          exact .pop hpoint
      · cases h
  | drop =>
      simp only [StreamState.produce] at h
      split at h
      · next hpoint =>
          obtain rfl := Option.some.inj h
          exact .dropped hpoint
      · next g garbage hpoint =>
          obtain rfl := Option.some.inj h
          exact .drop hpoint
      · cases h
  | leave =>
      simp only [StreamState.produce] at h
      split at h
      · next hpoint =>
          obtain rfl := Option.some.inj h
          exact .leaveIdle hpoint
      · next wait looked hpoint =>
          obtain rfl := Option.some.inj h
          exact .leaveWait hpoint
      · cases h

/-- The steps of the consumer. -/
inductive Consumes (s : StreamState N) : ConsumerSignal → StreamState N → Prop where
  | row {batch rest : PooledRowBatch N} {row : StoredRow N} (hgone : s.consumer.gone = false)
      (hgarbage : s.consumer.garbage = []) (hpending : s.consumer.pendingRows = some batch)
      (hpop : batch.popRow = some (row, rest)) (hleft : rest.drained = false) :
      Consumes s .poll { s with
        consumer := { s.consumer with pendingRows := some rest }
        yielded := s.yielded ++ [.row row] }
  | lastRow {batch rest : PooledRowBatch N} {row : StoredRow N} (hgone : s.consumer.gone = false)
      (hgarbage : s.consumer.garbage = []) (hpending : s.consumer.pendingRows = some batch)
      (hpop : batch.popRow = some (row, rest)) (hdrained : rest.drained = true) :
      Consumes s .poll
        (StreamState.discards { s with yielded := s.yielded ++ [QueryStreamEvent.row row] } rest)
  | noRow {batch : PooledRowBatch N} (hgone : s.consumer.gone = false)
      (hgarbage : s.consumer.garbage = []) (hpending : s.consumer.pendingRows = some batch)
      (hpop : batch.popRow = none) : Consumes s .poll (s.discards batch)
  | event {value : QueryStreamEvent N} {permit : Nat} {items : List (QueuedStreamItem N)}
      (hgone : s.consumer.gone = false) (hgarbage : s.consumer.garbage = [])
      (hpending : s.consumer.pendingRows = none) (hitems : s.items = .event value permit :: items) :
      Consumes s .poll { s with
        items := items
        consumer := { s.consumer with garbage := [.event permit] }
        yielded := s.yielded ++ [value] }
  | rows {batch : PooledRowBatch N} {items : List (QueuedStreamItem N)}
      (hgone : s.consumer.gone = false) (hgarbage : s.consumer.garbage = [])
      (hpending : s.consumer.pendingRows = none) (hitems : s.items = .rows batch :: items) :
      Consumes s .poll { s with
        items := items
        consumer := { s.consumer with pendingRows := some batch } }
  | drop {g : Dropping} {garbage : List Dropping} (hgarbage : s.consumer.garbage = g :: garbage) :
      Consumes s .drop { s with
        resources := (g.step s.resources).1
        consumer := { s.consumer with garbage := (g.step s.resources).2 ++ garbage } }
  | emptyItem {item : QueuedStreamItem N} {items : List (QueuedStreamItem N)}
      (hgone : s.consumer.gone = true) (hgarbage : s.consumer.garbage = [])
      (hitems : s.items = item :: items) :
      Consumes s .drop { s with
        items := items
        consumer := { s.consumer with garbage := [item.dropping] } }
  | emptyRows {batch : PooledRowBatch N} (hgone : s.consumer.gone = true)
      (hgarbage : s.consumer.garbage = []) (hitems : s.items = [])
      (hpending : s.consumer.pendingRows = some batch) : Consumes s .drop (s.discards batch)
  | close (hgone : s.consumer.gone = false) : Consumes s .close { s with closed := true }
  | dropStream (hgone : s.consumer.gone = false) (hgarbage : s.consumer.garbage = []) :
      Consumes s .dropStream
        { s with closed := true, consumer := { s.consumer with gone := true } }

theorem consumes {s s' : StreamState N} {signal : ConsumerSignal}
    (h : s.consume signal = some s') : Consumes s signal s' := by
  cases signal with
  | poll =>
      simp only [StreamState.consume] at h
      split at h
      · cases h
      · next hopen =>
          simp only [Bool.or_eq_true, Bool.not_eq_true', List.isEmpty_eq_false_iff, not_or,
            Bool.not_eq_true, ne_eq, not_not] at hopen
          obtain ⟨hgone, hgarbage⟩ := hopen
          unfold StreamState.polls at h
          cases hpending : s.consumer.pendingRows with
          | some batch =>
              simp only [hpending] at h
              split at h
              · next row rest hpop =>
                  split at h
                  · next hdrained =>
                      obtain rfl := Option.some.inj h
                      exact .lastRow hgone hgarbage hpending hpop hdrained
                  · next hleft =>
                      obtain rfl := Option.some.inj h
                      exact .row hgone hgarbage hpending hpop (by simpa using hleft)
              · next hpop =>
                  obtain rfl := Option.some.inj h
                  exact .noRow hgone hgarbage hpending hpop
          | none =>
              simp only [hpending] at h
              split at h
              · cases h
              · next value permit items hitems =>
                  obtain rfl := Option.some.inj h
                  simpa only [hpending] using Consumes.event hgone hgarbage hpending hitems
              · next batch items hitems =>
                  obtain rfl := Option.some.inj h
                  exact .rows hgone hgarbage hpending hitems
  | drop =>
      simp only [StreamState.consume] at h
      split at h
      · next g garbage hgarbage =>
          obtain rfl := Option.some.inj h
          exact .drop hgarbage
      · next hgarbage =>
          split at h
          · next hgone =>
              unfold StreamState.empties at h
              split at h
              · next item items hitems =>
                  obtain rfl := Option.some.inj h
                  exact .emptyItem hgone hgarbage hitems
              · next hitems =>
                  obtain ⟨batch, hpending, rfl⟩ := Option.map_eq_some_iff.mp h
                  exact .emptyRows hgone hgarbage hitems hpending
          · cases h
  | close =>
      simp only [StreamState.consume] at h
      split at h
      · cases h
      · next hgone =>
          obtain rfl := Option.some.inj h
          exact .close (by simpa using hgone)
  | dropStream =>
      simp only [StreamState.consume] at h
      split at h
      · cases h
      · next hopen =>
          obtain rfl := Option.some.inj h
          simp only [Bool.or_eq_true, Bool.not_eq_true', List.isEmpty_eq_false_iff, not_or,
            Bool.not_eq_true, ne_eq, not_not] at hopen
          exact .dropStream hopen.1 hopen.2

end Steps

end NzRust.Events
