import Mathlib.Tactic.Abel
import NzRust.Events.Sender
import NzRust.Lib.Soup
import NzRust.Response.Retention

/-!
# The permits of an event stream

What the two ends and the channel hold of the byte budget, the batch slots and
the blocks adds up to what the stream was made with. What the producer holds at
each of its waits then bounds what it may ask for, and the rest is free already
or with the consumer.
-/

namespace NzRust.Events

open Response.Inner Transition
open Tasks (weigh)

/-! ## Sums of resources -/

namespace Resources

instance : Zero Resources := ⟨⟨0, 0, 0⟩⟩

instance : Add Resources :=
  ⟨fun a b => ⟨a.budget + b.budget, a.slots + b.slots, a.free + b.free⟩⟩

@[simp] theorem zero_budget : (0 : Resources).budget = 0 := rfl

@[simp] theorem zero_slots : (0 : Resources).slots = 0 := rfl

@[simp] theorem zero_free : (0 : Resources).free = 0 := rfl

@[simp] theorem add_budget (a b : Resources) : (a + b).budget = a.budget + b.budget := rfl

@[simp] theorem add_slots (a b : Resources) : (a + b).slots = a.slots + b.slots := rfl

@[simp] theorem add_free (a b : Resources) : (a + b).free = a.free + b.free := rfl

instance : AddCommMonoid Resources where
  add_assoc a b c := by ext <;> simp [Nat.add_assoc]
  zero_add a := by ext <;> simp
  add_zero a := by ext <;> simp
  add_comm a b := by ext <;> simp [Nat.add_comm]
  nsmul := nsmulRec

end Resources

/-! ## Who holds what -/

def Dropping.held : Dropping → Resources
  | .block row staging => ⟨row.getD 0 + staging.getD 0, 1, 1⟩
  | .rowPermit row staging => ⟨row.getD 0 + staging.getD 0, 1, 0⟩
  | .stagingPermit staging => ⟨staging.getD 0, 1, 0⟩
  | .slot => ⟨0, 1, 0⟩
  | .event permit => ⟨permit, 0, 0⟩

variable {N : Numerics}

def heldRows (batch : Option (PooledRowBatch N)) : Resources :=
  weigh Dropping.held (batch.toList.map PooledRowBatch.dropping)

def QueuedStreamItem.held (item : QueuedStreamItem N) : Resources :=
  item.dropping.held

/-- A call that waits holds what it drops when it fails. -/
def Point.held : Point N → Resources
  | .waiting wait _ => weigh Dropping.held wait.garbage
  | .popping _ => Dropping.held .slot
  | .dropping garbage => weigh Dropping.held garbage
  | .idle | .panicked => 0

def Producer.held (p : Producer N) : Resources :=
  heldRows p.eventRows + p.point.held

def Consumer.held (c : Consumer N) : Resources :=
  heldRows c.pendingRows + weigh Dropping.held c.garbage

namespace StreamState

def total (s : StreamState N) : Resources :=
  (s.resources + s.producer.held) + (weigh QueuedStreamItem.held s.items + s.consumer.held)

end StreamState

@[simp] theorem heldRows_none : heldRows (none : Option (PooledRowBatch N)) = 0 := rfl

@[simp] theorem heldRows_some (batch : PooledRowBatch N) :
    heldRows (some batch) = batch.dropping.held := by
  simp [heldRows]

@[simp] theorem push_dropping (batch : PooledRowBatch N) (row : StoredRow N) (bytes : Nat) :
    (batch.push row bytes).dropping = batch.dropping := rfl

/-- Dropping a piece hands over what it held. -/
theorem step_held (g : Dropping) (r : Resources) :
    (g.step r).1 + weigh Dropping.held (g.step r).2 = r + g.held := by
  cases g <;> ext <;> simp [Dropping.step, Dropping.held, Nat.add_assoc]

/-- A block is given back before the slot of its batch. -/
theorem Dropping.held_free_le (g : Dropping) : g.held.free ≤ g.held.slots := by
  cases g <;> simp [Dropping.held]

theorem weigh_free_le {T : Type} {held : T → Resources} (h : ∀ t, (held t).free ≤ (held t).slots)
    (ts : List T) : (weigh held ts).free ≤ (weigh held ts).slots := by
  induction ts with
  | nil => simp
  | cons t ts ih =>
      have ht := h t
      simp only [Tasks.weigh_cons, Resources.add_free, Resources.add_slots]
      omega

/-! ## What fits each point of the producer -/

/-- A batch that the producer fills. -/
structure Counted (sizes : Sizes) (batch : PooledRowBatch N) : Prop where
  next : batch.next = 0
  rowPermit : batch.rowPermit = none
  bytes : batch.bytes = (batch.rows.map fun row => clampBytes (retainedBytes sizes row)).sum

/-- A batch between two calls of the drain. -/
structure Staged (sizes : Sizes) (batch : PooledRowBatch N) : Prop
    extends Counted sizes batch where
  rows : 0 < batch.rows.length
  room : batch.rows.length < streamBatchRows
  stagingPermit : batch.stagingPermit = some streamBatchBytes
  limit : batch.bytes ≤ streamBatchBytes

/-- A batch on its way out. Only a batch under the limit has rows that share it. -/
structure Flushable (sizes : Sizes) (batch : PooledRowBatch N) : Prop
    extends Counted sizes batch where
  room : batch.rows.length ≤ streamBatchRows
  stagingPermit : batch.stagingPermit = none ∧ batch.rows.length ≤ 1 ∨
    batch.stagingPermit = some streamBatchBytes ∧ batch.bytes ≤ streamBatchBytes

theorem Staged.flushable {sizes : Sizes} {batch : PooledRowBatch N} (h : Staged sizes batch) :
    Flushable sizes batch :=
  ⟨h.toCounted, Nat.le_of_lt h.room, .inr ⟨h.stagingPermit, h.limit⟩⟩

/-- The limits of a batch: one row may be of any size. -/
def Bounded (sizes : Sizes) (batch : PooledRowBatch N) : Prop :=
  batch.rows.length ≤ streamBatchRows ∧
    (batch.rows.length ≤ 1 ∨ (batch.rows.map (retainedBytes sizes)).sum ≤ streamBatchBytes)

theorem streamBatchRows_pos : 0 < streamBatchRows := by
  decide

theorem clampBytes_le (bytes : Nat) : clampBytes bytes ≤ streamBytes := by
  have hone : 1 ≤ streamBytes := by decide
  simp only [clampBytes]
  omega

theorem clampBytes_le_batch {bytes : Nat} (h : bytes ≤ streamBatchBytes) :
    clampBytes bytes ≤ streamBatchBytes := by
  have hone : 1 ≤ streamBatchBytes := by decide
  simp only [clampBytes]
  omega

/-- Under the limit nothing has been clamped off. -/
theorem sum_le_of_clamped {rows : List Nat} (h : (rows.map clampBytes).sum ≤ streamBatchBytes) :
    rows.sum ≤ (rows.map clampBytes).sum := by
  have hless : streamBatchBytes < streamBytes := by decide
  induction rows with
  | nil => exact Nat.le_refl 0
  | cons bytes rows ih =>
      simp only [List.map_cons, List.sum_cons] at h ⊢
      have hrest := ih (by omega)
      have hbytes : bytes ≤ clampBytes bytes := by
        simp only [clampBytes] at h ⊢
        omega
      omega

theorem Flushable.bounded {sizes : Sizes} {batch : PooledRowBatch N} (h : Flushable sizes batch) :
    Bounded sizes batch := by
  refine ⟨h.room, ?_⟩
  rcases h.stagingPermit with ⟨-, hsingle⟩ | ⟨-, hlimit⟩
  · exact .inl hsingle
  · have hbytes := h.bytes
    rw [← Function.comp_def clampBytes, ← List.map_map] at hbytes
    rw [hbytes] at hlimit
    exact .inr (Nat.le_trans (sum_le_of_clamped hlimit) hlimit)

def Wait.Fits (sizes : Sizes) (calls : List (Call N)) : Wait N → Prop
  | .eventBudget _ | .eventChannel _ _ => Flushed false calls
  | .slot _ => Flushed true calls
  | .staging row batch => batch = {} ∧
      clampBytes (retainedBytes sizes row) ≤ streamBatchBytes ∧ Flushed true calls
  | .rowBudget batch row => Flushable sizes batch ∧ Flushed row.isSome calls
  | .rowChannel batch row => batch.next = 0 ∧ Bounded sizes batch ∧ Flushed row.isSome calls

/-- Rows are staged between two calls only. -/
def Producer.Fits (sizes : Sizes) (p : Producer N) : Prop :=
  match p.point with
  | .idle => (∀ batch, p.eventRows = some batch → Staged sizes batch) ∧
      Flushed p.eventRows.isSome p.calls
  | .waiting wait _ => p.eventRows = none ∧ wait.Fits sizes p.calls
  | .popping _ => p.eventRows = none ∧ Flushed true p.calls
  | .dropping _ => p.eventRows = none ∧ Flushed false p.calls
  | .panicked => False

theorem Flushed.weaken {staged : Bool} {calls : List (Call N)} (h : Flushed staged calls) :
    Flushed false calls := by
  cases staged with
  | false => exact h
  | true => exact h.gone

theorem Wait.Fits.weaken {sizes : Sizes} {calls : List (Call N)} {wait : Wait N} (h : wait.Fits sizes calls) :
    Flushed false calls := by
  cases wait with
  | eventBudget event => exact h
  | eventChannel event permit => exact h
  | slot row => exact h.gone
  | staging row batch => exact h.2.2.gone
  | rowBudget batch row => exact h.2.weaken
  | rowChannel batch row => exact h.2.2.weaken

/-! ## The calls of the drain -/

section Calls

variable (sizes : Sizes) {p : Producer N}

theorem flushRows_held (row : Option (StoredRow N)) (h : p.point = .idle) :
    (p.flushRows row).held = p.held := by
  cases hrows : p.eventRows with
  | none => simp [Producer.flushRows, Producer.held, hrows, h]
  | some batch => simp [Producer.flushRows, Producer.held, Point.held, Wait.garbage, hrows, h]

theorem flushRows_fits {row : Option (StoredRow N)}
    (h : ∀ batch, p.eventRows = some batch → Flushable sizes batch)
    (hcalls : Flushed row.isSome p.calls) : (p.flushRows row).Fits sizes := by
  cases hrows : p.eventRows with
  | none =>
      simp only [Producer.flushRows, hrows, Producer.Fits]
      exact ⟨by simp, hcalls.weaken⟩
  | some batch =>
      simp only [Producer.flushRows, hrows, Producer.Fits]
      exact ⟨trivial, h batch hrows, hcalls⟩

theorem stage_held (batch : PooledRowBatch N) (row : StoredRow N) :
    (p.stage sizes batch row).held = batch.dropping.held := by
  unfold Producer.stage
  dsimp only
  split
  · rw [flushRows_held none rfl]
    simp [Producer.held, Point.held]
  · simp [Producer.held, Point.held]

theorem Counted.push {batch : PooledRowBatch N} (h : Counted sizes batch) (row : StoredRow N) :
    Counted sizes (batch.push row (clampBytes (retainedBytes sizes row))) where
  next := h.next
  rowPermit := h.rowPermit
  bytes := by simp [PooledRowBatch.push, h.bytes]

/-- A row either shares the batch that its staging permit covers, or is too large to share one. -/
theorem stage_fits {batch : PooledRowBatch N} {row : StoredRow N} (hcounted : Counted sizes batch)
    (hroom : batch.rows.length < streamBatchRows)
    (h : (batch.stagingPermit = none ∧ batch.rows = [] ∧
        streamBatchBytes < clampBytes (retainedBytes sizes row)) ∨
      batch.stagingPermit = some streamBatchBytes ∧
        batch.bytes + clampBytes (retainedBytes sizes row) ≤ streamBatchBytes)
    (hcalls : Flushed true p.calls) : (p.stage sizes batch row).Fits sizes := by
  have hpushed := hcounted.push sizes row
  unfold Producer.stage
  dsimp only
  split
  · apply flushRows_fits
    · intro pushed hrows
      obtain rfl := Option.some.inj hrows
      refine ⟨hpushed, ?_, ?_⟩
      · simpa [PooledRowBatch.push, Nat.add_one_le_iff] using hroom
      · rcases h with ⟨hstaging, hempty, -⟩ | ⟨hstaging, hbytes⟩
        · exact .inl ⟨hstaging, by simp [PooledRowBatch.push, hempty]⟩
        · exact .inr ⟨hstaging, hbytes⟩
    · exact hcalls.gone
  · next hkept =>
      refine ⟨?_, hcalls⟩
      intro pushed hrows
      obtain rfl := Option.some.inj hrows
      rcases h with ⟨-, -, hbytes⟩ | ⟨hstaging, hbytes⟩
      · exact absurd (.inr (by simp only [PooledRowBatch.push]; omega)) hkept
      · refine ⟨hpushed, ?_, ?_, hstaging, hbytes⟩
        · simp [PooledRowBatch.push]
        · omega

theorem pushRow_held (row : StoredRow N) (h : p.point = .idle) :
    (p.pushRow sizes row).held = p.held := by
  unfold Producer.pushRow
  cases hrows : p.eventRows with
  | none => simp [Producer.held, Point.held, Wait.garbage, hrows, h]
  | some batch =>
      dsimp only
      split
      · exact flushRows_held (some row) h
      · rw [stage_held]
        simp [Producer.held, Point.held, hrows, h]

theorem pushRow_fits (row : StoredRow N) (h : ∀ batch, p.eventRows = some batch → Staged sizes batch)
    (hcalls : Flushed true p.calls) : (p.pushRow sizes row).Fits sizes := by
  unfold Producer.pushRow
  cases hrows : p.eventRows with
  | none => exact ⟨rfl, hcalls⟩
  | some batch =>
      have hstaged := h batch hrows
      dsimp only
      split
      · exact flushRows_fits sizes (fun batch hbatch => (h batch hbatch).flushable) hcalls
      · next hroom =>
          have hrow := hstaged.rows
          exact stage_fits sizes hstaged.toCounted hstaged.room
            (.inr ⟨hstaged.stagingPermit, by omega⟩) hcalls

theorem call_held (call : Call N) (h : p.point = .idle) : (p.call sizes call).held = p.held := by
  cases call with
  | send event => simp [Producer.call, Producer.held, Point.held, Wait.garbage, h]
  | pushRow row => exact pushRow_held sizes row h
  | flushRows => exact flushRows_held none h
  | pushBatch row => rfl
  | flushBatch => rfl
  | record message => rfl

theorem call_fits {call : Call N} {calls : List (Call N)} (hidle : p.point = .idle)
    (h : p.Fits sizes) (hcalls : p.calls = call :: calls) :
    (({ p with calls := calls }).call sizes call).Fits sizes := by
  simp only [Producer.Fits, hidle, hcalls] at h
  obtain ⟨hstaged, hflushed⟩ := h
  cases call with
  | send event =>
      obtain ⟨hnone, hflushed⟩ := hflushed
      have hrows : p.eventRows = none := by simpa using hnone
      rw [hnone] at hflushed
      exact ⟨hrows, hflushed⟩
  | pushRow row => exact pushRow_fits sizes row hstaged hflushed
  | flushRows => exact flushRows_fits sizes (fun batch hbatch => (hstaged batch hbatch).flushable) hflushed
  | pushBatch row => simpa [Producer.call, Producer.Fits, hidle] using ⟨hstaged, hflushed⟩
  | flushBatch => simpa [Producer.call, Producer.Fits, hidle] using ⟨hstaged, hflushed⟩
  | record message => simpa [Producer.call, Producer.Fits, hidle] using ⟨hstaged, hflushed⟩

end Calls

/-! ## What a step keeps -/

/-- The producer is where it may be with what it holds, and nothing is lost or made up. -/
structure Balanced (sizes : Sizes) (s : StreamState N) : Prop where
  fits : s.producer.Fits sizes
  total : s.total = ⟨streamBytes, streamBatchPoolSize, streamBatchPoolSize⟩

theorem Producer.held_free_le (p : Producer N) : p.held.free ≤ p.held.slots := by
  have hrows : (heldRows p.eventRows).free ≤ (heldRows p.eventRows).slots :=
    weigh_free_le Dropping.held_free_le _
  have hpoint : p.point.held.free ≤ p.point.held.slots := by
    cases p.point with
    | idle => exact Nat.le_refl 0
    | waiting wait looked => exact weigh_free_le Dropping.held_free_le _
    | popping row => exact Nat.zero_le 1
    | dropping garbage => exact weigh_free_le Dropping.held_free_le _
    | panicked => exact Nat.le_refl 0
  simp only [Producer.held, Resources.add_free, Resources.add_slots]
  omega

theorem Consumer.held_free_le (c : Consumer N) : c.held.free ≤ c.held.slots := by
  have hrows : (heldRows c.pendingRows).free ≤ (heldRows c.pendingRows).slots :=
    weigh_free_le Dropping.held_free_le _
  have hgarbage := weigh_free_le Dropping.held_free_le c.garbage
  simp only [Consumer.held, Resources.add_free, Resources.add_slots]
  omega

theorem QueuedStreamItem.held_free_le (item : QueuedStreamItem N) :
    item.held.free ≤ item.held.slots :=
  item.dropping.held_free_le

/-- Away from the producer no block is held without its slot. -/
theorem Balanced.slots_add_le {sizes : Sizes} {s : StreamState N} (h : Balanced sizes s) :
    s.resources.slots + s.producer.held.slots ≤ s.resources.free + s.producer.held.free := by
  have hitems := weigh_free_le QueuedStreamItem.held_free_le s.items
  have hconsumer := s.consumer.held_free_le
  have hslots := congrArg Resources.slots h.total
  have hfree := congrArg Resources.free h.total
  simp only [StreamState.total, Resources.add_slots, Resources.add_free] at hslots hfree
  omega

/-- So a block is free for whoever has the slot. -/
theorem Balanced.free_pos {sizes : Sizes} {s : StreamState N} (h : Balanced sizes s)
    {row : StoredRow N} (hpoint : s.producer.point = .popping row) : 0 < s.resources.free := by
  have hfits := h.fits
  have hkept := h.slots_add_le
  simp only [Producer.Fits, hpoint] at hfits
  simp only [Producer.held, Point.held, Dropping.held, hpoint, hfits.1, heldRows_none,
    Resources.add_slots, Resources.add_free, Resources.zero_slots, Resources.zero_free] at hkept
  omega

theorem total_producer {s : StreamState N} {resources : Resources} {producer : Producer N}
    (h : resources + producer.held = s.resources + s.producer.held) :
    StreamState.total { s with resources := resources, producer := producer } = s.total := by
  simp [StreamState.total, h]

theorem total_consumer {s : StreamState N} {resources : Resources}
    {items : List (QueuedStreamItem N)} {consumer : Consumer N}
    (h : resources + (weigh QueuedStreamItem.held items + consumer.held) =
      s.resources + (weigh QueuedStreamItem.held s.items + s.consumer.held))
    (yielded : List (QueryStreamEvent N)) :
    StreamState.total { s with
      resources := resources, items := items, consumer := consumer, yielded := yielded } =
        s.total := by
  simp only [StreamState.total]
  rw [add_right_comm, h, add_right_comm]

section Produce

variable (sizes : Sizes) {s s' : StreamState N}

/-- An item takes along what the wait for its place held. -/
theorem queues_balanced {item : QueuedStreamItem N} {point : Point N} (h : Balanced sizes s)
    (hheld : s.producer.point.held = item.held + point.held)
    (hfits : Producer.Fits sizes { s.producer with point := point })
    (hstep : s.queues item point = some s') : Balanced sizes s' := by
  unfold StreamState.queues at hstep
  split at hstep
  · obtain rfl := Option.some.inj hstep
    refine ⟨hfits, ?_⟩
    rw [← h.total]
    simp only [StreamState.total, Producer.held, hheld, Tasks.weigh_append, Tasks.weigh_cons,
      Tasks.weigh_nil]
    abel
  · cases hstep

theorem takes_balanced {wait : Wait N} {looked : Bool} (h : Balanced sizes s)
    (hpoint : s.producer.point = .waiting wait looked) (hstep : s.takes sizes wait = some s') :
    Balanced sizes s' := by
  have hfits := h.fits
  simp only [Producer.Fits, hpoint] at hfits
  obtain ⟨hrows, hwait⟩ := hfits
  cases wait with
  | eventBudget event =>
      simp only [StreamState.takes] at hstep
      split at hstep
      · next hsize =>
          obtain rfl := Option.some.inj hstep
          refine ⟨⟨hrows, hwait⟩, Eq.trans (total_producer ?_) h.total⟩
          ext <;> simp [Producer.held, Point.held, Wait.garbage, Dropping.held, hpoint, hrows, hsize]
      · cases hstep
  | eventChannel event permit =>
      apply queues_balanced sizes h _ _ hstep
      · simp [Point.held, Wait.garbage, QueuedStreamItem.held, QueuedStreamItem.dropping, hpoint]
      · exact ⟨by simp [hrows], by simpa [hrows, Wait.Fits] using hwait⟩
  | slot row =>
      simp only [StreamState.takes] at hstep
      split at hstep
      · next hslots =>
          obtain rfl := Option.some.inj hstep
          refine ⟨⟨hrows, hwait⟩, Eq.trans (total_producer ?_) h.total⟩
          ext <;> simp [Producer.held, Point.held, Wait.garbage, Dropping.held, hpoint, hrows]
          omega
      · cases hstep
  | staging row batch =>
      obtain ⟨rfl, hsmall, hcalls⟩ := hwait
      simp only [StreamState.takes] at hstep
      split at hstep
      · next hsize =>
          obtain rfl := Option.some.inj hstep
          refine ⟨stage_fits sizes ⟨rfl, rfl, rfl⟩ streamBatchRows_pos ?_ hcalls,
            Eq.trans (total_producer ?_) h.total⟩
          · exact .inr ⟨rfl, by simpa using hsmall⟩
          · rw [stage_held]
            ext <;> simp [Producer.held, Point.held, Wait.garbage, PooledRowBatch.dropping,
              Dropping.held, hpoint, hrows, hsize]
      · cases hstep
  | rowBudget batch row =>
      obtain ⟨hflushable, hcalls⟩ := hwait
      simp only [StreamState.takes] at hstep
      split at hstep
      · next hsize =>
          obtain rfl := Option.some.inj hstep
          refine ⟨⟨hrows, hflushable.next, hflushable.bounded, hcalls⟩,
            Eq.trans (total_producer ?_) h.total⟩
          ext <;> simp [Producer.held, Point.held, Wait.garbage, PooledRowBatch.dropping,
            Dropping.held, hpoint, hrows, hflushable.rowPermit]
          omega
      · cases hstep
  | rowChannel batch row =>
      cases row with
      | none =>
          apply queues_balanced sizes h _ _ hstep
          · simp [Point.held, Wait.garbage, QueuedStreamItem.held, QueuedStreamItem.dropping, hpoint]
          · exact ⟨by simp [hrows], by simpa [hrows] using hwait.2.2⟩
      | some row =>
          apply queues_balanced sizes h _ _ hstep
          · simp [Point.held, Wait.garbage, QueuedStreamItem.held, QueuedStreamItem.dropping, hpoint]
          · exact ⟨hrows, hwait.2.2⟩

theorem pops_balanced {row : StoredRow N} (h : Balanced sizes s)
    (hpoint : s.producer.point = .popping row) : Balanced sizes (s.pops sizes row) := by
  have hfits := h.fits
  simp only [Producer.Fits, hpoint] at hfits
  obtain ⟨hrows, hcalls⟩ := hfits
  have hfree := h.free_pos hpoint
  unfold StreamState.pops
  rw [if_neg (Nat.ne_of_gt hfree)]
  dsimp only
  split
  · next hsmall =>
      refine ⟨⟨hrows, rfl, hsmall, hcalls⟩, Eq.trans (total_producer ?_) h.total⟩
      ext <;> simp [Producer.held, Point.held, Wait.garbage, PooledRowBatch.dropping, Dropping.held,
        hpoint, hrows]
      omega
  · next hlarge =>
      refine ⟨stage_fits sizes ⟨rfl, rfl, rfl⟩ streamBatchRows_pos (.inl ⟨rfl, rfl, by omega⟩) hcalls,
        Eq.trans (total_producer ?_) h.total⟩
      rw [stage_held]
      ext <;> simp [Producer.held, Point.held, PooledRowBatch.dropping, Dropping.held, hpoint, hrows]
      omega

theorem fails_balanced {wait : Wait N} {looked : Bool} (h : Balanced sizes s)
    (hpoint : s.producer.point = .waiting wait looked) : Balanced sizes (s.fails wait) := by
  have hfits := h.fits
  simp only [Producer.Fits, hpoint] at hfits
  refine ⟨⟨hfits.1, hfits.2.weaken⟩, Eq.trans (total_producer ?_) h.total⟩
  simp [Producer.held, Point.held, hpoint]

theorem leaves_balanced {garbage : List Dropping} (h : Balanced sizes s)
    (hgarbage : s.producer.point.held = weigh Dropping.held garbage) :
    Balanced sizes (s.leaves garbage) := by
  refine ⟨⟨rfl, trivial⟩, Eq.trans (total_producer ?_) h.total⟩
  rw [Producer.held, Producer.held, hgarbage]
  simp only [Point.held, heldRows, Tasks.weigh_append, Option.toList_none, List.map_nil,
    Tasks.weigh_nil]
  abel

theorem produces_balanced (h : Balanced sizes s) (hstep : Produces sizes s s') :
    Balanced sizes s' := by
  have hfits := h.fits
  cases hstep with
  | call hpoint hcalls =>
      refine ⟨call_fits sizes hpoint hfits hcalls, Eq.trans (total_producer ?_) h.total⟩
      exact congrArg (s.resources + ·) (call_held sizes (p := { s.producer with calls := _ }) _ hpoint)
  | look hpoint hrunning =>
      simp only [Producer.Fits, hpoint] at hfits
      refine ⟨hfits, Eq.trans (total_producer ?_) h.total⟩
      simp [Producer.held, Point.held, hpoint]
  | fail hpoint hcause => exact fails_balanced sizes h hpoint
  | take hpoint htakes => exact takes_balanced sizes h hpoint htakes
  | pop hpoint => exact pops_balanced sizes h hpoint
  | dropped hpoint =>
      simp only [Producer.Fits, hpoint] at hfits
      refine ⟨⟨by simp [hfits.1], by simpa [hfits.1] using hfits.2⟩,
        Eq.trans (total_producer ?_) h.total⟩
      simp [Producer.held, Point.held, hpoint]
  | drop hpoint =>
      simp only [Producer.Fits, hpoint] at hfits
      refine ⟨hfits, Eq.trans (total_producer ?_) h.total⟩
      simp only [Producer.held, Point.held, hpoint, Tasks.weigh_append, Tasks.weigh_cons]
      rw [add_left_comm, ← add_assoc (Dropping.step s.resources _).1, step_held]
      abel
  | leaveIdle hpoint => exact leaves_balanced sizes h (by simp [Point.held, hpoint])
  | leaveWait hpoint => exact leaves_balanced sizes h (by simp [Point.held, hpoint])

end Produce

theorem popRow_dropping {batch rest : PooledRowBatch N} {row : StoredRow N}
    (h : batch.popRow = some (row, rest)) : rest.dropping = batch.dropping := by
  simp only [PooledRowBatch.popRow, Option.map_eq_some_iff, Prod.mk.injEq] at h
  obtain ⟨_, -, -, rfl⟩ := h
  rfl

theorem consumes_balanced {sizes : Sizes} {s s' : StreamState N} {signal : ConsumerSignal}
    (h : Balanced sizes s) (hstep : Consumes s signal s') : Balanced sizes s' := by
  cases hstep with
  | row hgone hgarbage hpending hpop hleft =>
      refine ⟨h.fits, Eq.trans (total_consumer ?_ _) h.total⟩
      simp [Consumer.held, hpending, popRow_dropping hpop]
  | lastRow hgone hgarbage hpending hpop hdrained =>
      refine ⟨h.fits, Eq.trans (total_consumer ?_ _) h.total⟩
      simp [Consumer.held, hgarbage, hpending, popRow_dropping hpop]
  | noRow hgone hgarbage hpending hpop =>
      refine ⟨h.fits, Eq.trans (total_consumer ?_ s.yielded) h.total⟩
      simp [Consumer.held, hgarbage, hpending]
  | event hgone hgarbage hpending hitems =>
      refine ⟨h.fits, Eq.trans (total_consumer ?_ _) h.total⟩
      simp only [Consumer.held, QueuedStreamItem.held, QueuedStreamItem.dropping, hitems, hpending,
        hgarbage, Tasks.weigh_cons, Tasks.weigh_nil, heldRows_none]
      abel
  | rows hgone hgarbage hpending hitems =>
      refine ⟨h.fits, Eq.trans (total_consumer ?_ s.yielded) h.total⟩
      simp only [Consumer.held, QueuedStreamItem.held, QueuedStreamItem.dropping, hitems, hpending,
        hgarbage, Tasks.weigh_cons, Tasks.weigh_nil, heldRows_none, heldRows_some]
      abel
  | drop hgarbage =>
      refine ⟨h.fits, Eq.trans (total_consumer ?_ s.yielded) h.total⟩
      simp only [Consumer.held, hgarbage, Tasks.weigh_append, Tasks.weigh_cons]
      rw [add_left_comm (heldRows _) (weigh _ _), add_left_comm (weigh _ s.items), ← add_assoc,
        step_held]
      abel
  | emptyItem hgone hgarbage hitems =>
      refine ⟨h.fits, Eq.trans (total_consumer ?_ s.yielded) h.total⟩
      simp only [Consumer.held, QueuedStreamItem.held, hitems, hgarbage, Tasks.weigh_cons,
        Tasks.weigh_nil]
      abel
  | emptyRows hgone hgarbage hitems hpending =>
      refine ⟨h.fits, Eq.trans (total_consumer ?_ s.yielded) h.total⟩
      simp [Consumer.held, hgarbage, hpending]
  | close hgone => exact ⟨h.fits, h.total⟩
  | dropStream hgone hgarbage => exact ⟨h.fits, h.total⟩

theorem next_balanced {sizes : Sizes} {s s' : StreamState N} {a : Action} (h : Balanced sizes s)
    (hstep : s.next sizes a = some s') : Balanced sizes s' := by
  cases a with
  | producer signal => exact produces_balanced sizes h (produces sizes hstep)
  | consumer signal => exact consumes_balanced h (consumes hstep)
  | stop =>
      obtain rfl := Option.some.inj hstep
      exact ⟨h.fits, h.total⟩

theorem balanced_start (sizes : Sizes) {calls : List (Call N)} (h : Flushed false calls) :
    Balanced sizes { producer := { calls := calls } } where
  fits := ⟨by simp, h⟩
  total := by
    ext <;> simp [StreamState.total, Producer.held, Point.held, Consumer.held]

theorem balanced_of_reachable {sizes : Sizes} {calls : List (Call N)} (h : Flushed false calls)
    {s : StreamState N} (hs : (streaming sizes calls).Reachable s) : Balanced sizes s := by
  apply hs.invariant
  · rintro _ rfl
    exact balanced_start sizes h
  · intro s a s' hkept hstep
    exact next_balanced hkept hstep

/-! ## The consumer alone -/

def Dropping.work : Dropping → Nat
  | .block _ _ => 4
  | .rowPermit _ _ => 3
  | .stagingPermit _ => 2
  | .slot | .event _ => 1

theorem step_work (g : Dropping) (r : Resources) :
    weigh Dropping.work (g.step r).2 < g.work := by
  cases g <;> simp [Dropping.step, Dropping.work]

def PooledRowBatch.work (batch : PooledRowBatch N) : Nat :=
  batch.rows.length - batch.next + 5

def QueuedStreamItem.work : QueuedStreamItem N → Nat
  | .event _ _ => 2
  | .rows batch => batch.work + 1

/-- A bound on the steps after which the consumer holds nothing. -/
def StreamState.work (s : StreamState N) : Nat :=
  weigh QueuedStreamItem.work s.items + weigh PooledRowBatch.work s.consumer.pendingRows.toList +
    weigh Dropping.work s.consumer.garbage

/-- What the consumer does on its own while it uses the stream or has dropped it. -/
def Draining (a : Action) : Prop :=
  ∃ signal, a = .consumer signal ∧ (signal = .poll ∨ signal = .drop)

theorem popRow_work {batch batch' : PooledRowBatch N} {row : StoredRow N}
    (h : batch.popRow = some (row, batch')) : batch'.work < batch.work := by
  simp only [PooledRowBatch.popRow, Option.map_eq_some_iff, Prod.mk.injEq] at h
  obtain ⟨_, hrow, -, rfl⟩ := h
  obtain ⟨hnext, -⟩ := List.getElem?_eq_some_iff.mp hrow
  simp only [PooledRowBatch.work]
  omega

section Alone

variable {s s' : StreamState N}

theorem discards_work {batch : PooledRowBatch N} :
    (s.discards batch).work = weigh QueuedStreamItem.work s.items + 4 := by
  simp [StreamState.work, StreamState.discards, PooledRowBatch.dropping, Dropping.work]

theorem QueuedStreamItem.dropping_work (item : QueuedStreamItem N) :
    item.dropping.work < item.work := by
  cases item <;> simp [QueuedStreamItem.dropping, QueuedStreamItem.work, PooledRowBatch.dropping,
    PooledRowBatch.work, Dropping.work]

/-- Whatever the consumer does on its own, it comes closer to holding nothing. -/
theorem draining_work {sizes : Sizes} {a : Action} (ha : Draining a)
    (hstep : s.next sizes a = some s') : s'.producer = s.producer ∧ s'.work < s.work := by
  obtain ⟨signal, rfl, hsignal⟩ := ha
  cases consumes hstep with
  | row hgone hgarbage hpending hpop hleft =>
      have hless := popRow_work hpop
      exact ⟨rfl, by simpa [StreamState.work, hpending] using hless⟩
  | lastRow hgone hgarbage hpending hpop hdrained =>
      refine ⟨rfl, ?_⟩
      rw [discards_work]
      simp [StreamState.work, PooledRowBatch.work, hpending]
      omega
  | noRow hgone hgarbage hpending hpop =>
      refine ⟨rfl, ?_⟩
      rw [discards_work]
      simp [StreamState.work, PooledRowBatch.work, hpending]
      omega
  | event hgone hgarbage hpending hitems =>
      refine ⟨rfl, ?_⟩
      simp [StreamState.work, QueuedStreamItem.work, Dropping.work, hpending, hgarbage, hitems,
        Nat.add_comm]
  | rows hgone hgarbage hpending hitems =>
      refine ⟨rfl, ?_⟩
      simp [StreamState.work, QueuedStreamItem.work, hpending, hgarbage, hitems]
      omega
  | @drop g garbage hgarbage =>
      have hless := step_work g s.resources
      exact ⟨rfl, by simpa [StreamState.work, hgarbage] using hless⟩
  | @emptyItem item items hgone hgarbage hitems =>
      have hless := item.dropping_work
      refine ⟨rfl, ?_⟩
      simp only [StreamState.work, hgarbage, hitems, Tasks.weigh_cons, Tasks.weigh_nil]
      omega
  | emptyRows hgone hgarbage hitems hpending =>
      refine ⟨rfl, ?_⟩
      rw [discards_work]
      simp [StreamState.work, PooledRowBatch.work, hpending, hitems]
      omega
  | close hgone => simp at hsignal
  | dropStream hgone hgarbage => simp at hsignal

/-- While it holds anything it can go on, whatever the producer does. -/
theorem draining_goes_on (sizes : Sizes) (hwork : s.work ≠ 0) :
    ∃ a s', Draining a ∧ s.next sizes a = some s' := by
  have hholds : s.consumer.garbage = [] → s.consumer.pendingRows = none → s.items ≠ [] := by
    intro hgarbage hpending hitems
    exact hwork (by simp [StreamState.work, hgarbage, hpending, hitems])
  have hsome : ∃ a, Draining a ∧ (s.next sizes a).isSome := by
    cases hgarbage : s.consumer.garbage with
    | cons g garbage =>
        exact ⟨_, ⟨.drop, rfl, .inr rfl⟩, by simp [StreamState.next, StreamState.consume, hgarbage]⟩
    | nil =>
        by_cases hgone : s.consumer.gone = true
        · refine ⟨_, ⟨.drop, rfl, .inr rfl⟩, ?_⟩
          simp only [StreamState.next, StreamState.consume, hgarbage, hgone, StreamState.empties]
          cases hitems : s.items with
          | nil =>
              cases hpending : s.consumer.pendingRows with
              | none => exact absurd hitems (hholds hgarbage hpending)
              | some batch => simp
          | cons item items => cases item <;> simp
        · refine ⟨_, ⟨.poll, rfl, .inl rfl⟩, ?_⟩
          simp only [StreamState.next, StreamState.consume, hgarbage, hgone, StreamState.polls]
          cases hpending : s.consumer.pendingRows with
          | none =>
              cases hitems : s.items with
              | nil => exact absurd hitems (hholds hgarbage hpending)
              | cons item items => cases item <;> simp
          | some batch =>
              cases hpop : batch.popRow with
              | none => simp [hpop]
              | some popped =>
                  by_cases hdrained : popped.2.drained = true
                  · simp [hpop, hdrained]
                  · simp [hpop, hdrained]
  obtain ⟨a, ha, hstep⟩ := hsome
  obtain ⟨s', hs'⟩ := Option.isSome_iff_exists.mp hstep
  exact ⟨a, s', ha, hs'⟩

/-- Left alone, the consumer comes to hold nothing, and the producer stays where it is. -/
theorem consumer_drains (sizes : Sizes) (calls : List (Call N)) (s : StreamState N) :
    ∃ as t, (∀ a ∈ as, Draining a) ∧ (streaming sizes calls).Run s as t ∧
      t.producer = s.producer ∧ t.work = 0 := by
  induction hn : s.work using Nat.strongRecOn generalizing s with
  | ind n ih =>
      by_cases hwork : s.work = 0
      · exact ⟨[], s, by simp, .nil s, rfl, hwork⟩
      · obtain ⟨a, s', ha, hstep⟩ := draining_goes_on sizes hwork
        obtain ⟨hproducer, hless⟩ := draining_work ha hstep
        obtain ⟨as, t, has, hrun, hkept, hdone⟩ := ih s'.work (hn ▸ hless) s' rfl
        refine ⟨a :: as, t, ?_, .cons hstep hrun, hkept.trans hproducer, hdone⟩
        simpa [ha] using has

theorem empty_of_work (hwork : s.work = 0) :
    s.items = [] ∧ s.consumer.pendingRows = none ∧ s.consumer.garbage = [] := by
  refine ⟨?_, ?_, ?_⟩
  · cases hitems : s.items with
    | nil => rfl
    | cons item items =>
        cases item <;> simp [StreamState.work, QueuedStreamItem.work, hitems] at hwork
  · cases hpending : s.consumer.pendingRows with
    | none => rfl
    | some batch => simp [StreamState.work, PooledRowBatch.work, hpending] at hwork
  · cases hgarbage : s.consumer.garbage with
    | nil => rfl
    | cons g garbage => cases g <;> simp [StreamState.work, Dropping.work, hgarbage] at hwork

end Alone

/-! ## The producer never waits for itself -/

/-- The byte permits that the producer waits for. -/
def Producer.awaitsBudget (sizes : Sizes) (p : Producer N) : Option Nat :=
  match p.point with
  | .waiting (.eventBudget event) _ => some (clampBytes (eventBytes sizes event))
  | .waiting (.staging _ _) _ => some streamBatchBytes
  | .waiting (.rowBudget batch _) _ => some (clampBytes batch.bytes)
  | _ => none

def Producer.awaitsSlot (p : Producer N) : Bool :=
  match p.point with
  | .waiting (.slot _) _ => true
  | _ => false

theorem Producer.Fits.budget {sizes : Sizes} {p : Producer N} (h : p.Fits sizes) {b : Nat}
    (hawaits : p.awaitsBudget sizes = some b) : b + p.held.budget ≤ streamBytes := by
  unfold Producer.awaitsBudget at hawaits
  split at hawaits
  · next event looked hpoint =>
      obtain rfl := Option.some.inj hawaits
      simp only [Producer.Fits, hpoint] at h
      simpa [Producer.held, Point.held, Wait.garbage, hpoint, h.1] using clampBytes_le _
  · next row batch looked hpoint =>
      obtain rfl := Option.some.inj hawaits
      simp only [Producer.Fits, hpoint] at h
      obtain ⟨hrows, rfl, -, -⟩ := h
      simp [Producer.held, Point.held, Wait.garbage, PooledRowBatch.dropping, Dropping.held, hpoint,
        hrows]
      decide
  · next batch row looked hpoint =>
      obtain rfl := Option.some.inj hawaits
      simp only [Producer.Fits, hpoint] at h
      obtain ⟨hrows, hflushable, -⟩ := h
      have hheld : p.held.budget = batch.stagingPermit.getD 0 := by
        simp [Producer.held, Point.held, Wait.garbage, PooledRowBatch.dropping, Dropping.held,
          hpoint, hrows, hflushable.rowPermit]
      rw [hheld]
      rcases hflushable.stagingPermit with ⟨hstaging, -⟩ | ⟨hstaging, hbytes⟩
      · simpa [hstaging] using clampBytes_le batch.bytes
      · have hsmall := clampBytes_le_batch hbytes
        have htwice : streamBatchBytes + streamBatchBytes ≤ streamBytes := by decide
        rw [hstaging, Option.getD_some]
        omega
  · cases hawaits

theorem Producer.Fits.slots {sizes : Sizes} {p : Producer N} (h : p.Fits sizes)
    (hawaits : p.awaitsSlot = true) : p.held.slots = 0 := by
  unfold Producer.awaitsSlot at hawaits
  split at hawaits
  · next row looked hpoint =>
      simp only [Producer.Fits, hpoint] at h
      simp [Producer.held, Point.held, Wait.garbage, hpoint, h.1]
  · cases hawaits

/-- What nobody else holds is there for the producer. -/
theorem Balanced.total_of_drained {sizes : Sizes} {s : StreamState N} (h : Balanced sizes s)
    (hwork : s.work = 0) :
    s.resources + s.producer.held = ⟨streamBytes, streamBatchPoolSize, streamBatchPoolSize⟩ := by
  obtain ⟨hitems, hpending, hgarbage⟩ := empty_of_work hwork
  have hnone : weigh QueuedStreamItem.held s.items + s.consumer.held = 0 := by
    simp [Consumer.held, hitems, hpending, hgarbage]
  rw [← h.total, StreamState.total, hnone, add_zero]

/--
The producer of an event stream never waits for what it holds itself: a request
for bytes fits into the budget beside its own permits, it waits for a slot with
none in hand, and a free block goes with every slot. The consumer alone always
brings what the producer waits for.
-/
theorem producer_never_blocks_itself (ops : NumberOps N) (files : Response.ExternalFiles)
    (policy : RowPolicy) (fuel : Nat) (transaction : Bool) (session : Response.Inner.Session)
    (sizes : Sizes) {s : StreamState N}
    (hs : (streaming sizes (drainResponseInner ops files .events policy fuel transaction
      session).calls).Reachable s) :
    (∀ b, s.producer.awaitsBudget sizes = some b → b + s.producer.held.budget ≤ streamBytes) ∧
    (s.producer.awaitsSlot = true → s.producer.held.slots = 0) ∧
    s.resources.slots ≤ s.resources.free ∧ s.producer.point ≠ .panicked ∧
    ∃ as t, (∀ a ∈ as, Draining a) ∧
      (streaming sizes (drainResponseInner ops files .events policy fuel transaction
        session).calls).Run s as t ∧
      t.producer = s.producer ∧
      (∀ b, s.producer.awaitsBudget sizes = some b → b ≤ t.resources.budget) ∧
      (s.producer.awaitsSlot = true → 0 < t.resources.slots) := by
  have hflushed := drainResponseInner_flushed ops files policy fuel transaction session
  have hbalanced := balanced_of_reachable hflushed hs
  refine ⟨fun b => hbalanced.fits.budget, hbalanced.fits.slots, ?_, ?_, ?_⟩
  · have hkept := hbalanced.slots_add_le
    have hheld := s.producer.held_free_le
    omega
  · intro hpanicked
    have hfits := hbalanced.fits
    simp [Producer.Fits, hpanicked] at hfits
  · obtain ⟨as, t, has, hrun, hproducer, hwork⟩ := consumer_drains sizes _ s
    have hdrained := (balanced_of_reachable hflushed (hrun.reachable hs)).total_of_drained hwork
    have hbudget := congrArg Resources.budget hdrained
    have hslots := congrArg Resources.slots hdrained
    simp only [Resources.add_budget, Resources.add_slots, hproducer] at hbudget hslots
    refine ⟨as, t, has, hrun, hproducer, ?_, ?_⟩
    · intro b hb
      have hfits := hbalanced.fits.budget hb
      omega
    · intro hawaits
      rw [hbalanced.fits.slots hawaits] at hslots
      rw [← Nat.add_zero t.resources.slots, hslots]
      decide

/-- Sizes that a 64-bit target may choose. -/
def sampleSizes : Sizes :=
  ⟨48, 160, 32, 48⟩

/-- The start of the set is sent, two rows are staged, and the batch is about to be flushed. -/
def stageTwoRows : List Action :=
  [.producer .call, .producer .look, .producer .take, .producer .take, .producer .call,
    .producer .look, .producer .take, .producer .pop, .producer .look, .producer .take,
    .producer .call, .producer .call]

theorem staged_rows_flushed : ∃ s,
    (streaming sampleSizes (drainResponseInner RawRow.bitOps Response.noFiles .events .allRows 20
      false rowsSession).calls).Reachable s ∧
    s.producer.awaitsBudget sampleSizes = some 428 ∧ s.producer.held.budget = streamBatchBytes ∧
    428 + s.producer.held.budget ≤ streamBytes := by
  have hrun : (System.follow (StreamState.next sampleSizes) { producer := { calls :=
      (drainResponseInner RawRow.bitOps Response.noFiles .events .allRows 20 false
        rowsSession).calls } } stageTwoRows).map
      (fun s => (s.producer.awaitsBudget sampleSizes, s.producer.held.budget)) =
        some (some 428, streamBatchBytes) := by
    decide +kernel
  obtain ⟨s, hfollow, hs⟩ := Option.map_eq_some_iff.mp hrun
  obtain ⟨hawaits, hheld⟩ := Prod.mk.inj hs
  have hreach := (System.Run.of_follow (M := streaming sampleSizes _) (fun _ _ _ h => h)
    hfollow).reachable (.start rfl)
  exact ⟨s, hreach, hawaits, hheld, (producer_never_blocks_itself RawRow.bitOps Response.noFiles
    .allRows 20 false rowsSession sampleSizes hreach).1 428 hawaits⟩

end NzRust.Events
