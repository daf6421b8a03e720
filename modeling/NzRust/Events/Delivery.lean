import NzRust.Events.Order
import NzRust.Events.Permits

/-!
# What an event stream delivers

Rows travel in batches and other events on their own over one channel. What has
been yielded, what is on its way and what the producer has not sent yet make up
the events of the response, until a call fails; from then on nothing more comes
behind what is on its way.
-/

namespace NzRust.Events

open Response (ExternalFiles)
open Response.Inner Transition

variable {N : Numerics}

/-! ## Events on their way -/

def batchEvents (batch : PooledRowBatch N) : List (QueryStreamEvent N) :=
  (batch.rows.drop batch.next).map .row

def heldEvents (batch : Option (PooledRowBatch N)) : List (QueryStreamEvent N) :=
  batch.toList.flatMap batchEvents

def QueuedStreamItem.events : QueuedStreamItem N → List (QueryStreamEvent N)
  | .event value _ => [value]
  | .rows batch => batchEvents batch

/-- What the stream still gets, if it is not dropped. -/
def StreamState.onWay (s : StreamState N) : List (QueryStreamEvent N) :=
  if s.consumer.gone then []
  else heldEvents s.consumer.pendingRows ++ s.items.flatMap QueuedStreamItem.events

def Wait.events : Wait N → List (QueryStreamEvent N)
  | .eventBudget event | .eventChannel event _ => [event]
  | .slot row => [.row row]
  | .staging row batch => batchEvents batch ++ [.row row]
  | .rowBudget batch row | .rowChannel batch row => batchEvents batch ++ row.toList.map .row

def Point.events : Point N → List (QueryStreamEvent N)
  | .waiting wait _ => wait.events
  | .popping row => [.row row]
  | .idle | .dropping _ | .panicked => []

/-- What the producer sends as long as no call fails. -/
def Producer.unsent (p : Producer N) : List (QueryStreamEvent N) :=
  heldEvents p.eventRows ++ (p.point.events ++ callEvents p.calls)

/-- Every event of the response, as long as no call fails. -/
def StreamState.stream (s : StreamState N) : List (QueryStreamEvent N) :=
  (s.yielded ++ s.onWay) ++ s.producer.unsent

@[simp] theorem heldEvents_none : heldEvents (none : Option (PooledRowBatch N)) = [] := rfl

@[simp] theorem heldEvents_some (batch : PooledRowBatch N) :
    heldEvents (some batch) = batchEvents batch := by
  simp [heldEvents]

theorem batchEvents_push {batch : PooledRowBatch N} (h : batch.next = 0) (row : StoredRow N)
    (bytes : Nat) : batchEvents (batch.push row bytes) = batchEvents batch ++ [.row row] := by
  simp [batchEvents, PooledRowBatch.push, h]

/-! ## The calls of the drain -/

section Calls

variable (sizes : Sizes) {p : Producer N}

theorem flushRows_unsent {row : Option (StoredRow N)} (h : p.eventRows = none → row = none) :
    (p.flushRows row).unsent =
      heldEvents p.eventRows ++ (row.toList.map .row ++ callEvents p.calls) := by
  cases hrows : p.eventRows with
  | none => simp [Producer.flushRows, Producer.unsent, Point.events, hrows, h hrows]
  | some batch => simp [Producer.flushRows, Producer.unsent, Point.events, Wait.events, hrows]

theorem stage_unsent {batch : PooledRowBatch N} (h : batch.next = 0) (row : StoredRow N) :
    (p.stage sizes batch row).unsent = batchEvents batch ++ (.row row :: callEvents p.calls) := by
  unfold Producer.stage
  dsimp only
  split
  · rw [flushRows_unsent (by simp)]
    simp [batchEvents_push h]
  · simp [Producer.unsent, Point.events, batchEvents_push h]

theorem pushRow_unsent (row : StoredRow N)
    (h : ∀ batch, p.eventRows = some batch → Staged sizes batch) :
    (p.pushRow sizes row).unsent =
      heldEvents p.eventRows ++ (.row row :: callEvents p.calls) := by
  unfold Producer.pushRow
  cases hrows : p.eventRows with
  | none => simp [Producer.unsent, Point.events, Wait.events]
  | some batch =>
      dsimp only
      split
      · rw [flushRows_unsent (by simp [hrows]), hrows]
        rfl
      · rw [stage_unsent sizes (h batch hrows).next, heldEvents_some]

/-- A call is the first of what the producer has not sent, until it is done. -/
theorem call_unsent {call : Call N} {calls : List (Call N)} (hidle : p.point = .idle)
    (h : p.Fits sizes) (hcalls : p.calls = call :: calls) :
    (({ p with calls := calls }).call sizes call).unsent = p.unsent := by
  simp only [Producer.Fits, hidle] at h
  cases call with
  | send event => simp [Producer.call, Producer.unsent, Point.events, Wait.events, hidle, hcalls]
  | pushRow row =>
      refine (pushRow_unsent sizes (p := { p with calls := calls }) row h.1).trans ?_
      simp [Producer.unsent, Point.events, hidle, hcalls]
  | flushRows =>
      refine (flushRows_unsent (p := { p with calls := calls }) (by simp)).trans ?_
      simp [Producer.unsent, Point.events, hidle, hcalls]
  | pushBatch row => simp [Producer.call, Producer.unsent, hcalls]
  | flushBatch => simp [Producer.call, Producer.unsent, hcalls]
  | record message => simp [Producer.call, Producer.unsent, hcalls]

end Calls

/-! ## After a call has failed -/

/-- Nothing is staged, and no call can succeed any more. -/
def Producer.Over (stopped : Bool) (p : Producer N) : Prop :=
  p.eventRows = none ∧
    match p.point with
    | .idle | .dropping _ => p.calls = [] ∨ stopped = true
    | .waiting (.eventBudget _) false | .waiting (.slot _) false => stopped = true
    | _ => False

/-- Nothing enters the channel any more. -/
def StreamState.Shut (s : StreamState N) : Prop :=
  s.closed = true ∨ s.producer.Over s.stopped

section Produce

variable (sizes : Sizes) {s s' : StreamState N}

/-- A step of the producer sends what comes next, or fails for good. -/
def Flows (s s' : StreamState N) : Prop :=
  s'.yielded = s.yielded ∧ s'.consumer = s.consumer ∧ s'.closed = s.closed ∧
    s'.stopped = s.stopped ∧ (s'.stream = s.stream ∨ s'.Shut ∧ s'.items = s.items)

theorem queues_flows {item : QueuedStreamItem N} {point : Point N}
    (hgone : s.consumer.gone = true → s.closed = true) (hrows : s.producer.eventRows = none)
    (hsent : s.producer.point.events = item.events ++ point.events)
    (hstep : s.queues item point = some s') : Flows s s' := by
  unfold StreamState.queues at hstep
  split at hstep
  · next hopen =>
      obtain rfl := Option.some.inj hstep
      have hhere : ¬ s.consumer.gone = true := by
        intro hg
        simp [hgone hg] at hopen
      refine ⟨rfl, rfl, rfl, rfl, .inl ?_⟩
      simp [StreamState.stream, StreamState.onWay, Producer.unsent, hhere, hrows, hsent]
  · cases hstep

theorem takes_flows {wait : Wait N} {looked : Bool} (h : Balanced sizes s)
    (hgone : s.consumer.gone = true → s.closed = true)
    (hpoint : s.producer.point = .waiting wait looked) (hstep : s.takes sizes wait = some s') :
    Flows s s' := by
  have hfits := h.fits
  simp only [Producer.Fits, hpoint] at hfits
  obtain ⟨hrows, hwait⟩ := hfits
  cases wait with
  | eventBudget event =>
      simp only [StreamState.takes] at hstep
      split at hstep
      · obtain rfl := Option.some.inj hstep
        refine ⟨rfl, rfl, rfl, rfl, .inl ?_⟩
        simp [StreamState.stream, StreamState.onWay, Producer.unsent, Point.events, Wait.events,
          hpoint]
      · cases hstep
  | eventChannel event permit =>
      apply queues_flows hgone hrows _ hstep
      simp [Point.events, Wait.events, QueuedStreamItem.events, hpoint]
  | slot row =>
      simp only [StreamState.takes] at hstep
      split at hstep
      · obtain rfl := Option.some.inj hstep
        refine ⟨rfl, rfl, rfl, rfl, .inl ?_⟩
        simp [StreamState.stream, StreamState.onWay, Producer.unsent, Point.events, Wait.events,
          hpoint]
      · cases hstep
  | staging row batch =>
      obtain ⟨rfl, -, -⟩ := hwait
      simp only [StreamState.takes] at hstep
      split at hstep
      · obtain rfl := Option.some.inj hstep
        refine ⟨rfl, rfl, rfl, rfl, .inl ?_⟩
        simp only [StreamState.stream, StreamState.onWay]
        rw [stage_unsent sizes rfl]
        simp [Producer.unsent, Point.events, Wait.events, batchEvents, hpoint, hrows]
      · cases hstep
  | rowBudget batch row =>
      simp only [StreamState.takes] at hstep
      split at hstep
      · obtain rfl := Option.some.inj hstep
        refine ⟨rfl, rfl, rfl, rfl, .inl ?_⟩
        simp [StreamState.stream, StreamState.onWay, Producer.unsent, Point.events, Wait.events,
          batchEvents, hpoint]
      · cases hstep
  | rowChannel batch row =>
      cases row with
      | none =>
          apply queues_flows hgone hrows _ hstep
          simp [Point.events, Wait.events, QueuedStreamItem.events, hpoint]
      | some row =>
          apply queues_flows hgone hrows _ hstep
          simp [Point.events, Wait.events, QueuedStreamItem.events, hpoint]

theorem pops_flows {row : StoredRow N} (h : Balanced sizes s)
    (hpoint : s.producer.point = .popping row) : Flows s (s.pops sizes row) := by
  have hfits := h.fits
  simp only [Producer.Fits, hpoint] at hfits
  unfold StreamState.pops
  rw [if_neg (Nat.ne_of_gt (h.free_pos hpoint))]
  dsimp only
  split
  · refine ⟨rfl, rfl, rfl, rfl, .inl ?_⟩
    simp [StreamState.stream, StreamState.onWay, Producer.unsent, Point.events, Wait.events,
      batchEvents, hpoint]
  · refine ⟨rfl, rfl, rfl, rfl, .inl ?_⟩
    simp only [StreamState.stream, StreamState.onWay]
    rw [stage_unsent sizes rfl]
    simp [Producer.unsent, Point.events, batchEvents, hpoint, hfits.1]

/-- A call fails when the stream is stopped or closed, and with nothing staged. -/
theorem fails_flows {wait : Wait N} {looked : Bool} (h : Balanced sizes s)
    (hpoint : s.producer.point = .waiting wait looked)
    (hcause : s.stopped = true ∨ s.closed = true) : Flows s (s.fails wait) := by
  have hfits := h.fits
  simp only [Producer.Fits, hpoint] at hfits
  refine ⟨rfl, rfl, rfl, rfl, .inr ⟨?_, rfl⟩⟩
  rcases hcause with hstopped | hclosed
  · exact .inr ⟨hfits.1, .inr hstopped⟩
  · exact .inl hclosed

theorem leaves_flows (s : StreamState N) (garbage : List Dropping) :
    Flows s (s.leaves garbage) :=
  ⟨rfl, rfl, rfl, rfl, .inr ⟨.inr ⟨rfl, .inl rfl⟩, rfl⟩⟩

theorem produces_flows (h : Balanced sizes s)
    (hgone : s.consumer.gone = true → s.closed = true) (hstep : Produces sizes s s') :
    Flows s s' := by
  cases hstep with
  | call hpoint hcalls =>
      refine ⟨rfl, rfl, rfl, rfl, .inl ?_⟩
      simp only [StreamState.stream, StreamState.onWay]
      rw [call_unsent sizes hpoint h.fits hcalls]
  | look hpoint hrunning =>
      refine ⟨rfl, rfl, rfl, rfl, .inl ?_⟩
      simp [StreamState.stream, StreamState.onWay, Producer.unsent, Point.events, hpoint]
  | fail hpoint hcause => exact fails_flows sizes h hpoint hcause
  | take hpoint htakes => exact takes_flows sizes h hgone hpoint htakes
  | pop hpoint => exact pops_flows sizes h hpoint
  | dropped hpoint =>
      refine ⟨rfl, rfl, rfl, rfl, .inl ?_⟩
      simp [StreamState.stream, StreamState.onWay, Producer.unsent, Point.events, hpoint]
  | drop hpoint =>
      refine ⟨rfl, rfl, rfl, rfl, .inl ?_⟩
      simp [StreamState.stream, StreamState.onWay, Producer.unsent, Point.events, hpoint]
  | leaveIdle hpoint => exact leaves_flows s _
  | leaveWait hpoint => exact leaves_flows s _

theorem takes_items {wait : Wait N} (hclosed : s.closed = true)
    (hstep : s.takes sizes wait = some s') : s'.items = s.items ∧ s'.closed = s.closed := by
  cases wait with
  | eventChannel event permit => simp [StreamState.takes, StreamState.queues, hclosed] at hstep
  | rowChannel batch row => simp [StreamState.takes, StreamState.queues, hclosed] at hstep
  | eventBudget | slot | staging | rowBudget =>
      simp only [StreamState.takes, Option.ite_none_right_eq_some] at hstep
      obtain ⟨-, hstep⟩ := hstep
      obtain rfl := Option.some.inj hstep
      exact ⟨rfl, rfl⟩

theorem pops_consumer (s : StreamState N) (row : StoredRow N) :
    (s.pops sizes row).consumer = s.consumer := by
  unfold StreamState.pops
  split
  · rfl
  · dsimp only
    split
    · rfl
    · rfl

theorem pops_items (s : StreamState N) (row : StoredRow N) :
    (s.pops sizes row).items = s.items ∧ (s.pops sizes row).closed = s.closed := by
  unfold StreamState.pops
  split
  · exact ⟨rfl, rfl⟩
  · dsimp only
    split
    · exact ⟨rfl, rfl⟩
    · exact ⟨rfl, rfl⟩

theorem Producer.Over.looks {stopped : Bool} {p : Producer N} (h : p.Over stopped) {wait : Wait N}
    (hpoint : p.point = .waiting wait false) : stopped = true := by
  have hover := h.2
  rw [hpoint] at hover
  cases wait <;> first | exact hover | exact hover.elim

theorem Producer.Over.not_looked {stopped : Bool} {p : Producer N} (h : p.Over stopped)
    {wait : Wait N} : p.point ≠ .waiting wait true := by
  intro hpoint
  have hover := h.2
  rw [hpoint] at hover
  cases wait <;> exact hover

theorem Producer.Over.not_popping {stopped : Bool} {p : Producer N} (h : p.Over stopped)
    {row : StoredRow N} : p.point ≠ .popping row := by
  intro hpoint
  have hover := h.2
  rw [hpoint] at hover
  exact hover

theorem over_call {stopped : Bool} {p : Producer N} (h : p.Over stopped) {call : Call N}
    {calls : List (Call N)} (hidle : p.point = .idle) (hcalls : p.calls = call :: calls) :
    (({ p with calls := calls }).call sizes call).Over stopped := by
  obtain ⟨hrows, hpoint⟩ := h
  have hstopped : stopped = true := by simpa [hidle, hcalls] using hpoint
  cases call with
  | send event => exact ⟨hrows, hstopped⟩
  | pushRow row => simpa [Producer.call, Producer.pushRow, Producer.Over, hrows] using hstopped
  | flushRows => simp [Producer.call, Producer.flushRows, Producer.Over, hrows, hstopped]
  | pushBatch row => simp [Producer.call, Producer.Over, hrows, hidle, hstopped]
  | flushBatch => simp [Producer.call, Producer.Over, hrows, hidle, hstopped]
  | record message => simp [Producer.call, Producer.Over, hrows, hidle, hstopped]

/-- Once nothing enters the channel, nothing ever does. -/
theorem shut_produces (h : s.Shut) (hstep : Produces sizes s s') :
    s'.Shut ∧ s'.items = s.items := by
  cases hstep with
  | call hpoint hcalls => exact ⟨h.imp_right fun hover => over_call sizes hover hpoint hcalls, rfl⟩
  | look hpoint hrunning =>
      refine ⟨h.imp_right fun hover => ?_, rfl⟩
      simp [hover.looks hpoint] at hrunning
  | fail hpoint hcause =>
      refine ⟨?_, rfl⟩
      rcases h with hclosed | hover
      · exact .inl hclosed
      · exact hcause.symm.imp_right fun hstopped => ⟨hover.1, .inr hstopped⟩
  | take hpoint htakes =>
      have hclosed : s.closed = true := h.resolve_right fun hover => hover.not_looked hpoint
      obtain ⟨hitems, hkept⟩ := takes_items sizes hclosed htakes
      exact ⟨.inl (hkept.trans hclosed), hitems⟩
  | pop hpoint =>
      have hclosed : s.closed = true := h.resolve_right fun hover => hover.not_popping hpoint
      obtain ⟨hitems, hkept⟩ := pops_items sizes s _
      exact ⟨.inl (hkept.trans hclosed), hitems⟩
  | dropped hpoint =>
      refine ⟨h.imp_right fun hover => ⟨hover.1, ?_⟩, rfl⟩
      simpa [Producer.Over, hpoint] using hover.2
  | drop hpoint =>
      refine ⟨h.imp_right fun hover => ⟨hover.1, ?_⟩, rfl⟩
      simpa [Producer.Over, hpoint] using hover.2
  | leaveIdle hpoint => exact ⟨.inr ⟨rfl, .inl rfl⟩, rfl⟩
  | leaveWait hpoint => exact ⟨.inr ⟨rfl, .inl rfl⟩, rfl⟩

end Produce

/-! ## The consumer -/

section Consume

variable {s s' : StreamState N}

/-- A step of the consumer leaves the producer alone, and hands on what is on its way. -/
structure Receives (s s' : StreamState N) : Prop where
  producer : s'.producer = s.producer
  stopped : s'.stopped = s.stopped
  closed : s.closed = true → s'.closed = true
  gone : s'.consumer.gone = true → s.consumer.gone = true ∨ s'.closed = true
  order : s'.yielded ++ s'.onWay <+: s.yielded ++ s.onWay
  kept : s'.closed = false → s'.yielded ++ s'.onWay = s.yielded ++ s.onWay

theorem Receives.hands (hproducer : s'.producer = s.producer) (hstopped : s'.stopped = s.stopped)
    (hclosed : s'.closed = s.closed) (hgone : s'.consumer.gone = s.consumer.gone)
    (h : s'.yielded ++ s'.onWay = s.yielded ++ s.onWay) : Receives s s' where
  producer := hproducer
  stopped := hstopped
  closed hc := hclosed.trans hc
  gone hg := .inl (hgone ▸ hg)
  order := h ▸ List.prefix_rfl
  kept _ := h

theorem batchEvents_popRow {batch batch' : PooledRowBatch N} {row : StoredRow N}
    (h : batch.popRow = some (row, batch')) :
    batchEvents batch = .row row :: batchEvents batch' := by
  simp only [PooledRowBatch.popRow, Option.map_eq_some_iff, Prod.mk.injEq] at h
  obtain ⟨_, hrow, rfl, rfl⟩ := h
  obtain ⟨hnext, rfl⟩ := List.getElem?_eq_some_iff.mp hrow
  simp only [batchEvents]
  rw [List.drop_eq_getElem_cons hnext, List.map_cons]

theorem batchEvents_drained {batch : PooledRowBatch N} (h : batch.drained = true) :
    batchEvents batch = [] := by
  have hnext : batch.rows.length ≤ batch.next := by simpa [PooledRowBatch.drained] using h
  simp [batchEvents, List.drop_eq_nil_of_le hnext]

theorem batchEvents_empty {batch : PooledRowBatch N} (h : batch.popRow = none) :
    batchEvents batch = [] := by
  have hnext : batch.rows.length ≤ batch.next := by simpa [PooledRowBatch.popRow] using h
  simp [batchEvents, List.drop_eq_nil_of_le hnext]

theorem consumes_receives {signal : ConsumerSignal} (hstep : Consumes s signal s') :
    Receives s s' := by
  cases hstep with
  | row hgone hgarbage hpending hpop hleft =>
      refine .hands rfl rfl rfl rfl ?_
      simp [StreamState.onWay, hgone, hpending, batchEvents_popRow hpop]
  | lastRow hgone hgarbage hpending hpop hdrained =>
      refine .hands rfl rfl rfl rfl ?_
      simp [StreamState.onWay, StreamState.discards, hgone, hpending, batchEvents_popRow hpop,
        batchEvents_drained hdrained]
  | noRow hgone hgarbage hpending hpop =>
      refine .hands rfl rfl rfl rfl ?_
      simp [StreamState.onWay, StreamState.discards, hgone, hpending, batchEvents_empty hpop]
  | event hgone hgarbage hpending hitems =>
      refine .hands rfl rfl rfl rfl ?_
      simp [StreamState.onWay, QueuedStreamItem.events, hgone, hpending, hitems]
  | rows hgone hgarbage hpending hitems =>
      refine .hands rfl rfl rfl rfl ?_
      simp [StreamState.onWay, QueuedStreamItem.events, hgone, hpending, hitems]
  | drop hgarbage => exact .hands rfl rfl rfl rfl rfl
  | emptyItem hgone hgarbage hitems =>
      exact .hands rfl rfl rfl rfl (by simp [StreamState.onWay, hgone])
  | emptyRows hgone hgarbage hitems hpending =>
      exact .hands rfl rfl rfl rfl (by simp [StreamState.onWay, StreamState.discards, hgone])
  | close hgone =>
      exact ⟨rfl, rfl, fun _ => rfl, fun _ => .inr rfl, List.prefix_rfl, fun _ => rfl⟩
  | dropStream hgone hgarbage =>
      refine ⟨rfl, rfl, fun _ => rfl, fun _ => .inr rfl, ?_, fun hclosed => ?_⟩
      · simp [StreamState.onWay]
      · cases hclosed

end Consume

/-! ## The events of a run -/

/-- What has been yielded and is on its way begins the events of the response, and what the
producer has not sent completes them unless nothing enters the channel any more. -/
structure Delivers (calls : List (Call N)) (s : StreamState N) : Prop where
  gone : s.consumer.gone = true → s.closed = true
  order : s.yielded ++ s.onWay <+: callEvents calls
  rest : s.stream = callEvents calls ∨ s.Shut

section Run

variable {sizes : Sizes} {calls : List (Call N)} {s s' : StreamState N}

theorem Flows.onWay_eq (h : Flows s s') (hitems : s'.items = s.items) :
    s'.yielded ++ s'.onWay = s.yielded ++ s.onWay := by
  obtain ⟨hyielded, hconsumer, -, -, -⟩ := h
  simp [StreamState.onWay, hyielded, hconsumer, hitems]

theorem Delivers.produces (h : Delivers calls s) (hbalanced : Balanced sizes s)
    (hstep : Produces sizes s s') : Delivers calls s' := by
  have hflows := produces_flows sizes hbalanced h.gone hstep
  have hgone : s'.consumer.gone = true → s'.closed = true := by
    rw [hflows.2.1, hflows.2.2.1]
    exact h.gone
  rcases h.rest with hstream | hshut
  · rcases hflows.2.2.2.2 with hsame | ⟨hshut, hitems⟩
    · have hnow := hsame.trans hstream
      exact ⟨hgone, hnow ▸ List.prefix_append _ _, .inl hnow⟩
    · exact ⟨hgone, hflows.onWay_eq hitems ▸ h.order, .inr hshut⟩
  · obtain ⟨hshut', hitems⟩ := shut_produces sizes hshut hstep
    exact ⟨hgone, hflows.onWay_eq hitems ▸ h.order, .inr hshut'⟩

theorem Delivers.receives (h : Delivers calls s) (hstep : Receives s s') : Delivers calls s' where
  gone hgone := (hstep.gone hgone).elim (fun hg => hstep.closed (h.gone hg)) id
  order := hstep.order.trans h.order
  rest := by
    cases hclosed : s'.closed with
    | true => exact .inr (.inl hclosed)
    | false =>
        have hopen : ¬ s.closed = true := by
          intro hc
          simp [hstep.closed hc] at hclosed
        rcases h.rest with hstream | hshut
        · left
          rw [← hstream, StreamState.stream, StreamState.stream, hstep.kept hclosed, hstep.producer]
        · have hover := hshut.resolve_left hopen
          exact .inr (.inr (by rw [hstep.producer, hstep.stopped]; exact hover))

theorem Producer.Over.stop {stopped : Bool} {p : Producer N} (h : p.Over stopped) :
    p.Over true := by
  obtain ⟨hrows, hpoint⟩ := h
  refine ⟨hrows, ?_⟩
  split at hpoint <;> simp_all

theorem delivers_of_reachable (hflushed : Flushed false calls)
    (hs : (streaming sizes calls).Reachable s) : Delivers calls s := by
  have hboth : Balanced sizes s ∧ Delivers calls s := by
    apply hs.invariant
    · rintro _ rfl
      refine ⟨balanced_start sizes hflushed, ?_, ?_, .inl ?_⟩
      · simp
      · simp [StreamState.onWay]
      · simp [StreamState.stream, StreamState.onWay, Producer.unsent, Point.events]
    · intro s a s' ⟨hbalanced, hdelivers⟩ hstep
      refine ⟨next_balanced hbalanced hstep, ?_⟩
      cases a with
      | producer signal => exact hdelivers.produces hbalanced (produces sizes hstep)
      | consumer signal => exact hdelivers.receives (consumes_receives (consumes hstep))
      | stop =>
          obtain rfl := Option.some.inj hstep
          refine ⟨hdelivers.gone, hdelivers.order, hdelivers.rest.imp_right ?_⟩
          exact Or.imp_right Producer.Over.stop
  exact hboth.2

end Run

/-! ## The limits of the batches -/

def Wait.batches : Wait N → List (PooledRowBatch N)
  | .staging _ batch | .rowBudget batch _ | .rowChannel batch _ => [batch]
  | .eventBudget _ | .eventChannel _ _ | .slot _ => []

def Producer.batches (p : Producer N) : List (PooledRowBatch N) :=
  p.eventRows.toList ++
    match p.point with
    | .waiting wait _ => wait.batches
    | _ => []

def QueuedStreamItem.batches : QueuedStreamItem N → List (PooledRowBatch N)
  | .event _ _ => []
  | .rows batch => [batch]

/-- The batches that have left the producer. -/
def StreamState.sentBatches (s : StreamState N) : List (PooledRowBatch N) :=
  s.items.flatMap QueuedStreamItem.batches ++ s.consumer.pendingRows.toList

section Limits

variable {sizes : Sizes} {s s' : StreamState N}

theorem bounded_empty : Bounded sizes ({} : PooledRowBatch N) :=
  ⟨Nat.zero_le _, .inl (Nat.zero_le _)⟩

theorem Producer.Fits.bounded {p : Producer N} (h : p.Fits sizes) :
    ∀ batch ∈ p.batches, Bounded sizes batch := by
  intro batch hbatch
  unfold Producer.Fits at h
  simp only [Producer.batches] at hbatch
  split at h
  · next hpoint =>
      have hrows : p.eventRows = some batch := by simpa [hpoint] using hbatch
      exact (h.1 batch hrows).flushable.bounded
  · next wait looked hpoint =>
      simp only [hpoint, h.1, Option.toList_none, List.nil_append] at hbatch
      have hwait := h.2
      cases wait with
      | eventBudget event => cases hbatch
      | eventChannel event permit => cases hbatch
      | slot row => cases hbatch
      | staging row staged =>
          obtain rfl := List.mem_singleton.mp hbatch
          rw [hwait.1]
          exact bounded_empty
      | rowBudget staged row =>
          obtain rfl := List.mem_singleton.mp hbatch
          exact hwait.1.bounded
      | rowChannel staged row =>
          obtain rfl := List.mem_singleton.mp hbatch
          exact hwait.2.1
  · next hpoint => simp [hpoint, h.1] at hbatch
  · next hpoint => simp [hpoint, h.1] at hbatch
  · exact h.elim

theorem sentBatches_eq (hitems : s'.items = s.items) (hconsumer : s'.consumer = s.consumer) :
    s'.sentBatches = s.sentBatches := by
  rw [StreamState.sentBatches, hitems, hconsumer, StreamState.sentBatches]

theorem queues_batches {item : QueuedStreamItem N} {point : Point N}
    (hstep : s.queues item point = some s') {batch : PooledRowBatch N}
    (hbatch : batch ∈ s'.sentBatches) : batch ∈ s.sentBatches ∨ batch ∈ item.batches := by
  unfold StreamState.queues at hstep
  split at hstep
  · obtain rfl := Option.some.inj hstep
    simp only [StreamState.sentBatches, List.flatMap_append, List.flatMap_singleton,
      List.mem_append] at hbatch ⊢
    tauto
  · cases hstep

/-- A batch that waits for its place in the channel joins the sent ones. -/
theorem produces_batches (hstep : Produces sizes s s') {batch : PooledRowBatch N}
    (hbatch : batch ∈ s'.sentBatches) : batch ∈ s.sentBatches ∨ batch ∈ s.producer.batches := by
  cases hstep with
  | @take wait _ hpoint htakes =>
      cases wait with
      | eventChannel event permit =>
          exact (queues_batches htakes hbatch).imp_right fun hnone => by cases hnone
      | rowChannel queued row =>
          refine (queues_batches htakes hbatch).imp_right fun hqueued => ?_
          simpa [Producer.batches, Wait.batches, QueuedStreamItem.batches, hpoint] using
            Or.inr hqueued
      | eventBudget | slot | staging | rowBudget =>
          simp only [StreamState.takes, Option.ite_none_right_eq_some] at htakes
          obtain ⟨-, htakes⟩ := htakes
          have hs := Option.some.inj htakes
          have hitems : s'.items = s.items := by rw [← hs]
          have hconsumer : s'.consumer = s.consumer := by rw [← hs]
          left
          rwa [sentBatches_eq hitems hconsumer] at hbatch
  | pop hpoint =>
      left
      rwa [sentBatches_eq (pops_items sizes s _).1 (pops_consumer sizes s _)] at hbatch
  | call | look | fail | dropped | drop | leaveIdle | leaveWait => exact .inl hbatch

theorem popRow_rows {batch rest : PooledRowBatch N} {row : StoredRow N}
    (h : batch.popRow = some (row, rest)) : rest.rows = batch.rows := by
  simp only [PooledRowBatch.popRow, Option.map_eq_some_iff, Prod.mk.injEq] at h
  obtain ⟨_, -, -, rfl⟩ := h
  rfl

theorem consumes_bounded {signal : ConsumerSignal} (hstep : Consumes s signal s')
    (h : ∀ batch ∈ s.sentBatches, Bounded sizes batch) :
    ∀ batch ∈ s'.sentBatches, Bounded sizes batch := by
  intro batch hbatch
  cases hstep with
  | @row popped rest row hgone hgarbage hpending hpop hleft =>
      simp only [StreamState.sentBatches, List.mem_append, Option.mem_toList] at h hbatch
      rcases hbatch with hitem | hrest
      · exact h batch (.inl hitem)
      · obtain rfl := Option.some.inj hrest
        have hkept := h popped (.inr hpending)
        rwa [Bounded, ← popRow_rows hpop] at hkept
  | rows hgone hgarbage hpending hitems =>
      apply h
      simpa [StreamState.sentBatches, QueuedStreamItem.batches, hitems, hpending, or_comm]
        using hbatch
  | event hgone hgarbage hpending hitems =>
      apply h
      simpa [StreamState.sentBatches, QueuedStreamItem.batches, hitems] using hbatch
  | emptyItem hgone hgarbage hitems =>
      apply h
      simp only [StreamState.sentBatches, hitems, List.flatMap_cons, List.append_assoc]
      exact List.mem_append_right _ hbatch
  | lastRow | noRow | emptyRows =>
      apply h
      exact List.mem_append_left _
        (by simpa [StreamState.sentBatches, StreamState.discards] using hbatch)
  | drop | close | dropStream => exact h batch hbatch

end Limits

theorem sent_bounded {sizes : Sizes} {calls : List (Call N)} {s : StreamState N}
    (hflushed : Flushed false calls) (hs : (streaming sizes calls).Reachable s) :
    ∀ batch ∈ s.sentBatches, Bounded sizes batch := by
  have hboth : Balanced sizes s ∧ ∀ batch ∈ s.sentBatches, Bounded sizes batch := by
    apply hs.invariant
    · rintro _ rfl
      exact ⟨balanced_start sizes hflushed, by simp [StreamState.sentBatches]⟩
    · intro s a s' ⟨hbalanced, hbounded⟩ hstep
      refine ⟨next_balanced hbalanced hstep, ?_⟩
      cases a with
      | producer signal =>
          intro batch hbatch
          rcases produces_batches (produces sizes hstep) hbatch with hsent | hjoins
          · exact hbounded batch hsent
          · exact hbalanced.fits.bounded batch hjoins
      | consumer signal => exact consumes_bounded (consumes hstep) hbounded
      | stop =>
          obtain rfl := Option.some.inj hstep
          exact hbounded
  exact hboth.2

end NzRust.Events
