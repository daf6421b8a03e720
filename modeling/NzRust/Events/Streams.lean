import NzRust.Events.Delivery

/-!
# The public streams

What `RowStream` makes of the events of its stream, the batches that
`RowBatchStream` is sent, and what all streams of a response may rely on.
-/

namespace NzRust.Events

open Response (ExternalFiles)
open Response.Inner Transition

variable {N : Numerics}

/-! ## The first set -/

def onlyFirstSet : NzError :=
  .config "query_stream only exposes the first result set; use query_stream_events"

/-- What `RowStream` returns for the events it polls; `failed` is its `first_set_only_error`. -/
def rowStream (failed : Bool) : List (QueryStreamEvent N) → List (NzResult (StoredRow N))
  | [] => []
  | .resultSetStart index _ _ :: events =>
      if 0 < index ∧ failed = false then .error onlyFirstSet :: rowStream true events
      else rowStream failed events
  | .row row :: events =>
      if failed then rowStream failed events else .ok row :: rowStream failed events
  | _ :: events => rowStream failed events

def okRows (items : List (NzResult (StoredRow N))) : List (StoredRow N) :=
  items.filterMap Except.toOption

/-- The rows before the end of the first set. -/
def firstSetRows : List (QueryStreamEvent N) → List (StoredRow N)
  | [] => []
  | .row row :: events => row :: firstSetRows events
  | .resultSetEnd _ _ :: _ => []
  | _ :: events => firstSetRows events

theorem rowStream_append (failed : Bool) (first second : List (QueryStreamEvent N)) :
    ∃ failed', rowStream failed (first ++ second) =
      rowStream failed first ++ rowStream failed' second := by
  induction first generalizing failed with
  | nil => exact ⟨failed, rfl⟩
  | cons event first ih =>
      cases event with
      | resultSetStart index columns nullability =>
          simp only [List.cons_append, rowStream]
          split
          · obtain ⟨failed', hrest⟩ := ih true
            exact ⟨failed', by rw [hrest, List.cons_append]⟩
          · exact ih failed
      | row row =>
          obtain ⟨failed', hrest⟩ := ih failed
          refine ⟨failed', ?_⟩
          simp only [List.cons_append, rowStream, hrest]
          split
          · rfl
          · rfl
      | notice message => exact ih failed
      | resultSetEnd index rowCount => exact ih failed
      | commandComplete tag rowsAffected => exact ih failed

theorem okRows_failed (events : List (QueryStreamEvent N)) : okRows (rowStream true events) = [] := by
  induction events with
  | nil => rfl
  | cons event events ih => cases event <;> simpa [rowStream] using ih

/-- Behind the first set the start of the next one comes before any row. -/
theorem okRows_behind {order : WireOrder} {events : List (QueryStreamEvent N)}
    (hsets : 0 < order.sets) (hcurrent : order.current = none)
    (h : (order.run events).isSome = true) : okRows (rowStream false events) = [] := by
  induction events with
  | nil => rfl
  | cons event events ih =>
      cases event with
      | resultSetStart index columns nullability =>
          have hindex : index = order.sets := by
            by_contra hne
            simp [WireOrder.run, WireOrder.accepts, hne] at h
          simp only [rowStream, hindex, hsets]
          exact okRows_failed events
      | row row => simp [WireOrder.run, WireOrder.accepts, hcurrent] at h
      | notice message => exact ih h
      | resultSetEnd index rowCount => simp [WireOrder.run, WireOrder.accepts, hcurrent] at h
      | commandComplete tag rowsAffected =>
          have hsame : order.accepts (.commandComplete tag rowsAffected : QueryStreamEvent N) =
              some order := by
            simp only [WireOrder.accepts, hcurrent, Option.map_none]
            rw [← hcurrent]
          apply ih
          simpa [WireOrder.run, hsame] using h

theorem okRows_first {order : WireOrder} {events : List (QueryStreamEvent N)}
    (hsets : order.sets = 0) (h : (order.run events).isSome = true) :
    okRows (rowStream false events) = firstSetRows events := by
  induction events generalizing order with
  | nil => rfl
  | cons event events ih =>
      obtain ⟨final, hrun⟩ := Option.isSome_iff_exists.mp h
      obtain ⟨order', haccepts, hrest⟩ := Option.bind_eq_some_iff.mp hrun
      have hsome : (order'.run events).isSome = true := by simp [hrest]
      cases event with
      | resultSetStart index columns nullability =>
          simp only [WireOrder.accepts, Option.ite_none_right_eq_some] at haccepts
          obtain ⟨⟨-, hindex⟩, haccepts⟩ := haccepts
          obtain rfl := Option.some.inj haccepts
          simp only [rowStream, firstSetRows, hindex, hsets]
          exact ih (by exact hsets) hsome
      | row row =>
          have hsame : order' = order := by
            simp only [WireOrder.accepts] at haccepts
            split at haccepts
            · simp only [Option.ite_none_right_eq_some] at haccepts
              exact (Option.some.inj haccepts.2).symm
            · cases haccepts
          have hrows := ih (hsame ▸ hsets) hsome
          simp only [rowStream, firstSetRows]
          exact congrArg (row :: ·) hrows
      | notice message =>
          obtain rfl := Option.some.inj haccepts
          exact ih hsets hsome
      | resultSetEnd index rowCount =>
          simp only [WireOrder.accepts, Option.ite_none_right_eq_some] at haccepts
          obtain ⟨-, haccepts⟩ := haccepts
          obtain rfl := Option.some.inj haccepts
          simp only [rowStream, firstSetRows]
          exact okRows_behind (by exact Nat.succ_pos _) (by rfl) hsome
      | commandComplete tag rowsAffected =>
          obtain rfl := Option.some.inj haccepts
          exact ih (by exact hsets) hsome

/-! ## The batches of a batch stream -/

def batchRowsLimit : Nat := 256
def batchBytesLimit : Nat := 1024 * 1024

/-- `batch_rows` and `batch_bytes` of the drain. -/
structure BatchRows (N : Numerics) where
  rows : List (StoredRow N) := []
  bytes : Nat := 0

namespace BatchRows

variable (sizes : Sizes)

/-- `flush_stream_batch`, with the rows that are handed to the sender. -/
def flush (b : BatchRows N) : BatchRows N × List (List (StoredRow N)) :=
  if b.rows.isEmpty then (b, []) else ({}, [b.rows])

/-- The end of `push_stream_batch`. -/
def fill (b : BatchRows N) (row : StoredRow N) : BatchRows N × List (List (StoredRow N)) :=
  let b : BatchRows N := ⟨b.rows ++ [row], b.bytes + retainedBytes sizes row⟩
  if batchRowsLimit ≤ b.rows.length ∨ batchBytesLimit ≤ b.bytes then b.flush else (b, [])

/-- `push_stream_batch`. The row is lost when the sender does not accept the rows before it. -/
def push (b : BatchRows N) (row : StoredRow N) (accepted : Bool) :
    BatchRows N × List (List (StoredRow N)) :=
  if !b.rows.isEmpty ∧ batchBytesLimit < b.bytes + retainedBytes sizes row then
    let (flushed, sent) := b.flush
    if accepted then
      let (b, more) := flushed.fill sizes row
      (b, sent ++ more)
    else (flushed, sent)
  else b.fill sizes row

/-- The batches that are handed to the sender by calls of the drain, each with whether the sender
accepts what the call sends first. -/
def sent (b : BatchRows N) : List (Call N × Bool) → List (List (StoredRow N))
  | [] => []
  | (.pushBatch row, accepted) :: calls =>
      let (b, batches) := b.push sizes row accepted
      batches ++ sent b calls
  | (.flushBatch, _) :: calls =>
      let (b, batches) := b.flush
      batches ++ sent b calls
  | _ :: calls => sent b calls

end BatchRows

/-- The limits of a batch of either stream. -/
def WithinLimits (sizes : Sizes) (rows : List (StoredRow N)) : Prop :=
  rows.length ≤ batchRowsLimit ∧
    (rows.length ≤ 1 ∨ (rows.map (retainedBytes sizes)).sum ≤ batchBytesLimit)

section BatchSender

variable {sizes : Sizes} {b : BatchRows N}

/-- The rows that wait are counted, and a row more is within the limit of rows. -/
structure BatchRows.Waiting (sizes : Sizes) (b : BatchRows N) : Prop where
  bytes : b.bytes = (b.rows.map (retainedBytes sizes)).sum
  room : b.rows.length < batchRowsLimit
  limit : b.bytes ≤ batchBytesLimit

theorem batchRowsLimit_pos : 0 < batchRowsLimit := by
  decide

theorem waiting_empty : BatchRows.Waiting sizes ({} : BatchRows N) :=
  ⟨rfl, batchRowsLimit_pos, Nat.zero_le _⟩

theorem BatchRows.Waiting.flush (h : b.Waiting sizes) :
    b.flush.1.Waiting sizes ∧ ∀ rows ∈ b.flush.2, WithinLimits sizes rows := by
  unfold BatchRows.flush
  split
  · exact ⟨h, by simp⟩
  · refine ⟨waiting_empty, ?_⟩
    intro rows hrows
    obtain rfl := List.mem_singleton.mp hrows
    exact ⟨Nat.le_of_lt h.room, .inr (h.bytes ▸ h.limit)⟩

theorem BatchRows.Waiting.fill (h : b.Waiting sizes) (row : StoredRow N)
    (hrow : b.rows = [] ∨ b.bytes + retainedBytes sizes row ≤ batchBytesLimit) :
    (b.fill sizes row).1.Waiting sizes ∧
      ∀ rows ∈ (b.fill sizes row).2, WithinLimits sizes rows := by
  unfold BatchRows.fill
  dsimp only
  split
  · have hsome : (b.rows ++ [row]).isEmpty = false := by simp
    simp only [BatchRows.flush, hsome]
    refine ⟨waiting_empty, ?_⟩
    intro rows hrows
    obtain rfl := List.mem_singleton.mp hrows
    refine ⟨by simpa [Nat.add_one_le_iff] using h.room, ?_⟩
    rcases hrow with hempty | hbytes
    · exact .inl (by simp [hempty])
    · exact .inr (by simpa [h.bytes] using hbytes)
  · next hkept =>
      rw [not_or, Nat.not_le, Nat.not_le] at hkept
      exact ⟨⟨by simp [h.bytes], hkept.1, Nat.le_of_lt hkept.2⟩, by simp⟩

theorem BatchRows.Waiting.push (h : b.Waiting sizes) (row : StoredRow N) (accepted : Bool) :
    (b.push sizes row accepted).1.Waiting sizes ∧
      ∀ rows ∈ (b.push sizes row accepted).2, WithinLimits sizes rows := by
  unfold BatchRows.push
  split
  · next hfull =>
      have hsent := h.flush.2
      have hflushed : b.flush = ({}, [b.rows]) := by
        simp only [BatchRows.flush]
        simp_all
      have hempty : BatchRows.Waiting sizes ({} : BatchRows N) := waiting_empty
      have hfill := hempty.fill row (.inl rfl)
      simp only [hflushed] at hsent ⊢
      cases accepted with
      | false => exact ⟨hempty, hsent⟩
      | true =>
          refine ⟨hfill.1, ?_⟩
          intro rows hrows
          rcases List.mem_append.mp hrows with hfirst | hmore
          · exact hsent rows hfirst
          · exact hfill.2 rows hmore
  · next hroom =>
      apply h.fill row
      by_cases hempty : b.rows = []
      · exact .inl hempty
      · right
        simp [hempty] at hroom
        omega

theorem sent_within (called : List (Call N × Bool)) (h : b.Waiting sizes) :
    ∀ rows ∈ b.sent sizes called, WithinLimits sizes rows := by
  induction called generalizing b with
  | nil => simp [BatchRows.sent]
  | cons first called ih =>
      obtain ⟨call, accepted⟩ := first
      cases call with
      | pushBatch row =>
          obtain ⟨hwaits, hsent⟩ := h.push row accepted
          intro rows hrows
          exact (List.mem_append.mp hrows).elim (hsent rows) (ih hwaits rows)
      | flushBatch =>
          obtain ⟨hwaits, hsent⟩ := h.flush
          intro rows hrows
          exact (List.mem_append.mp hrows).elim (hsent rows) (ih hwaits rows)
      | send event => exact ih h
      | pushRow row => exact ih h
      | flushRows => exact ih h
      | record message => exact ih h

end BatchSender

/-! ## The streams of a response -/

/-- The batches that a stream has not let go of. -/
def StreamState.batches (s : StreamState N) : List (PooledRowBatch N) :=
  s.producer.batches ++ s.sentBatches

/--
What an event stream has yielded at any time begins the events of the response,
and these are in wire order: every set starts before its rows and completes
behind them, and rows, notices and completions come as their messages do. A row
stream yields the first rows of the first set, and no batch of either kind
passes its limits.
-/
theorem streams_in_wire_order (ops : NumberOps N) (files : ExternalFiles) (fuel : Nat)
    (transaction : Bool) (session : Response.Inner.Session) (sizes : Sizes) {s : StreamState N}
    (hs : (streaming sizes (drainResponseInner ops files .events .allRows fuel transaction
      session).calls).Reachable s) :
    let events := callEvents
      (drainResponseInner ops files .events .allRows fuel transaction session).calls
    s.yielded <+: events ∧
    (WireOrder.run {} events).isSome = true ∧
    events.filterMap eventCarries =
      (drainedMessages ops files fuel { transaction := transaction } session).filterMap
        messageCarries ∧
    okRows (rowStream false s.yielded) <+: firstSetRows events ∧
    (∀ batch ∈ s.batches, Bounded sizes batch) ∧
    ∀ called, ∀ rows ∈ BatchRows.sent sizes ({} : BatchRows N) called, WithinLimits sizes rows := by
  intro events
  have hflushed := drainResponseInner_flushed ops files .allRows fuel transaction session
  have hyielded : s.yielded <+: events :=
    (List.prefix_append _ _).trans (delivers_of_reachable hflushed hs).order
  have hordered : (WireOrder.run {} events).isSome = true :=
    drainLoop_ordered ops files .allRows fuel session ⟨rfl, rfl, by simp⟩
  refine ⟨hyielded, hordered, drainLoop_carries ops files fuel _ session, ?_, ?_, ?_⟩
  · obtain ⟨rest, hrest⟩ := hyielded
    obtain ⟨failed, hrows⟩ := rowStream_append false s.yielded rest
    rw [← okRows_first rfl hordered, ← hrest, hrows, okRows, okRows, List.filterMap_append]
    exact List.prefix_append _ _
  · intro batch hbatch
    rcases List.mem_append.mp hbatch with hown | hsent
    · exact (balanced_of_reachable hflushed hs).fits.bounded batch hown
    · exact sent_bounded hflushed hs batch hsent
  · exact fun called => sent_within called waiting_empty

/-- The start of a set and its first row are yielded, while the second row is in the batch. -/
def yieldFirstRow : List Action :=
  stageTwoRows ++ [.producer .look, .producer .take, .producer .look, .producer .take,
    .consumer .poll, .consumer .drop, .consumer .poll, .consumer .poll]

theorem first_row_yielded : ∃ s,
    (streaming sampleSizes (drainResponseInner RawRow.bitOps Response.noFiles .events .allRows 20
      false rowsSession).calls).Reachable s ∧
    s.yielded.length = 2 ∧ (okRows (rowStream false s.yielded)).length = 1 ∧
    s.yielded <+: callEvents (drainResponseInner RawRow.bitOps Response.noFiles .events .allRows 20
      false rowsSession).calls := by
  have hrun : (System.follow (StreamState.next sampleSizes) { producer := { calls :=
      (drainResponseInner RawRow.bitOps Response.noFiles .events .allRows 20 false
        rowsSession).calls } } yieldFirstRow).map
      (fun s => (s.yielded.length, (okRows (rowStream false s.yielded)).length)) =
        some (2, 1) := by
    decide +kernel
  obtain ⟨s, hfollow, hs⟩ := Option.map_eq_some_iff.mp hrun
  obtain ⟨hyielded, hrows⟩ := Prod.mk.inj hs
  have hreach := (System.Run.of_follow (M := streaming sampleSizes _) (fun _ _ _ h => h)
    hfollow).reachable (.start rfl)
  exact ⟨s, hreach, hyielded, hrows, (streams_in_wire_order RawRow.bitOps Response.noFiles 20 false
    rowsSession sampleSizes hreach).1⟩

end NzRust.Events
