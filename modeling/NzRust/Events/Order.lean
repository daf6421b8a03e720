import NzRust.Events.Calls
import NzRust.Response.Retention

/-!
# The order of the events of a response

The events that a drain has for its stream, and what their order is held to: the
sets are numbered, each one starts before its rows and completes behind them,
and the rows, notices and completions are those of the messages on the wire, in
their order.
-/

namespace NzRust.Events

open Response (ExternalFiles)
open Response.Inner
open Checked (Exec)

variable {N : Numerics}

/-! ## The order of a stream -/

def rowColumns : StoredRow N → List ColumnDesc
  | .values columns _ _ => columns
  | .raw row => row.columns

/-- A set that has started. -/
structure StartedSet where
  columns : List ColumnDesc
  complete : Bool

/-- How many sets have ended, and the one that has started. -/
structure WireOrder where
  sets : Nat := 0
  current : Option StartedSet := none

namespace WireOrder

/-- A set starts behind the end of the one before it, its rows have its columns, and none of them
comes behind its completion. -/
def accepts (order : WireOrder) : QueryStreamEvent N → Option WireOrder
  | .resultSetStart index columns _ =>
      if order.current.isNone ∧ index = order.sets then
        some { order with current := some ⟨columns, false⟩ }
      else none
  | .row row =>
      match order.current with
      | some set => if set.complete = false ∧ rowColumns row = set.columns then some order else none
      | none => none
  | .notice _ => some order
  | .commandComplete _ _ =>
      some { order with current := order.current.map fun set => { set with complete := true } }
  | .resultSetEnd index _ =>
      if order.current.isSome ∧ index = order.sets then some ⟨order.sets + 1, none⟩ else none

def run (order : WireOrder) : List (QueryStreamEvent N) → Option WireOrder
  | [] => some order
  | event :: events => (order.accepts event).bind fun order => run order events

theorem run_append (order : WireOrder) (first second : List (QueryStreamEvent N)) :
    order.run (first ++ second) = (order.run first).bind fun order => order.run second := by
  induction first generalizing order with
  | nil => rfl
  | cons event first ih =>
      simp only [List.cons_append, run]
      cases order.accepts event with
      | none => rfl
      | some order => exact ih order

end WireOrder

/-! ## The events of the calls -/

def Call.event? : Call N → Option (QueryStreamEvent N)
  | .send event => some event
  | .pushRow row => some (.row row)
  | _ => none

/-- The events of a stream that takes all of them. -/
def callEvents (calls : List (Call N)) : List (QueryStreamEvent N) :=
  calls.filterMap Call.event?

@[simp] theorem callEvents_nil : callEvents ([] : List (Call N)) = [] := rfl

@[simp] theorem callEvents_append (first second : List (Call N)) :
    callEvents (first ++ second) = callEvents first ++ callEvents second :=
  List.filterMap_append

@[simp] theorem callEvents_send (event : QueryStreamEvent N) (calls : List (Call N)) :
    callEvents (.send event :: calls) = event :: callEvents calls := rfl

@[simp] theorem callEvents_pushRow (row : StoredRow N) (calls : List (Call N)) :
    callEvents (.pushRow row :: calls) = .row row :: callEvents calls := rfl

@[simp] theorem callEvents_flushRows (calls : List (Call N)) :
    callEvents (.flushRows :: calls) = callEvents calls := rfl

@[simp] theorem callEvents_pushBatch (row : StoredRow N) (calls : List (Call N)) :
    callEvents (.pushBatch row :: calls) = callEvents calls := rfl

@[simp] theorem callEvents_flushBatch (calls : List (Call N)) :
    callEvents (.flushBatch :: calls) = callEvents calls := rfl

@[simp] theorem callEvents_record (message : Text) (calls : List (Call N)) :
    callEvents (.record message :: calls) = callEvents calls := rfl

/-! ## The turns of the drain -/

/-- The stream is where the drain is. -/
structure Tracks (complete : Bool) (st : DrainState N) (order : WireOrder) : Prop where
  sets : order.sets = st.setIndex
  current : order.current =
    if st.started then st.current.map fun set => ⟨set.columns, complete⟩ else none
  started : st.started = true → st.current.isSome = true

theorem Tracks.idle {complete : Bool} {st : DrainState N} {order : WireOrder}
    (h : Tracks complete st order) (hcurrent : st.current = none) : st.started = false := by
  by_contra hstarted
  simpa [hcurrent] using h.started (by simpa using hstarted)

theorem Tracks.completes {st : DrainState N} {order : WireOrder} (h : Tracks false st order) :
    Tracks true st
      { order with current := order.current.map fun set => { set with complete := true } } where
  sets := h.sets
  current := by
    rw [h.current]
    by_cases hstarted : st.started = true
    · cases hcurrent : st.current <;> simp [hstarted]
    · simp [hstarted]
  started := h.started

/-- The events go on from `order`, to where a drain that goes on is. -/
def Orders (order : WireOrder) (turn : Turn N) : Prop :=
  ∃ order', order.run (callEvents turn.calls) = some order' ∧
    ∀ st, turn.next = .go st → Tracks false st order'

section Turn

variable {complete : Bool} {st : DrainState N} {order : WireOrder}

theorem emitResultStart_ordered {set : RowSet N} (h : Tracks complete st order)
    (hcurrent : st.current = some set) :
    ∃ order', order.run (callEvents (st.emitResultStart set).1) = some order' ∧
      Tracks (complete && st.started) (st.emitResultStart set).2 order' ∧
      (st.emitResultStart set).2.started = true ∧
      (st.emitResultStart set).2.current = some set := by
  by_cases hstarted : st.started = true
  · refine ⟨order, ?_, ?_, ?_, ?_⟩
    · simp [DrainState.emitResultStart, hstarted, WireOrder.run]
    · simpa [DrainState.emitResultStart, hstarted] using h
    · simp [DrainState.emitResultStart, hstarted]
    · simpa [DrainState.emitResultStart, hstarted] using hcurrent
  · have hnone : order.current = none := by simpa [hstarted] using h.current
    refine ⟨{ order with current := some ⟨set.columns, false⟩ }, ?_, ⟨?_, ?_, ?_⟩, ?_, ?_⟩
    · simp [DrainState.emitResultStart, hstarted, WireOrder.run, WireOrder.accepts, hnone, h.sets]
    · simpa [DrainState.emitResultStart, hstarted] using h.sets
    · simp [DrainState.emitResultStart, hstarted, hcurrent]
    · simp [DrainState.emitResultStart, hstarted, hcurrent]
    · simp [DrainState.emitResultStart, hstarted]
    · simpa [DrainState.emitResultStart, hstarted] using hcurrent

theorem finishResponseSet_ordered (h : Tracks complete st order) :
    ∃ order', order.run (callEvents (st.finishResponseSet .events).1) = some order' ∧
      Tracks false (st.finishResponseSet .events).2 order' ∧
      (st.finishResponseSet .events).2.current = none := by
  cases hcurrent : st.current with
  | none =>
      refine ⟨order, ?_, ?_⟩
      · simp [DrainState.finishResponseSet, hcurrent, WireOrder.run]
      · simp only [DrainState.finishResponseSet, hcurrent]
        exact ⟨⟨h.sets, by simpa [h.idle hcurrent] using h.current, h.started⟩, trivial⟩
  | some set =>
      obtain ⟨order', hrun, htracks, hstarted, hset⟩ := emitResultStart_ordered h hcurrent
      have hsome : order'.current.isSome = true := by
        rw [htracks.current, hstarted, hset]
        rfl
      refine ⟨⟨order'.sets + 1, none⟩, ?_, ?_⟩
      · simp [DrainState.finishResponseSet, hcurrent, WireOrder.run_append, hrun, WireOrder.run,
          WireOrder.accepts, hsome, htracks.sets]
      · simp only [DrainState.finishResponseSet, hcurrent]
        exact ⟨⟨congrArg (· + 1) htracks.sets, rfl, by simp⟩, trivial⟩

theorem Orders.silent (h : Tracks false st order) : Orders order ⟨[], .go st⟩ := by
  refine ⟨order, rfl, ?_⟩
  intro st' hgo
  obtain rfl := Next.go.inj hgo
  exact h

theorem Orders.stops {calls : List (Call N)} {order' : WireOrder}
    (h : order.run (callEvents calls) = some order') (result : Exec NzError (ParsedQueryResult N))
    (synced : Bool) : Orders order ⟨calls, .ends result synced⟩ :=
  ⟨order', h, fun _ hgo => by cases hgo⟩

theorem Orders.nothing (result : Exec NzError (ParsedQueryResult N)) (synced : Bool) :
    Orders order ⟨[], .ends result synced⟩ :=
  .stops rfl result synced

theorem Orders.goes {calls : List (Call N)} {order' : WireOrder}
    (h : order.run (callEvents calls) = some order') (htracks : Tracks false st order') :
    Orders order ⟨calls, .go st⟩ := by
  refine ⟨order', h, ?_⟩
  intro st' hgo
  obtain rfl := Next.go.inj hgo
  exact htracks

theorem Tracks.countRow (h : Tracks false st order) (columns : List ColumnDesc) :
    Tracks false (st.countRow (st.openSet columns)) order where
  sets := h.sets
  current := by
    rw [h.current]
    cases hcurrent : st.current with
    | none =>
        simp [DrainState.countRow, h.idle hcurrent]
    | some set => simp [DrainState.countRow, DrainState.openSet, hcurrent]
  started := by simp [DrainState.countRow]

theorem handleRow_ordered {set : RowSet N} {built : Exec NzError (NzError ⊕ StoredRow N)}
    (h : Tracks false st order) (hcurrent : st.current = some set)
    (hcolumns : ∀ row, built = .ok (.inr row) → rowColumns row = set.columns) :
    Orders order (handleRow .events st set built) := by
  rcases built with fault | e | row
  · exact .nothing _ _
  · exact .silent ⟨h.sets, h.current, h.started⟩
  · obtain ⟨order', hrun, htracks, hstarted, hset⟩ := emitResultStart_ordered h hcurrent
    have hopen : order'.current = some ⟨set.columns, false⟩ := by
      simp [htracks.current, hstarted, hset]
    refine ⟨order', ?_, ?_⟩
    · simp [handleRow, DrainState.deliver, WireOrder.run_append, hrun, WireOrder.run,
        WireOrder.accepts, hopen, hcolumns row rfl]
    · intro st' hgo
      obtain rfl := Next.go.inj hgo
      exact htracks

theorem handleRowDescription_ordered (h : Tracks false st order) (data : Bytes) :
    Orders order (handleRowDescription .events st data) := by
  obtain ⟨order', hrun, htracks, hnone⟩ := finishResponseSet_ordered h
  unfold handleRowDescription
  generalize st.finishResponseSet .events = finished at hrun htracks hnone ⊢
  cases parseRowDescription data with
  | error e => exact .stops hrun _ _
  | ok columns =>
      refine .goes hrun ⟨htracks.sets, ?_, fun _ => rfl⟩
      simp [htracks.current, htracks.idle hnone]

theorem handleRowDescriptionStandard_ordered (h : Tracks false st order) (data : Bytes) :
    Orders order (handleRowDescriptionStandard st data) := by
  unfold handleRowDescriptionStandard
  cases DbosTupleDesc.parse data st.cachedColumns with
  | error e => exact .nothing _ _
  | ok desc =>
      refine .silent ⟨h.sets, ?_, fun _ => rfl⟩
      rw [h.current]
      cases hcurrent : st.current with
      | none => simp [h.idle hcurrent]
      | some set => simp [DrainState.openSet, hcurrent]

theorem handleNotice_ordered (h : Tracks false st order) (data : Bytes) :
    Orders order (handleNotice .events st data) := by
  unfold handleNotice
  by_cases hempty : (parseBackendErrorFields data).message.isEmpty = true
  · simpa [hempty] using Orders.silent h
  · simp only [hempty]
    exact .goes (by simp [WireOrder.run, WireOrder.accepts]) h

theorem handleReady_ordered (h : Tracks false st order) :
    Orders order (handleReady .events st) := by
  obtain ⟨order', hrun, -, -⟩ := finishResponseSet_ordered h
  unfold handleReady
  dsimp only
  split
  · exact .stops hrun _ _
  · split
    · exact .stops hrun _ _
    · split
      · exact .stops hrun _ _
      · exact .stops hrun _ _

theorem handleCommandComplete_ordered (h : Tracks false st order) (data : Bytes) :
    Orders order (handleCommandComplete .events st data) := by
  unfold handleCommandComplete
  dsimp only
  generalize hcounted : ({ st with
    transaction := _
    rowsAffected := _ } : DrainState N) = counted
  have hkept : Tracks false counted order := by
    subst hcounted
    exact ⟨h.sets, h.current, h.started⟩
  cases hcurrent : st.current with
  | none =>
      dsimp only
      obtain ⟨order', hrun, htracks, -⟩ := finishResponseSet_ordered hkept.completes
      exact .goes (by simp [WireOrder.run, WireOrder.accepts, hrun]) htracks
  | some set =>
      have hset : counted.current = some set := by
        rw [← hcounted]
        exact hcurrent
      obtain ⟨started, hstart, hstarted, -, -⟩ := emitResultStart_ordered hkept hset
      obtain ⟨order', hrun, htracks, -⟩ := finishResponseSet_ordered hstarted.completes
      dsimp only
      refine .goes ?_ htracks
      simp [WireOrder.run_append, hstart, WireOrder.run, WireOrder.accepts, hrun]

end Turn

theorem fromDbosRaw_kept {columns : List ColumnDesc} {payload : Bytes} {desc : DbosTupleDesc}
    {row : RawRow N} (h : RawRow.fromDbosRaw columns payload desc = .ok row) :
    row.columns = columns ∧ row.payload = payload := by
  obtain ⟨spans, -, hrow⟩ := Checked.bind_ok h
  obtain rfl := Except.ok.inj hrow
  exact ⟨rfl, rfl⟩

theorem fromTextRaw_kept {columns : List ColumnDesc} {payload : Bytes} {row : RawRow N}
    (h : RawRow.fromTextRaw columns payload = .ok row) :
    row.columns = columns ∧ row.payload = payload := by
  obtain ⟨_, -, hrow⟩ := Checked.bind_ok h
  obtain rfl := Except.ok.inj hrow
  exact ⟨rfl, rfl⟩

theorem buildDbos_columns {ops : NumberOps N} {policy : RowPolicy} {columns : List ColumnDesc}
    {desc : DbosTupleDesc} {payload : Bytes} {row : StoredRow N}
    (h : buildDbos ops policy columns desc payload = .ok (.inr row)) :
    rowColumns row = columns := by
  unfold buildDbos at h
  split at h
  · obtain ⟨values, -, rfl⟩ := classified_inr h
    rfl
  · obtain ⟨raw, hraw, hrow⟩ := Checked.bind_ok h
    obtain rfl := Sum.inr.inj (Except.ok.inj hrow)
    rw [rowColumns, (fromDbosRaw_kept hraw).1]

theorem buildText_columns {ops : NumberOps N} {policy : RowPolicy} {columns : List ColumnDesc}
    {payload : Bytes} {row : StoredRow N}
    (h : buildText ops policy columns payload = .ok (.inr row)) : rowColumns row = columns := by
  unfold buildText at h
  split at h
  · obtain ⟨values, -, rfl⟩ := classified_inr h
    rfl
  · obtain ⟨raw, hraw, hrow⟩ := Checked.bind_ok h
    obtain rfl := Sum.inr.inj (Except.ok.inj hrow)
    rw [rowColumns, (fromTextRaw_kept hraw).1]

theorem handle_ordered (ops : NumberOps N) (policy : RowPolicy) {st : DrainState N}
    {order : WireOrder} (h : Tracks false st order) (msg : Msg) :
    Orders order (handle ops .events policy st msg) := by
  cases msg with
  | nothing => exact .silent h
  | dbosRow desc payload =>
      have hcounted := h.countRow (st.cachedColumns.getD desc.toColumnDescs)
      cases payload with
      | none => exact .silent hcounted
      | some payload => exact handleRow_ordered hcounted rfl fun _ => buildDbos_columns
  | textRow columns payload =>
      have hcounted := h.countRow columns
      cases payload with
      | none => exact .silent hcounted
      | some payload => exact handleRow_ordered hcounted rfl fun _ => buildText_columns
  | rowDescription data => exact handleRowDescription_ordered h data
  | rowDescriptionStandard data => exact handleRowDescriptionStandard_ordered h data
  | commandComplete data => exact handleCommandComplete_ordered h data
  | notice data => exact handleNotice_ordered h data
  | error data => exact .silent ⟨h.sets, h.current, h.started⟩
  | ready => exact handleReady_ordered h

theorem drainLoop_ordered (ops : NumberOps N) (files : ExternalFiles) (policy : RowPolicy)
    (fuel : Nat) {st : DrainState N} {order : WireOrder} (session : Response.Inner.Session)
    (h : Tracks false st order) :
    (order.run (callEvents (drainLoop ops files .events policy fuel st session).calls)).isSome := by
  induction fuel generalizing st order session with
  | zero => rfl
  | succ fuel ih =>
      simp only [drainLoop]
      cases receive .events policy files fuel st session with
      | mk outcome sent peer =>
          cases outcome with
          | unfinished => rfl
          | error e => rfl
          | ok msg =>
              obtain ⟨order', hrun, hgoes⟩ := handle_ordered ops policy h msg
              dsimp only
              cases hnext : (handle ops .events policy st msg).next with
              | ends result synced => simp [hrun]
              | go st' => simpa [WireOrder.run_append, hrun] using ih peer (hgoes st' hnext)

/-! ## What the messages carry -/

/-- What a message has for a stream by itself. -/
inductive Carried where
  | row (payload : Bytes)
  | notice (message : Text)
  | complete (tag : Text) (rowsAffected : Int)

def eventCarries : QueryStreamEvent N → Option Carried
  | .row (.raw row) => some (.row row.payload)
  | .notice message => some (.notice message)
  | .commandComplete tag rowsAffected => some (.complete tag rowsAffected)
  | _ => none

def messageCarries : Msg → Option Carried
  | .dbosRow _ payload | .textRow _ payload => payload.map .row
  | .notice data =>
      let message := (parseBackendErrorFields data).message
      if message.isEmpty then none else some (.notice message)
  | .commandComplete data =>
      let text := fromUtf8Lossy data
      some (.complete (trimNuls text) (parseCommandCompleteRows text))
  | _ => none

/-- The messages that the drain of a stream takes and goes on behind, in their order. -/
def drainedMessages (ops : NumberOps N) (files : ExternalFiles) :
    Nat → DrainState N → Response.Inner.Session → List Msg
  | 0, _, _ => []
  | fuel + 1, st, session =>
      let received := receive .events .allRows files fuel st session
      match received.outcome with
      | .ok msg =>
          match (handle ops .events .allRows st msg).next with
          | .go st' => msg :: drainedMessages ops files fuel st' received.peer
          | .ends _ _ => []
      | _ => []

/-- What the calls of a turn carry. -/
def turnCarries (calls : List (Call N)) : List Carried :=
  (callEvents calls).filterMap eventCarries

@[simp] theorem turnCarries_append (first second : List (Call N)) :
    turnCarries (first ++ second) = turnCarries first ++ turnCarries second := by
  simp [turnCarries]

theorem emitResultStart_carries (st : DrainState N) (set : RowSet N) :
    turnCarries (st.emitResultStart set).1 = [] := by
  by_cases hstarted : st.started = true
  · simp [DrainState.emitResultStart, hstarted, turnCarries]
  · simp [DrainState.emitResultStart, hstarted, turnCarries, eventCarries]

theorem finishResponseSet_carries (st : DrainState N) :
    turnCarries (st.finishResponseSet .events).1 = [] := by
  cases hcurrent : st.current with
  | none => simp [DrainState.finishResponseSet, hcurrent, turnCarries]
  | some set =>
      have hstart := emitResultStart_carries st set
      simp only [DrainState.finishResponseSet, hcurrent, turnCarries_append, hstart]
      simp [turnCarries, eventCarries]

/-- A turn hands on what its message carries, unless the drain ends with it. -/
def Carries (turn : Turn N) (carried : Option Carried) : Prop :=
  match turn.next with
  | .go _ => turnCarries turn.calls = carried.toList
  | .ends _ _ => turnCarries turn.calls = []

theorem handleRow_carries (st : DrainState N) (set : RowSet N) {payload : Bytes}
    {built : Exec NzError (NzError ⊕ StoredRow N)}
    (h : ∀ out, built = .ok out → ∃ row : RawRow N, out = .inr (.raw row) ∧ row.payload = payload) :
    Carries (handleRow .events st set built) (some (.row payload)) := by
  rcases built with fault | e | row
  · rfl
  · obtain ⟨row, hrow, -⟩ := h _ rfl
    cases hrow
  · obtain ⟨row, hrow, rfl⟩ := h _ rfl
    obtain rfl := Sum.inr.inj hrow
    have hstart := emitResultStart_carries st set
    simp only [Carries, handleRow, DrainState.deliver, turnCarries_append, hstart]
    rfl

theorem buildDbos_raw {ops : NumberOps N} {columns : List ColumnDesc} {desc : DbosTupleDesc}
    {payload : Bytes} {out : NzError ⊕ StoredRow N}
    (h : buildDbos ops .allRows columns desc payload = .ok out) :
    ∃ row : RawRow N, out = .inr (.raw row) ∧ row.payload = payload := by
  obtain ⟨row, hrow, hout⟩ := Checked.bind_ok h
  exact ⟨row, (Except.ok.inj hout).symm, (fromDbosRaw_kept hrow).2⟩

theorem buildText_raw {ops : NumberOps N} {columns : List ColumnDesc} {payload : Bytes}
    {out : NzError ⊕ StoredRow N} (h : buildText ops .allRows columns payload = .ok out) :
    ∃ row : RawRow N, out = .inr (.raw row) ∧ row.payload = payload := by
  obtain ⟨row, hrow, hout⟩ := Checked.bind_ok h
  exact ⟨row, (Except.ok.inj hout).symm, (fromTextRaw_kept hrow).2⟩

theorem handleCommandComplete_carries (st : DrainState N) (data : Bytes) :
    Carries (handleCommandComplete .events st data) (messageCarries (.commandComplete data)) := by
  unfold handleCommandComplete Carries
  dsimp only
  generalize hcounted : ({ st with
    transaction := _
    rowsAffected := _ } : DrainState N) = counted
  cases hcurrent : st.current with
  | none =>
      have hclosing := finishResponseSet_carries counted
      simp only [turnCarries_append, hclosing]
      rfl
  | some set =>
      have hstart := emitResultStart_carries counted set
      have hclosing := finishResponseSet_carries (counted.emitResultStart set).2
      simp only [turnCarries_append, hstart, hclosing]
      rfl

theorem handle_carries (ops : NumberOps N) (st : DrainState N) (msg : Msg) :
    Carries (handle ops .events .allRows st msg) (messageCarries msg) := by
  have hfinish := finishResponseSet_carries st
  cases msg with
  | nothing => rfl
  | dbosRow desc payload =>
      cases payload with
      | none => rfl
      | some payload => exact handleRow_carries _ _ fun _ => buildDbos_raw
  | textRow columns payload =>
      cases payload with
      | none => rfl
      | some payload => exact handleRow_carries _ _ fun _ => buildText_raw
  | rowDescription data =>
      simp only [handle, handleRowDescription]
      cases parseRowDescription data with
      | error e => exact hfinish
      | ok columns => exact hfinish
  | rowDescriptionStandard data =>
      simp only [handle, handleRowDescriptionStandard]
      cases DbosTupleDesc.parse data st.cachedColumns with
      | error e => rfl
      | ok desc => rfl
  | commandComplete data => exact handleCommandComplete_carries st data
  | notice data =>
      simp only [handle, handleNotice, messageCarries]
      by_cases hempty : (parseBackendErrorFields data).message.isEmpty = true
      · simp [hempty, Carries, turnCarries]
      · simp [hempty, Carries, turnCarries, eventCarries]
  | error data => rfl
  | ready =>
      simp only [handle, handleReady]
      split
      · exact hfinish
      · split
        · exact hfinish
        · split
          · exact hfinish
          · exact hfinish

theorem drainLoop_carries (ops : NumberOps N) (files : ExternalFiles) (fuel : Nat)
    (st : DrainState N) (session : Response.Inner.Session) :
    turnCarries (drainLoop ops files .events .allRows fuel st session).calls =
      (drainedMessages ops files fuel st session).filterMap messageCarries := by
  induction fuel generalizing st session with
  | zero => rfl
  | succ fuel ih =>
      simp only [drainLoop, drainedMessages]
      cases receive .events .allRows files fuel st session with
      | mk outcome sent peer =>
          cases outcome with
          | unfinished => rfl
          | error e => rfl
          | ok msg =>
              have hturn := handle_carries ops st msg
              unfold Carries at hturn
              dsimp only
              cases hnext : (handle ops .events .allRows st msg).next with
              | ends result synced =>
                  simp only [hnext] at hturn
                  exact hturn
              | go st' =>
                  simp only [hnext] at hturn
                  rw [turnCarries_append, hturn, ih, List.filterMap_cons]
                  cases messageCarries msg <;> rfl

end NzRust.Events
