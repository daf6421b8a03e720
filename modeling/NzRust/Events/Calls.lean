import NzRust.Response.Inner

/-!
# What a response asks of an event stream

The calls of a drain into an event stream, in their order. A row goes to the
staged batch, every other event travels on its own, and the staged batch is
flushed before each of them.
-/

namespace NzRust.Events

open Response (ExternalFiles)
open Response.Inner

variable {N : Numerics}

/-- Whether rows may still be staged behind these calls. -/
def stagedAfter (staged : Bool) : List (Call N) → Bool
  | [] => staged
  | .pushRow _ :: calls => stagedAfter true calls
  | .flushRows :: calls => stagedAfter false calls
  | _ :: calls => stagedAfter staged calls

/-- No event is sent on its own while rows may be staged. -/
def Flushed (staged : Bool) : List (Call N) → Prop
  | [] => True
  | .send _ :: calls => staged = false ∧ Flushed staged calls
  | .pushRow _ :: calls => Flushed true calls
  | .flushRows :: calls => Flushed false calls
  | _ :: calls => Flushed staged calls

theorem stagedAfter_append (staged : Bool) (first second : List (Call N)) :
    stagedAfter staged (first ++ second) = stagedAfter (stagedAfter staged first) second := by
  induction first generalizing staged with
  | nil => rfl
  | cons call first ih => cases call <;> exact ih _

theorem flushed_append (staged : Bool) (first second : List (Call N)) :
    Flushed staged (first ++ second) ↔
      Flushed staged first ∧ Flushed (stagedAfter staged first) second := by
  induction first generalizing staged with
  | nil => simp [Flushed, stagedAfter]
  | cons call first ih => cases call <;> simp [Flushed, stagedAfter, ih, and_assoc]

@[simp] theorem flushed_nil (staged : Bool) : Flushed staged ([] : List (Call N)) := trivial

/-- A batch that is gone does no harm. -/
theorem Flushed.gone {calls : List (Call N)} (h : Flushed true calls) : Flushed false calls := by
  induction calls with
  | nil => trivial
  | cons call calls ih =>
      cases call with
      | send event => exact absurd h.1 (by decide)
      | pushRow row => exact h
      | flushRows => exact h
      | pushBatch row => exact ih h
      | flushBatch => exact ih h
      | record message => exact ih h

/-! ## The turns of the drain -/

/-- The calls of a turn are flushed, and rows stay staged for a set that has been started only. -/
structure Keeps (staged : Bool) (turn : Turn N) : Prop where
  flushed : Flushed staged turn.calls
  started : ∀ st, turn.next = .go st → stagedAfter staged turn.calls = true → st.started = true

theorem Keeps.silent {staged : Bool} {st : DrainState N} (h : staged = true → st.started = true) :
    Keeps staged ⟨[], .go st⟩ where
  flushed := flushed_nil staged
  started st' hgo hstaged := by
    obtain rfl := Next.go.inj hgo
    exact h hstaged

theorem Keeps.stops {staged : Bool} {calls : List (Call N)} (h : Flushed staged calls)
    (result : Checked.Exec NzError (ParsedQueryResult N)) (synced : Bool) :
    Keeps staged ⟨calls, .ends result synced⟩ where
  flushed := h
  started _ hgo := by cases hgo

theorem Keeps.flushes {staged : Bool} {calls : List (Call N)} (h : Flushed staged calls)
    (hgone : stagedAfter staged calls = false) (st : DrainState N) :
    Keeps staged ⟨calls, .go st⟩ where
  flushed := h
  started _ _ hstaged := by simp [hgone] at hstaged

/-- The start of a set is sent before its first row is staged. -/
theorem emitResultStart_flushed {staged : Bool} {st : DrainState N}
    (h : staged = true → st.started = true) (set : RowSet N) :
    Flushed staged (st.emitResultStart set).1 ∧
      stagedAfter staged (st.emitResultStart set).1 = staged ∧
      (st.emitResultStart set).2.started = true := by
  by_cases hstarted : st.started = true
  · simp [DrainState.emitResultStart, hstarted, stagedAfter]
  · have hstaged : staged = false := by simpa using mt h hstarted
    simp [DrainState.emitResultStart, hstarted, hstaged, Flushed, stagedAfter]

/-- A set is finished behind a flush, so no row is staged when the next one begins. -/
theorem finishResponseSet_flushed (staged : Bool) (st : DrainState N) :
    Flushed staged (st.finishResponseSet .events).1 ∧
      stagedAfter staged (st.finishResponseSet .events).1 = false := by
  cases hcurrent : st.current with
  | none => simp [DrainState.finishResponseSet, hcurrent, Flushed, stagedAfter]
  | some set =>
      by_cases hstarted : st.started = true
      · simp [DrainState.finishResponseSet, DrainState.emitResultStart, hcurrent, hstarted, Flushed,
          stagedAfter]
      · simp [DrainState.finishResponseSet, DrainState.emitResultStart, hcurrent, hstarted, Flushed,
          stagedAfter]

section Handle

variable {staged : Bool} {st : DrainState N}

theorem handleRow_keeps (h : staged = true → st.started = true) (set : RowSet N)
    (built : Checked.Exec NzError (NzError ⊕ StoredRow N)) :
    Keeps staged (handleRow .events st set built) := by
  rcases built with fault | e | row
  · exact .stops (flushed_nil staged) _ _
  · exact .silent h
  · obtain ⟨hflushed, hstaged, hstarted⟩ := emitResultStart_flushed h set
    constructor
    · simp [handleRow, DrainState.deliver, flushed_append, hflushed, Flushed]
    · intro st' hgo _
      obtain rfl := Next.go.inj hgo
      exact hstarted

theorem handleRowDescription_keeps (data : Bytes) :
    Keeps staged (handleRowDescription .events st data) := by
  obtain ⟨hflushed, hgone⟩ := finishResponseSet_flushed staged st
  unfold handleRowDescription
  cases parseRowDescription data with
  | error e => exact .stops hflushed _ _
  | ok columns => exact .flushes hflushed hgone _

theorem handleRowDescriptionStandard_keeps (h : staged = true → st.started = true)
    (data : Bytes) : Keeps staged (handleRowDescriptionStandard st data) := by
  unfold handleRowDescriptionStandard
  cases DbosTupleDesc.parse data st.cachedColumns with
  | error e => exact .stops (flushed_nil staged) _ _
  | ok desc => exact .silent h

theorem handleCommandComplete_keeps (h : staged = true → st.started = true) (data : Bytes) :
    Keeps staged (handleCommandComplete .events st data) := by
  unfold handleCommandComplete
  dsimp only
  generalize hcounted : ({ st with
    transaction := _
    rowsAffected := _ } : DrainState N) = counted
  have hkept : staged = true → counted.started = true := by
    subst hcounted
    exact h
  cases hcurrent : st.current with
  | none =>
      dsimp only
      obtain ⟨hflushed, hgone⟩ := finishResponseSet_flushed false counted
      apply Keeps.flushes
      · simp [Flushed, hflushed]
      · simp [stagedAfter, hgone]
  | some set =>
      dsimp only
      obtain ⟨hstart, -, -⟩ := emitResultStart_flushed hkept set
      obtain ⟨hflushed, hgone⟩ := finishResponseSet_flushed false (counted.emitResultStart set).2
      apply Keeps.flushes
      · simp [flushed_append, Flushed, hstart, hflushed]
      · simp [stagedAfter_append, stagedAfter, hgone]

theorem handleNotice_keeps (h : staged = true → st.started = true) (data : Bytes) :
    Keeps staged (handleNotice .events st data) := by
  unfold handleNotice
  by_cases hempty : (parseBackendErrorFields data).message.isEmpty = true
  · simpa [hempty] using Keeps.silent h
  · simp only [hempty]
    exact .flushes (by simp [Flushed]) rfl _

theorem handleReady_keeps : Keeps staged (handleReady .events st) := by
  obtain ⟨hflushed, -⟩ := finishResponseSet_flushed staged st
  unfold handleReady
  dsimp only
  split
  · exact .stops hflushed _ _
  · split
    · exact .stops hflushed _ _
    · split
      · exact .stops hflushed _ _
      · exact .stops hflushed _ _

theorem handle_keeps (ops : NumberOps N) (policy : RowPolicy)
    (h : staged = true → st.started = true) (msg : Msg) :
    Keeps staged (handle ops .events policy st msg) := by
  cases msg with
  | nothing => exact .silent h
  | dbosRow desc payload =>
      cases payload with
      | none => exact .silent h
      | some payload =>
          have hcounted : staged = true → (st.countRow (st.openSet
              (st.cachedColumns.getD desc.toColumnDescs))).started = true := h
          exact handleRow_keeps hcounted _ _
  | textRow columns payload =>
      cases payload with
      | none => exact .silent h
      | some payload =>
          have hcounted : staged = true → (st.countRow (st.openSet columns)).started = true := h
          exact handleRow_keeps hcounted _ _
  | rowDescription data => exact handleRowDescription_keeps data
  | rowDescriptionStandard data => exact handleRowDescriptionStandard_keeps h data
  | commandComplete data => exact handleCommandComplete_keeps h data
  | notice data => exact handleNotice_keeps h data
  | error data => exact .silent h
  | ready => exact handleReady_keeps

end Handle

/-- However far a drain comes, it sends no event on its own over staged rows. -/
theorem drainLoop_flushed (ops : NumberOps N) (files : ExternalFiles) (policy : RowPolicy)
    (fuel : Nat) {st : DrainState N} (session : Response.Inner.Session) {staged : Bool}
    (h : staged = true → st.started = true) :
    Flushed staged (drainLoop ops files .events policy fuel st session).calls := by
  induction fuel generalizing st session staged with
  | zero => trivial
  | succ fuel ih =>
      simp only [drainLoop]
      cases receive .events policy files fuel st session with
      | mk outcome sent peer =>
          cases outcome with
          | unfinished => trivial
          | error e => trivial
          | ok msg =>
              have hturn := handle_keeps ops policy h msg
              dsimp only
              cases hnext : (handle ops .events policy st msg).next with
              | ends result synced => exact hturn.flushed
              | go st' =>
                  exact (flushed_append _ _ _).mpr
                    ⟨hturn.flushed, ih peer (hturn.started st' hnext)⟩

theorem drainResponseInner_flushed (ops : NumberOps N) (files : ExternalFiles)
    (policy : RowPolicy) (fuel : Nat) (transaction : Bool) (session : Response.Inner.Session) :
    Flushed false (drainResponseInner ops files .events policy fuel transaction session).calls :=
  drainLoop_flushed ops files policy fuel session (by simp)

end NzRust.Events
