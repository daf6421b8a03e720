import NzRust.Lib.Transition
import NzRust.Sql.Split

/-!
# The transaction flag

`in_transaction` is set from a parse of the batch before the packet leaves and
repaired on the error paths from a second parse. The session beside it runs the
statements of the batch, cut with the lexer's rules, up to the first one that
fails. The send and the drain are given by their outcomes.
-/

namespace NzRust

open Sql Transition

/-! ## Boundaries in the SQL text -/

def firstWordUpper (text : Text) : Text :=
  text.takeWhile fun c => c.isAlphanum || c == '_'

def isTransactionStart (text : Text) : Bool :=
  let w := (firstWordUpper text).map Char.toLower
  w == "begin".toList || w == "start".toList

def isTransactionEnd (text : Text) : Bool :=
  let w := (firstWordUpper text).map Char.toLower
  w == "commit".toList || w == "rollback".toList || w == "end".toList || w == "abort".toList

/-- What a statement does to the transaction: open it, close it or neither. -/
def boundaryOf (statement : Text) : Option Bool :=
  let text := trim statement
  if text.isEmpty then none
  else if isTransactionStart text then some true
  else if isTransactionEnd text then some false
  else none

/-- The loop of `parse_transaction_state`: the last boundary, and whether one opened. -/
def boundaryLoop : List Text → Option Bool → Bool → Option Bool × Bool
  | [], state, hadStart => (state, hadStart)
  | statement :: statements, state, hadStart =>
      match boundaryOf statement with
      | some true => boundaryLoop statements (some true) true
      | some false => boundaryLoop statements (some false) hadStart
      | none => boundaryLoop statements state hadStart

def transactionStateOf (sql : Text) : Option Bool × Bool :=
  boundaryLoop (splitStatements sql) none false

/-! ## The driver -/

/-- The part of `NzConnection` that a batch reads and writes. -/
structure Connection where
  inTransaction : Bool := false
  connected : Bool := true
  protocolFaulted : Bool := false
  executing : Bool := false
  protocolSyncRequired : Bool := false
  deriving DecidableEq, Repr

def isCommandTimeout : NzError → Bool
  | .timeout _ => true
  | .io kind => kind == .timedOut || kind == .wouldBlock
  | _ => false

def mapIoCommandError (kind : IoErrorKind) : NzError :=
  match kind with
  | .timedOut | .wouldBlock => .timeout "Command execution timeout"
  | _ => .io kind

namespace Connection

def canExecute (c : Connection) : Bool :=
  !c.protocolFaulted && c.connected && !c.executing

/-- `mark_protocol_fault` on the fields kept here. -/
def markProtocolFault (c : Connection) : Connection :=
  { c with protocolFaulted := true, connected := false }

def markFaultedAfter (c : Connection) (decodeErrorSynced : Bool) (error : NzError) : Connection :=
  if decodeErrorSynced then c
  else
    match error with
    | .protocol _ => c.markProtocolFault
    | .closed _ => { c.markProtocolFault with protocolFaulted := false }
    | .io _ =>
        if isCommandTimeout error then c
        else { c.markProtocolFault with protocolFaulted := false }
    | _ => c

def restoreTxOnError (c : Connection) (sql : Text) (prev : Bool) : Connection :=
  match transactionStateOf sql with
  | (some false, hadStart) => { c with inTransaction := prev || hadStart }
  | (none, _) => { c with inTransaction := prev }
  | (some true, _) => { c with inTransaction := true }

end Connection

/-- How `send_query_packet` ends. A failed write or flush may come after the packet was delivered. -/
inductive SendOutcome where
  | sent
  | notSent (error : NzError)
  | lostAtWrite (kind : IoErrorKind)
  | lostAtFlush (kind : IoErrorKind)
  deriving DecidableEq, Repr

def SendOutcome.error : SendOutcome → Option NzError
  | .sent => none
  | .notSent error => some error
  | .lostAtWrite kind => some (mapIoCommandError kind)
  | .lostAtFlush kind => some (.io kind)

def SendOutcome.delivered : SendOutcome → Bool
  | .notSent _ => false
  | _ => true

/-- How the drain ends. Only a streamed batch has a sink; `inFrame` says that a timeout fell inside
a backend message, `decodeSynced` that only a value failed to decode. -/
inductive DrainOutcome where
  | finished
  | sinkFailed (error : NzError)
  | failed (error : NzError) (inFrame decodeSynced : Bool)
  deriving DecidableEq, Repr

namespace Connection

/-- The send fails: the flag goes back to its value before the batch. -/
def afterSendError (c : Connection) (prev : Bool) (error : NzError) : Connection :=
  let restored := { c with inTransaction := prev }
  let marked := if isCommandTimeout error then { restored with protocolSyncRequired := true }
    else restored
  { marked.markFaultedAfter false error with executing := false }

/-- What the drain itself leaves behind a timeout. -/
def afterDrainTimeout (c : Connection) (inFrame : Bool) : Connection :=
  if inFrame then c.markFaultedAfter false (.closed "command timed out inside a backend message")
  else { c with protocolSyncRequired := true }

def afterDrain (c : Connection) (sql : Text) (prev : Bool) : DrainOutcome → Connection
  | .finished => { c with executing := false }
  | .sinkFailed _ => { c with executing := false }.restoreTxOnError sql prev
  | .failed error inFrame decodeSynced =>
      if isCommandTimeout error then
        ({ c.afterDrainTimeout inFrame with executing := false }.restoreTxOnError sql
          prev).markFaultedAfter false (.timeout "Command execution timeout")
      else
        ({ c with executing := false }.restoreTxOnError sql prev).markFaultedAfter decodeSynced
          error

/-- `run_batch_with_duration` and `run_batch_stream_with_duration`, which differ only in that the
second can end in a sink error. -/
def runBatch (c : Connection) (sql : Text) (send : SendOutcome) (drain : DrainOutcome) :
    Connection :=
  if sql.contains '\x00' || !c.canExecute then c
  else
    let pending := { c with
      executing := true
      inTransaction := (transactionStateOf sql).1.getD c.inTransaction }
    match send.error with
    | some error => pending.afterSendError c.inTransaction error
    | none => pending.afterDrain sql c.inTransaction drain

end Connection

/-! ## The server session -/

/-- The statements as the server cuts them. -/
def serverStatements (sql : Text) : List Text :=
  (splitPushes lexerRules sql).map statementText

/-- The session's transaction after the statements have run. -/
def runStatements (isOpen : Bool) : List Text → Bool
  | [] => isOpen
  | statement :: statements => runStatements ((boundaryOf statement).getD isOpen) statements

/-- One batch and what became of it. -/
structure Batch where
  sql : Text
  send : SendOutcome
  drain : DrainOutcome
  executed : Nat
  deriving DecidableEq, Repr

/-- The statements that the server ran: all of them when the drain finished, none when the packet
never reached it. -/
def Batch.ran (b : Batch) (c : Connection) : List Text :=
  if b.sql.contains '\x00' || !c.canExecute || !b.send.delivered then []
  else if b.send.error.isNone && b.drain == .finished then serverStatements b.sql
  else (serverStatements b.sql).take b.executed

structure Session where
  driver : Connection := {}
  serverOpen : Bool := false
  deriving DecidableEq, Repr

def Session.run (s : Session) (b : Batch) : Session where
  driver := s.driver.runBatch b.sql b.send b.drain
  serverOpen := runStatements s.serverOpen (b.ran s.driver)

def batches : System Session Batch where
  initial s := s = {}
  step s b s' := s' = s.run b

/-- Whenever the connection can be used and the session is inside a transaction, the flag says so. -/
def FlagSound (s : Session) : Prop :=
  s.driver.canExecute → s.serverOpen → s.driver.inTransaction

/-! ## What the two parses say about the statements that ran -/

def opensTransaction (statement : Text) : Bool :=
  boundaryOf statement == some true

theorem boundaryLoop_hadStart (statements : List Text) (state : Option Bool) (hadStart : Bool) :
    (boundaryLoop statements state hadStart).2 = (hadStart || statements.any opensTransaction) := by
  fun_induction boundaryLoop statements state hadStart with
  | case1 => simp
  | case2 state hadStart st sts h ih => simp [ih, opensTransaction, h]
  | case3 state hadStart st sts h ih => simp [ih, opensTransaction, h]
  | case4 state hadStart st sts h ih => simp [ih, opensTransaction, h]

theorem boundaryLoop_getD (statements : List Text) (state : Option Bool) (hadStart isOpen : Bool) :
    (boundaryLoop statements state hadStart).1.getD isOpen =
      runStatements (state.getD isOpen) statements := by
  fun_induction boundaryLoop statements state hadStart with
  | case1 => rfl
  | case2 state hadStart st sts h ih => rw [ih, runStatements, h]; rfl
  | case3 state hadStart st sts h ih => rw [ih, runStatements, h]; rfl
  | case4 state hadStart st sts h ih => rw [ih, runStatements, h]; rfl

/-- A transaction that is open afterwards was open before, or a statement opened it. -/
theorem runStatements_true {isOpen : Bool} {statements : List Text}
    (h : runStatements isOpen statements = true) :
    isOpen = true ∨ statements.any opensTransaction = true := by
  induction statements generalizing isOpen with
  | nil => exact .inl h
  | cons st sts ih =>
      rw [runStatements] at h
      rcases ih h with hfirst | hrest
      · cases hb : boundaryOf st with
        | none =>
            rw [hb] at hfirst
            exact .inl hfirst
        | some b =>
            rw [hb] at hfirst
            cases hfirst
            exact .inr (by simp [opensTransaction, hb])
      · exact .inr (by rw [List.any_cons, hrest, Bool.or_true])

/-- Without a boundary in the batch no prefix of it changes the transaction. -/
theorem boundaryOf_of_unchanged {statements : List Text} {hadStart : Bool}
    (h : (boundaryLoop statements none hadStart).1 = none) :
    ∀ st ∈ statements, boundaryOf st = none := by
  -- read the loop with both values of the flag: a boundary would make them agree
  intro st hst
  have hfalse := boundaryLoop_getD statements none hadStart false
  have htrue := boundaryLoop_getD statements none hadStart true
  rw [h] at hfalse htrue
  simp only [Option.getD_none] at hfalse htrue
  clear h
  induction statements with
  | nil => cases hst
  | cons head tail ih =>
      rw [runStatements] at hfalse htrue
      cases hb : boundaryOf head with
      | some b =>
          rw [hb, Option.getD_some] at hfalse htrue
          rw [← hfalse] at htrue
          cases htrue
      | none =>
          rw [hb] at hfalse htrue
          rcases List.mem_cons.mp hst with rfl | hmem
          · exact hb
          · exact ih hmem hfalse htrue

theorem runStatements_unchanged {statements : List Text} (isOpen : Bool)
    (h : ∀ st ∈ statements, boundaryOf st = none) :
    runStatements isOpen statements = isOpen := by
  induction statements with
  | nil => rfl
  | cons st sts ih =>
      rw [runStatements, h st List.mem_cons_self, Option.getD_none]
      exact ih fun x hx => h x (List.mem_cons_of_mem _ hx)

theorem any_take {statements : List Text} {k : Nat}
    (h : (statements.take k).any opensTransaction = true) :
    statements.any opensTransaction = true := by
  rw [List.any_eq_true] at *
  obtain ⟨st, hst, hopen⟩ := h
  exact ⟨st, List.mem_of_mem_take hst, hopen⟩

/-! ## The error paths -/

namespace Connection

@[simp] theorem markFaultedAfter_inTransaction (c : Connection) (synced : Bool) (error : NzError) :
    (c.markFaultedAfter synced error).inTransaction = c.inTransaction := by
  unfold markFaultedAfter
  repeat' split
  all_goals rfl

/-- A transport error that is no timeout retires the connection. -/
theorem markFaultedAfter_io {c : Connection} {kind : IoErrorKind}
    (h : isCommandTimeout (.io kind) = false) :
    (c.markFaultedAfter false (.io kind)).connected = false := by
  simp [markFaultedAfter, h, markProtocolFault]

@[simp] theorem afterSendError_inTransaction (c : Connection) (prev : Bool) (error : NzError) :
    (c.afterSendError prev error).inTransaction = prev := by
  simp only [afterSendError, markFaultedAfter_inTransaction]
  split <;> rfl

/-- After any prefix of the batch the repaired flag covers an open transaction. -/
theorem restoreTxOnError_covers {c : Connection} {sql : Text} {prev isOpen : Bool} {k : Nat}
    (halike : alike sql) (hprev : isOpen = true → prev = true)
    (h : runStatements isOpen ((serverStatements sql).take k) = true) :
    (c.restoreTxOnError sql prev).inTransaction = true := by
  have hsame : serverStatements sql = splitStatements sql := by
    rw [serverStatements, splitStatements, splitPushes_alike halike]
  rw [hsame] at h
  have hstart := boundaryLoop_hadStart (splitStatements sql) none false
  cases hstate : transactionStateOf sql with
  | mk state hadStart =>
      rw [transactionStateOf] at hstate
      rw [hstate] at hstart
      cases state with
      | none =>
          have hnone : ∀ st ∈ (splitStatements sql).take k, boundaryOf st = none := by
            intro st hst
            have hunchanged : (boundaryLoop (splitStatements sql) none false).1 = none := by
              rw [hstate]
            have hall := boundaryOf_of_unchanged hunchanged
            exact hall st (List.mem_of_mem_take hst)
          rw [runStatements_unchanged isOpen hnone] at h
          simp only [restoreTxOnError, transactionStateOf, hstate]
          exact hprev h
      | some state =>
          cases state with
          | true => simp only [restoreTxOnError, transactionStateOf, hstate]
          | false =>
              simp only [restoreTxOnError, transactionStateOf, hstate]
              rcases runStatements_true h with hopen | hany
              · rw [hprev hopen, Bool.true_or]
              · have : hadStart = true := by simpa [any_take hany] using hstart
                rw [this, Bool.or_true]

end Connection

/-! ## Soundness over runs -/

/-- The send timed out although the packet had been delivered. -/
def SendOutcome.lostByTimeout (send : SendOutcome) : Bool :=
  send.delivered && send.error.any isCommandTimeout

/-- Both lexers cut the batch alike, and a packet that was delivered although its send timed out
opened no transaction behind a flag that was down. -/
def Batch.tracked (s : Session) (b : Batch) : Prop :=
  alike b.sql ∧
    (b.send.lostByTimeout → s.driver.inTransaction ∨
      (b.ran s.driver).any opensTransaction = false)

theorem flagSound_send_error {s : Session} {b : Batch} {error : NzError}
    (hs : FlagSound s) (hok : (b.sql.contains '\x00' || !s.driver.canExecute) = false)
    (herror : b.send.error = some error) (htracked : b.tracked s) : FlagSound (s.run b) := by
  intro husable hopen
  have hdriver : (s.run b).driver =
      Connection.afterSendError { s.driver with
        executing := true
        inTransaction := (transactionStateOf b.sql).1.getD s.driver.inTransaction }
        s.driver.inTransaction error := by
    simp only [Session.run, Connection.runBatch, hok, herror, Bool.false_eq_true, if_false]
  have hcan : s.driver.canExecute := by
    simp only [Bool.or_eq_false_iff, Bool.not_eq_false'] at hok
    exact hok.2
  rw [hdriver, Connection.afterSendError_inTransaction]
  by_cases hdelivered : b.send.delivered
  · by_cases hlost : isCommandTimeout error
    · -- the packet ran: only a flag that was up before, or no opening statement, keeps the flag true
      rcases htracked.2 (by simp [SendOutcome.lostByTimeout, hdelivered, herror, hlost]) with
        hflag | hnone
      · exact hflag
      · rcases runStatements_true hopen with hbefore | hany
        · exact hs hcan hbefore
        · rw [hnone] at hany
          cases hany
    · -- any other transport error has closed the connection
      have hkind : ∃ kind, error = .io kind := by
        cases hsend : b.send with
        | sent => rw [hsend] at herror; cases herror
        | notSent e => rw [hsend] at hdelivered; cases hdelivered
        | lostAtWrite kind =>
            rw [hsend] at herror
            cases kind <;> cases herror <;> first | exact ⟨_, rfl⟩ | exact absurd rfl hlost
        | lostAtFlush kind =>
            rw [hsend] at herror
            cases herror
            exact ⟨kind, rfl⟩
      obtain ⟨kind, rfl⟩ := hkind
      rw [hdriver] at husable
      have hlost' : isCommandTimeout (.io kind) = false := by simpa using hlost
      simp [Connection.canExecute, Connection.afterSendError, hlost',
        Connection.markFaultedAfter_io hlost'] at husable
  · have hran : b.ran s.driver = [] := by simp [Batch.ran, hdelivered]
    have hbefore : s.serverOpen = true := by
      rw [Session.run, hran] at hopen
      exact hopen
    exact hs hcan hbefore

theorem flagSound_drain {s : Session} {b : Batch} (hs : FlagSound s)
    (hok : (b.sql.contains '\x00' || !s.driver.canExecute) = false)
    (hsent : b.send.error = none) (halike : alike b.sql) : FlagSound (s.run b) := by
  intro _ hopen
  have hcan : s.driver.canExecute := by
    simp only [Bool.or_eq_false_iff, Bool.not_eq_false'] at hok
    exact hok.2
  have hprev : s.serverOpen = true → s.driver.inTransaction = true := hs hcan
  have hdelivered : b.send.delivered = true := by
    cases hsend : b.send with
    | sent => rfl
    | notSent e => rw [hsend] at hsent; cases hsent
    | lostAtWrite kind => rfl
    | lostAtFlush kind => rfl
  have hdriver : (s.run b).driver =
      Connection.afterDrain { s.driver with
        executing := true
        inTransaction := (transactionStateOf b.sql).1.getD s.driver.inTransaction }
        b.sql s.driver.inTransaction b.drain := by
    simp only [Session.run, Connection.runBatch, hok, hsent, Bool.false_eq_true, if_false]
  have hran : b.ran s.driver = if b.drain = .finished then serverStatements b.sql
      else (serverStatements b.sql).take b.executed := by
    simp only [Batch.ran, hok, hdelivered, hsent, Bool.not_true, Bool.or_self, Bool.false_eq_true,
      if_false, Option.isNone_none, Bool.true_and, beq_iff_eq]
  rw [Session.run, hran] at hopen
  rw [hdriver]
  cases hdrain : b.drain with
  | finished =>
      have hsame : serverStatements b.sql = splitStatements b.sql := by
        rw [serverStatements, splitStatements, splitPushes_alike halike]
      have hend := boundaryLoop_getD (splitStatements b.sql) none false s.serverOpen
      simp only [hdrain, if_true, hsame] at hopen
      rw [Option.getD_none, hopen] at hend
      simp only [Connection.afterDrain, transactionStateOf]
      cases hstate : (boundaryLoop (splitStatements b.sql) none false).1 with
      | none =>
          rw [hstate] at hend
          exact hprev hend
      | some state =>
          rw [hstate] at hend
          exact hend
  | sinkFailed e =>
      simp only [hdrain, reduceCtorEq, if_false] at hopen
      exact Connection.restoreTxOnError_covers halike hprev hopen
  | failed e inFrame decodeSynced =>
      simp only [hdrain, reduceCtorEq, if_false] at hopen
      simp only [Connection.afterDrain]
      split
      · rw [Connection.markFaultedAfter_inTransaction]
        exact Connection.restoreTxOnError_covers halike hprev hopen
      · rw [Connection.markFaultedAfter_inTransaction]
        exact Connection.restoreTxOnError_covers halike hprev hopen

theorem flagSound_step {s : Session} {b : Batch} (hs : FlagSound s) (htracked : b.tracked s) :
    FlagSound (s.run b) := by
  cases hok : b.sql.contains '\x00' || !s.driver.canExecute with
  | true =>
      have hdriver : (s.run b).driver = s.driver := by
        simp only [Session.run, Connection.runBatch, hok, if_true]
      have hserver : (s.run b).serverOpen = s.serverOpen := by
        simp only [Session.run, Batch.ran, hok, Bool.true_or, if_true, runStatements]
      unfold FlagSound
      rw [hdriver, hserver]
      exact hs
  | false =>
      cases hsend : b.send.error with
      | some error => exact flagSound_send_error hs hok hsend htracked
      | none => exact flagSound_drain hs hok hsend htracked.1

/-- Along every run of tracked batches the flag covers an open transaction. -/
theorem flag_sound_of_tracked (s : Session)
    (h : (batches.guarded fun s b => b.tracked s).Reachable s) : FlagSound s := by
  refine h.invariant (P := FlagSound) ?_ ?_
  · intro s hs
    subst hs
    intro _ hopen
    cases hopen
  · intro s b s' hs hstep
    obtain ⟨htracked, rfl⟩ := hstep
    exact flagSound_step hs htracked

/-- A `BEGIN` that went through leaves the flag up, through a failing `COMMIT` after it. -/
theorem flag_after_failed_commit :
    FlagSound ((Session.run {} ⟨"BEGIN".toList, .sent, .finished, 1⟩).run
      ⟨"COMMIT".toList, .sent, .failed (.database {}) false false, 0⟩) :=
  flag_sound_of_tracked _
    (.move (.move (.start rfl) (a := ⟨"BEGIN".toList, .sent, .finished, 1⟩)
      ⟨⟨by decide, by decide⟩, rfl⟩)
      (a := ⟨"COMMIT".toList, .sent, .failed (.database {}) false false, 0⟩)
      ⟨⟨by decide, by decide⟩, rfl⟩)

/-- A `BEGIN` whose flush timed out after it was delivered opens a transaction behind the flag. -/
theorem flush_timeout_hides_begin :
    ¬ ∀ s : Session, batches.Reachable s → FlagSound s := by
  intro h
  have hreach : batches.Reachable
      (Session.run {} ⟨"BEGIN".toList, .lostAtFlush .timedOut, .finished, 1⟩) :=
    .move (.start rfl) (a := ⟨"BEGIN".toList, .lostAtFlush .timedOut, .finished, 1⟩) rfl
  have hflag := h _ hreach (by decide) (by decide)
  exact absurd hflag (by decide)

end NzRust
