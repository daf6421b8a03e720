import NzRust.Core.Text
import NzRust.Lib.Soup

/-!
# The native client, its driver and the backend

Client clones, the connection task and the backend session as tasks over one
shared state. A client future is a task whose constructors are its await
points, and it may be dropped at each of them. The driver's own state is part of
the shared state, since clients never see it and the backend does. Its pass over
the biased `select!` is two steps: it tests `closing`, then polls the queue, and
another thread may run in between.

A cancel packet travels on its own connection: it is a task of its own, and
meets whatever statement is running when it is delivered. Requests, transactions
and packets carry numbers that only the proofs look at.
-/

namespace NzRust.Driver

open Tasks

/-- The statements the driver tells apart by who sends them. -/
inductive Sql where
  | begin
  | commit
  | rollback
  | user (text : Text)
  deriving DecidableEq

/-- The statements that end a transaction. -/
def Sql.ends : Sql → Bool
  | .commit | .rollback => true
  | _ => false

inductive Kind where
  | probe
  | query
  | stream
  deriving DecidableEq

/-- A request in the queue. `leased` when it carries the session guard itself; the requests of a
transaction do not, their guard stays with the transaction that `owner` names. -/
structure Request where
  id : Nat
  kind : Kind
  sql : Sql
  leased : Bool
  owner : Option Nat
  deriving DecidableEq

/-- The atomics that the client clones and the driver share. -/
structure Control where
  active : Nat := 0
  next : Nat := 0
  cancelled : Nat := 0
  closing : Bool := false
  closed : Bool := false

/-- Where the connection task is. -/
inductive Phase where
  /-- At the top of its loop, before the test of `closing`. -/
  | testing
  /-- `closing` was not set; the queue is polled next. -/
  | tested
  /-- `idle_socket_is_healthy` of a probe. -/
  | probing (r : Request)
  /-- The first `select!` of `drive_operation`; `sent` once the statement is written. -/
  | racing (r : Request) (generation : Nat) (sent : Bool)
  /-- Interrupted, at `cancel_backend(..).await`. -/
  | cancelling (r : Request) (sent : Bool)
  /-- Interrupted, draining the rest of the response. -/
  | draining (r : Request) (sent : Bool)
  /-- The operation is over and its result about to be sent. -/
  | answering (r : Request) (ok reusable : Bool)
  /-- A request whose caller has gone, about to be dropped with its guard. -/
  | skipping (leased : Bool)
  /-- The request and its guard are about to be dropped. -/
  | releasing (leased reusable : Bool)
  /-- Before `active` is reset. -/
  | resetting (reusable : Bool)
  /-- Past the loop, before the queue is closed. -/
  | stopping
  /-- The queue is closed and drained. -/
  | emptying
  | exited

/-- The operation whose result has not been sent yet. -/
def Phase.current : Phase → Option Request
  | .probing r | .racing r _ _ | .cancelling r _ | .draining r _ | .answering r _ _ => some r
  | _ => none

structure Shared where
  control : Control := {}
  locked : Bool := false
  queue : List Request := []
  queueClosed : Bool := false
  phase : Phase := .testing
  nextId : Nat := 0
  /-- Requests whose caller has gone away. -/
  abandoned : List Nat := []
  /-- What the driver has answered. -/
  answers : List (Nat × Bool) := []
  /-- The transaction that holds the session guard. -/
  holder : Option Nat := none
  /-- Transactions whose `COMMIT` or `ROLLBACK` was answered with success. -/
  completed : List Nat := []
  /-- Statements on their way to the backend, the one it runs, and what it has answered. -/
  wire : List Nat := []
  running : Option Nat := none
  responses : List (Nat × Bool) := []
  /-- Which packet has interrupted which statement. -/
  hits : List (Nat × Nat) := []

/-- A query of an open transaction: waiting for room in the queue, or for its answer. -/
inductive Own where
  | sending (sql : Sql)
  | waiting (id : Nat)

inductive Task where
  /-- A query, stream or probe at `acquire_session().await`. -/
  | locking (kind : Kind) (sql : Sql)
  /-- It holds the guard and waits for room in the queue. -/
  | sending (kind : Kind) (sql : Sql)
  | waiting (id : Nat)
  /-- `Client::transaction` at `acquire_session().await`. -/
  | txLocking
  /-- Its `Transaction` exists; `BEGIN` waits for room in the queue. -/
  | txSending (tx : Nat)
  | txBeginning (tx : Nat) (id : Nat)
  /-- A transaction in the caller's hands, with the queries it is running. -/
  | txOpen (tx : Nat) (own : List Own)
  /-- `commit` or `rollback`, waiting for room in the queue. -/
  | txEnding (tx : Nat) (sql : Sql)
  | txFinal (tx : Nat) (id : Nat)
  /-- The task that the drop of a transaction spawns. -/
  | rbSending (tx : Nat)
  | rbWaiting (tx : Nat) (id : Nat)
  /-- About to call `Client::stop`, then to drop the guard. -/
  | rbStopping (tx : Nat)
  | rbReleasing (tx : Nat)
  /-- `Control::cancel`, before and after it has loaded `active`. -/
  | cancelling
  | cancelLoaded (generation : Nat)
  /-- `Client::close`. -/
  | closing
  | driver
  | backend
  /-- A cancel packet sent for this statement. -/
  | packet (id : Nat)

/-- What the scheduler and the outside world decide about a step. -/
inductive Signal where
  | proceed
  /-- The future is dropped; the drop may find no runtime. -/
  | drop (runtime : Bool)
  /-- A call on an open transaction: a new query, its `commit` or its `rollback`. -/
  | call (sql : Sql)
  /-- The same on its `i`-th query. -/
  | own (i : Nat)
  | dropOwn (i : Nat)
  /-- The 5 s of a cleanup, or the deadline of a statement. -/
  | timeout
  /-- The packet could not be sent or was lost, or the session was found closed. -/
  | lost
  /-- The response is malformed or the socket failed. -/
  | broken
  /-- The outcome of a probe or of a statement, or whether the session is in a transaction. -/
  | outcome (ok : Bool)

/-- Capacity of the request channel. -/
def capacity : Nat := 32

/-- Push a request, which takes the next number. -/
def Shared.push (s : Shared) (kind : Kind) (sql : Sql) (leased : Bool) (owner : Option Nat) :
    Shared :=
  { s with queue := s.queue ++ [⟨s.nextId, kind, sql, leased, owner⟩], nextId := s.nextId + 1 }

def Shared.hasRoom (s : Shared) : Bool :=
  !s.queueClosed && decide (s.queue.length < capacity)

/-- The answer to a request, once it is there. -/
def Shared.answer (s : Shared) (id : Nat) : Option Bool :=
  s.answers.lookup id

def Shared.unlock (s : Shared) : Shared :=
  { s with locked := false, holder := none }

/-- `Client::stop`, and the first half of `Client::close`. -/
def Shared.stop (s : Shared) : Shared :=
  { s with control := { s.control with closing := true } }

/-- The drop of a live transaction: a task that rolls back, or a stop where no runtime is left. -/
def dropTransaction (tx : Nat) (runtime : Bool) : Task :=
  if runtime then .rbSending tx else .rbStopping tx

/-- Queries, streams and probes of a client. -/
def clientAct (s : Shared) : Task → Signal → Option (Shared × List Task)
  | .locking kind sql, .proceed =>
      if s.locked then none else some ({ s with locked := true }, [.sending kind sql])
  | .locking _ _, .lost => if s.control.closed then some (s, []) else none
  | .locking _ _, .drop _ => some (s, [])
  | .sending kind sql, .proceed =>
      if s.queueClosed then some (s.unlock, [])
      else if s.hasRoom then some (s.push kind sql true none, [.waiting s.nextId])
      else none
  | .sending _ _, .drop _ => some (s.unlock, [])
  | .waiting id, .proceed => if (s.answer id).isSome then some (s, []) else none
  | .waiting id, .drop _ => some ({ s with abandoned := id :: s.abandoned }, [])
  | _, _ => none

/-- A query of an open transaction, with its place in the list of them. -/
def ownAct (s : Shared) (tx : Nat) (own : List Own) (i : Nat) : Option (Shared × List Own) :=
  match own[i]? with
  | none => none
  | some (.sending sql) =>
      if s.queueClosed then some (s, own.eraseIdx i)
      else if s.hasRoom then
        some (s.push .query sql false (some tx), own.set i (.waiting s.nextId))
      else none
  | some (.waiting id) => if (s.answer id).isSome then some (s, own.eraseIdx i) else none

def dropOwnAct (s : Shared) (own : List Own) (i : Nat) : Option (Shared × List Own) :=
  match own[i]? with
  | none => none
  | some (.sending _) => some (s, own.eraseIdx i)
  | some (.waiting id) => some ({ s with abandoned := id :: s.abandoned }, own.eraseIdx i)

/-- `Client::transaction`, the calls on its `Transaction`, and its end. -/
def transactionAct (s : Shared) : Task → Signal → Option (Shared × List Task)
  | .txLocking, .outcome nested =>
      if s.locked then none
      else if nested then some (s, [])
      else
        -- The guard is taken and the `Transaction` built before the next await.
        some ({ s with locked := true, holder := some s.nextId, nextId := s.nextId + 1 },
          [.txSending s.nextId])
  | .txLocking, .lost => if s.control.closed then some (s, []) else none
  | .txLocking, .drop _ => some (s, [])
  | .txSending tx, .proceed =>
      if s.queueClosed then some (s, [dropTransaction tx true])
      else if s.hasRoom then
        some (s.push .query .begin false (some tx), [.txBeginning tx s.nextId])
      else none
  | .txSending tx, .drop runtime => some (s, [dropTransaction tx runtime])
  | .txBeginning tx id, .proceed =>
      match s.answer id with
      | none => none
      | some true => some (s, [.txOpen tx []])
      | some false => some (s, [dropTransaction tx true])
  | .txBeginning tx id, .drop runtime =>
      some ({ s with abandoned := id :: s.abandoned }, [dropTransaction tx runtime])
  | .txOpen tx own, .call sql =>
      if sql.ends then
        -- `commit` and `rollback` take the transaction by value: no query of it is left.
        if own.isEmpty then some (s, [.txEnding tx sql]) else none
      else some (s, [.txOpen tx (own ++ [.sending sql])])
  | .txOpen tx own, .own i =>
      match ownAct s tx own i with
      | none => none
      | some (s', own') => some (s', [.txOpen tx own'])
  | .txOpen tx own, .dropOwn i =>
      match dropOwnAct s own i with
      | none => none
      | some (s', own') => some (s', [.txOpen tx own'])
  | .txOpen tx [], .drop runtime => some (s, [dropTransaction tx runtime])
  | .txEnding tx sql, .proceed =>
      if s.queueClosed then some (s, [dropTransaction tx true])
      else if s.hasRoom then
        some (s.push .query sql false (some tx), [.txFinal tx s.nextId])
      else none
  | .txEnding tx _, .drop runtime => some (s, [dropTransaction tx runtime])
  | .txFinal tx id, .proceed =>
      match s.answer id with
      | none => none
      | some true => some (s.unlock, [])
      | some false => some (s, [dropTransaction tx true])
  | .txFinal tx id, .drop runtime =>
      some ({ s with abandoned := id :: s.abandoned }, [dropTransaction tx runtime])
  | .rbSending tx, .proceed =>
      if s.queueClosed then some (s, [.rbStopping tx])
      else if s.hasRoom then
        some (s.push .query .rollback false (some tx), [.rbWaiting tx s.nextId])
      else none
  | .rbSending tx, .timeout => some (s, [.rbStopping tx])
  | .rbWaiting tx id, .proceed =>
      match s.answer id with
      | none => none
      | some true => some (s, [.rbReleasing tx])
      | some false => some (s, [.rbStopping tx])
  | .rbWaiting tx id, .timeout =>
      some ({ s with abandoned := id :: s.abandoned }, [.rbStopping tx])
  | .rbStopping tx, .proceed => some (s.stop, [.rbReleasing tx])
  | .rbReleasing _, .proceed => some (s.unlock, [])
  | _, _ => none

/-- `Client::cancel` and `Client::close`. -/
def controlAct (s : Shared) : Task → Signal → Option (Shared × List Task)
  | .cancelling, .proceed =>
      if s.control.active = 0 then some (s, []) else some (s, [.cancelLoaded s.control.active])
  | .cancelLoaded generation, .proceed =>
      some ({ s with control := { s.control with
        cancelled := max s.control.cancelled generation } }, [])
  | .closing, .proceed => some (s.stop, [])
  | _, _ => none

/-- Something has interrupted the operation: a close, a cancel of its generation, or its caller. -/
def Shared.interrupts (s : Shared) (r : Request) (generation : Nat) : Bool :=
  s.control.closing || s.control.cancelled == generation || s.abandoned.contains r.id

/-- The response of the statement, once the backend has given it. -/
def Shared.response (s : Shared) (id : Nat) : Option Bool :=
  s.responses.lookup id

def Shared.write (s : Shared) (id : Nat) : Shared :=
  { s with wire := s.wire ++ [id] }

/-- The driver has read the response through its ReadyForQuery. -/
def Shared.consume (s : Shared) (id : Nat) : Shared :=
  { s with responses := s.responses.filter (·.1 != id) }

/-- The next request is taken off the queue. A statement whose caller has gone is skipped. -/
def take (s : Shared) (r : Request) (rest : List Request) : Shared :=
  let generation := s.control.next + 1
  let control := { s.control with next := generation, active := generation }
  if r.kind = .probe then { s with queue := rest, phase := .probing r, control := control }
  else if s.abandoned.contains r.id then
    { s with
      queue := rest, phase := .skipping r.leased, control := { control with active := 0 } }
  else { s with queue := rest, phase := .racing r generation false, control := control }

/-- `drive_operation`: the race, then the cleanup of an interrupted operation. -/
def operationAct (s : Shared) : Phase → Signal → Option (Shared × List Task)
  | .racing r generation sent, .proceed =>
      if sent then
        match s.response r.id with
        | none => none
        | some ok => some ({ s.consume r.id with phase := .answering r ok true }, [])
      else some ({ s.write r.id with phase := .racing r generation true }, [])
  | .racing r _ _, .broken => some ({ s with phase := .answering r false false }, [])
  | .racing r generation sent, .timeout =>
      some ({ s with
        phase := .cancelling r sent
        control := { s.control with cancelled := max s.control.cancelled generation } }, [])
  | .racing r generation sent, .drop _ =>
      if s.interrupts r generation then
        some ({ s with
          phase := .cancelling r sent
          control := { s.control with cancelled := max s.control.cancelled generation } }, [])
      else none
  | .cancelling r sent, .proceed => some ({ s with phase := .draining r sent }, [.packet r.id])
  | .cancelling r sent, .lost => some ({ s with phase := .draining r sent }, [])
  | .cancelling r _, .timeout => some ({ s with phase := .answering r false false }, [])
  -- The same with the packet already written.
  | .cancelling r _, .broken =>
      some ({ s with phase := .answering r false false }, [.packet r.id])
  | .draining r sent, .proceed =>
      if sent then
        match s.response r.id with
        | none => none
        | some _ => some ({ s.consume r.id with phase := .answering r false true }, [])
      else some ({ s.write r.id with phase := .draining r true }, [])
  | .draining r _, .broken => some ({ s with phase := .answering r false false }, [])
  | .draining r _, .timeout => some ({ s with phase := .answering r false false }, [])
  | _, _ => none

/-- The loop of `run_connection` around it. -/
def driverAct (s : Shared) (signal : Signal) : Option (Shared × List Task) :=
  match s.phase, signal with
  | .testing, .proceed =>
      some ({ s with phase := if s.control.closing then .stopping else .tested }, [])
  | .tested, .proceed =>
      match s.queue with
      | [] => some ({ s with phase := .testing }, [])
      | r :: rest => some (take s r rest, [])
  | .probing r, .outcome healthy => some ({ s with phase := .answering r healthy healthy }, [])
  | .answering r ok reusable, .proceed =>
      some ({ s with
        phase := .releasing r.leased reusable
        answers := (r.id, ok) :: s.answers
        completed := if ok && r.sql.ends then r.owner.toList ++ s.completed else s.completed },
        [])
  | .skipping leased, .proceed =>
      some ({ (if leased then s.unlock else s) with phase := .testing }, [])
  | .releasing leased reusable, .proceed =>
      some ({ (if leased then s.unlock else s) with phase := .resetting reusable }, [])
  | .resetting reusable, .proceed =>
      some ({ s with
        phase := if reusable then .testing else .stopping
        control := { s.control with active := 0 } }, [])
  | .stopping, .proceed => some ({ s with phase := .emptying, queueClosed := true }, [])
  | .emptying, .proceed =>
      match s.queue with
      | [] =>
          some ({ s with
            phase := .exited
            control := { s.control with active := 0, closed := true } }, [])
      | r :: rest =>
          some ({ (if r.leased then s.unlock else s) with
            queue := rest, answers := (r.id, false) :: s.answers }, [])
  | phase, signal => operationAct s phase signal

/-- The backend runs one statement at a time. -/
def backendAct (s : Shared) : Signal → Option (Shared × List Task)
  | .proceed =>
      match s.running, s.wire with
      | none, id :: rest => some ({ s with running := some id, wire := rest }, [])
      | _, _ => none
  | .outcome ok =>
      match s.running with
      | none => none
      | some id => some ({ s with running := none, responses := (id, ok) :: s.responses }, [])
  | _ => none

/-- A packet interrupts the statement that is running when it arrives. -/
def packetAct (s : Shared) (id : Nat) : Signal → Option (Shared × List Task)
  | .proceed =>
      match s.running with
      | none => some (s, [])
      | some victim => some ({ s with hits := (id, victim) :: s.hits }, [])
  | .lost => some (s, [])
  | _ => none

def act (s : Shared) (t : Task) (signal : Signal) : Option (Shared × List Task) :=
  match t with
  | .locking _ _ | .sending _ _ | .waiting _ => clientAct s t signal
  | .cancelling | .cancelLoaded _ | .closing => controlAct s t signal
  | .driver =>
      match driverAct s signal with
      | none => none
      | some (s', ts) => some (s', .driver :: ts)
  | .backend =>
      match backendAct s signal with
      | none => none
      | some (s', ts) => some (s', .backend :: ts)
  | .packet id => packetAct s id signal
  | _ => transactionAct s t signal

/-- The statement that a packet in flight was sent for. -/
def Task.packet? : Task → Option Nat
  | .packet id => some id
  | _ => none

/-- What any holder of a client clone may start. -/
def starts : Task → Bool
  | .locking _ _ | .txLocking | .cancelling | .closing => true
  | _ => false

abbrev program : Program Shared Task Signal where
  starts := starts
  act := act

abbrev Soup : Type :=
  Tasks.Soup Shared Task

abbrev Move : Type :=
  Action Task Signal

/-- A connected client, its driver and its backend. -/
def start : Soup :=
  ⟨{}, [.driver, .backend]⟩

/-- The client, the driver and the backend under every interleaving. -/
def session : Transition.System Soup Move :=
  program.system fun s => s = start

theorem exec_session (ok : Soup → Move → Bool) (as : List Move) (s : Soup)
    (h : program.exec ok start as = some s) :
    (session.guarded fun s a => ok s a = true).Reachable s :=
  Program.exec_reachable (.start rfl) h

/-! ## What the clients leave alone -/

section Frames

variable {s s' : Shared} {t : Task} {signal : Signal} {ts : List Task}

/-- A step that touches neither the driver nor the backend, and takes no stop back. -/
structure Apart (s s' : Shared) (ts : List Task) : Prop where
  phase : s'.phase = s.phase
  backend : (s'.wire, s'.running, s'.responses) = (s.wire, s.running, s.responses)
  hits : s'.hits = s.hits
  closing : s.control.closing = true → s'.control.closing = true
  packets : ∀ u ∈ ts, u.packet? = none

theorem dropTransaction_packet (tx : Nat) (runtime : Bool) :
    (dropTransaction tx runtime).packet? = none := by
  cases runtime <;> rfl

theorem clientAct_apart (h : clientAct s t signal = some (s', ts)) : Apart s s' ts := by
  unfold clientAct at h
  repeat' split at h
  all_goals first
    | cases h; done
    | obtain ⟨rfl, rfl⟩ := Prod.mk.inj (Option.some.inj h)
      exact ⟨rfl, rfl, rfl, fun hc => hc, by simp [Task.packet?]⟩

theorem controlAct_apart (h : controlAct s t signal = some (s', ts)) : Apart s s' ts := by
  unfold controlAct at h
  repeat' split at h
  all_goals first
    | cases h; done
    | obtain ⟨rfl, rfl⟩ := Prod.mk.inj (Option.some.inj h)
      exact ⟨rfl, rfl, rfl, fun _ => by first | rfl | assumption, by simp [Task.packet?]⟩

theorem ownAct_apart {tx i : Nat} {own own' : List Own}
    (h : ownAct s tx own i = some (s', own')) : Apart s s' [] := by
  unfold ownAct at h
  repeat' split at h
  all_goals first
    | cases h; done
    | obtain ⟨rfl, rfl⟩ := Prod.mk.inj (Option.some.inj h)
      exact ⟨rfl, rfl, rfl, fun hc => hc, nofun⟩

theorem dropOwnAct_apart {i : Nat} {own own' : List Own}
    (h : dropOwnAct s own i = some (s', own')) : Apart s s' [] := by
  unfold dropOwnAct at h
  repeat' split at h
  all_goals first
    | cases h; done
    | obtain ⟨rfl, rfl⟩ := Prod.mk.inj (Option.some.inj h)
      exact ⟨rfl, rfl, rfl, fun hc => hc, nofun⟩

theorem transactionAct_apart (h : transactionAct s t signal = some (s', ts)) :
    Apart s s' ts := by
  unfold transactionAct at h
  split at h
  case h_9 tx own i =>
    split at h
    · cases h
    · next hown =>
      obtain ⟨rfl, rfl⟩ := Prod.mk.inj (Option.some.inj h)
      have hapart := ownAct_apart hown
      exact { hapart with packets := by simp [Task.packet?] }
  case h_10 tx own i =>
    split at h
    · cases h
    · next hown =>
      obtain ⟨rfl, rfl⟩ := Prod.mk.inj (Option.some.inj h)
      have hapart := dropOwnAct_apart hown
      exact { hapart with packets := by simp [Task.packet?] }
  all_goals
    repeat' split at h
    all_goals first
      | cases h; done
      | obtain ⟨rfl, rfl⟩ := Prod.mk.inj (Option.some.inj h)
        refine ⟨rfl, rfl, rfl, fun _ => by first | rfl | assumption, ?_⟩
        first
          | simp [Task.packet?]; done
          | exact List.forall_mem_singleton.mpr (dropTransaction_packet _ _)

/-- A step is one of the driver, the backend or a packet, or leaves all three alone. -/
theorem act_cases (h : act s t signal = some (s', ts)) :
    (t = .driver ∧ ∃ us, driverAct s signal = some (s', us) ∧ ts = .driver :: us) ∨
    (t = .backend ∧ ∃ us, backendAct s signal = some (s', us) ∧ ts = .backend :: us) ∨
    (∃ id, t = .packet id ∧ packetAct s id signal = some (s', ts)) ∨
    (t.packet? = none ∧ Apart s s' ts) := by
  unfold act at h
  split at h
  case h_7 =>
    split at h
    · cases h
    · next us hdriver =>
      obtain ⟨rfl, rfl⟩ := Prod.mk.inj (Option.some.inj h)
      exact .inl ⟨rfl, us, hdriver, rfl⟩
  case h_8 =>
    split at h
    · cases h
    · next us hbackend =>
      obtain ⟨rfl, rfl⟩ := Prod.mk.inj (Option.some.inj h)
      exact .inr (.inl ⟨rfl, us, hbackend, rfl⟩)
  case h_9 id => exact .inr (.inr (.inl ⟨id, rfl, h⟩))
  case h_10 =>
    refine .inr (.inr (.inr ⟨?_, transactionAct_apart h⟩))
    cases t with
    | packet id => simp [transactionAct] at h
    | _ => rfl
  case h_1 => exact .inr (.inr (.inr ⟨rfl, clientAct_apart h⟩))
  case h_2 => exact .inr (.inr (.inr ⟨rfl, clientAct_apart h⟩))
  case h_3 => exact .inr (.inr (.inr ⟨rfl, clientAct_apart h⟩))
  case h_4 => exact .inr (.inr (.inr ⟨rfl, controlAct_apart h⟩))
  case h_5 => exact .inr (.inr (.inr ⟨rfl, controlAct_apart h⟩))
  case h_6 => exact .inr (.inr (.inr ⟨rfl, controlAct_apart h⟩))

end Frames

end NzRust.Driver
