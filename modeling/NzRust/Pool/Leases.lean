import NzRust.Connection.Scopes
import NzRust.Lib.Erasure
import NzRust.Pool.Sync

/-!
# Sessions behind the pool

The pool with the server session at the other end of every connection: whether it
is inside a transaction. The queue gives connections out at its front and takes
them back at its end, so the sessions of the idle connections are a list beside
it. Borrowers run batches and may close. Without the sessions a run is a run of
the pool.
-/

namespace NzRust.SyncPool.Leases

open Tasks

/-! ## The model -/

/-- A task, and whether the session of the connection it holds is inside a transaction. -/
structure Held where
  task : Task
  serverOpen : Bool := false

structure Floor where
  inner : PoolInner
  sessions : List Bool := []

/-- What happens to a task: something the pool sees, or what a borrower does with its lease. -/
inductive Event where
  | pool (signal : Signal)
  | ran (b : Batch)
  | closed
  | rolledBack (send : SendOutcome) (drain : DrainOutcome) (executed : Nat)

/-- The rollback of a release, as a batch. -/
def rollbackBatch (send : SendOutcome) (drain : DrainOutcome) (executed : Nat) : Batch :=
  ⟨"ROLLBACK".toList, send, drain, executed⟩

/-- What the pool sees of an event. -/
def Held.signal (t : Held) : Event → Option Signal
  | .pool (.used _) => none
  | .pool (.rolledBack _ _) => none
  | .pool signal => some signal
  | .ran b =>
      match t.task with
      | .leased lease => some (.used (lease.conn.runBatch b.sql b.send b.drain))
      | _ => none
  | .closed =>
      match t.task with
      | .leased lease => some (.used lease.conn.close)
      | _ => none
  | .rolledBack send drain _ => some (.rolledBack send drain)

/-- The session behind the event. An entry that leaves the queue brings its own, a new connection
has a new one. -/
def Held.sessionAfter (t : Held) (s : Floor) (inner : PoolInner) (event : Event) : Bool :=
  match t.task, event with
  | .getting, _ => s.sessions.getD (s.inner.idle.length - inner.idle.length - 1) false
  | .connecting, _ | .refillConnecting, _ => false
  | .leased lease, .ran b => (Session.run ⟨lease.conn, t.serverOpen⟩ b).serverOpen
  | .rollingBack lease, .rolledBack send drain executed =>
      (Session.run ⟨lease.conn, t.serverOpen⟩ (rollbackBatch send drain executed)).serverOpen
  | _, _ => t.serverOpen

/-- The sessions of the queue behind a step of the pool. -/
def Floor.follow (s : Floor) (inner : PoolInner) (session : Bool) : List Bool :=
  if s.inner.idle.length < inner.idle.length then s.sessions ++ [session]
  else s.sessions.drop (s.inner.idle.length - inner.idle.length)

def act (config : NzPoolConfig) (s : Floor) (t : Held) (event : Event) :
    Option (Floor × List Held) :=
  match t.signal event with
  | none => none
  | some signal =>
      match SyncPool.act config s.inner t.task signal with
      | none => none
      | some (inner, ts) =>
          let session := t.sessionAfter s inner event
          some (⟨inner, s.follow inner session⟩, ts.map fun u => ⟨u, session⟩)

abbrev program (config : NzPoolConfig) : Program Floor Held Event where
  starts t := SyncPool.starts t.task
  act := act config

/-- The sessions of the warm-up are new ones. -/
def start (s : Soup PoolInner Task) : Soup Floor Held :=
  ⟨⟨s.shared, List.replicate s.shared.idle.length false⟩, []⟩

def leases (config : NzPoolConfig) :
    Transition.System (Soup Floor Held) (Action Held Event) :=
  (program config).system fun s =>
    ∃ connects plain, new config connects = .ok plain ∧ s = start plain

/-- Every batch that a borrower runs is one that the driver can track. -/
def tracked (s : Soup Floor Held) : Action Held Event → Prop
  | .run i (.ran b) =>
      ∀ t lease, s.tasks[i]? = some t → t.task = .leased lease →
        b.tracked ⟨lease.conn, t.serverOpen⟩
  | _ => True

/-! ## Without the sessions -/

section Erasure

variable {config : NzPoolConfig}

theorem act_cases {s s' : Floor} {t : Held} {event : Event} {ts : List Held}
    (h : act config s t event = some (s', ts)) :
    ∃ signal inner us, t.signal event = some signal ∧
      SyncPool.act config s.inner t.task signal = some (inner, us) ∧
      s' = ⟨inner, s.follow inner (t.sessionAfter s inner event)⟩ ∧
      ts = us.map fun u => ⟨u, t.sessionAfter s inner event⟩ := by
  unfold act at h
  split at h
  · cases h
  next signal hsignal =>
    split at h
    · cases h
    next inner us hact =>
      cases h
      exact ⟨signal, inner, us, hsignal, hact, rfl, rfl⟩

theorem erases : (program config).Erases (SyncPool.program config) Floor.inner Held.task where
  starts t h := h
  act s t event s' ts h := by
    obtain ⟨signal, inner, us, -, hact, rfl, rfl⟩ := act_cases h
    refine ⟨signal, ?_⟩
    simpa only [List.map_map, Function.comp_def, List.map_id'] using hact

theorem start_erase {connects : Nat → Option Nat} {plain : Soup PoolInner Task}
    (h : new config connects = .ok plain) :
    (start plain).erase Floor.inner Held.task = plain := by
  unfold new at h
  split at h
  · cases h
  · cases h
    rfl

/-- A run with the sessions is a run of the pool. -/
theorem reachable_pool {s : Soup Floor Held} (h : (leases config).Reachable s) :
    (pool config).Reachable (s.erase Floor.inner Held.task) := by
  refine erases.reachable ?_ h
  rintro s ⟨connects, plain, hnew, rfl⟩
  rw [start_erase hnew]
  exact ⟨connects, hnew⟩

end Erasure

/-! ## Connections in hand and at rest -/

/-- A faulted connection is closed. -/
def Sealed (c : Connection) : Prop :=
  c.protocolFaulted = true → c.connected = false

theorem Sealed.markFaultedAfter {c : Connection} (h : Sealed c) (synced : Bool) (e : NzError) :
    Sealed (c.markFaultedAfter synced e) := by
  unfold Connection.markFaultedAfter
  split
  · exact h
  · split
    · exact fun _ => rfl
    · exact fun hfaulted => Bool.noConfusion hfaulted
    · split
      · exact h
      · exact fun hfaulted => Bool.noConfusion hfaulted
    · exact h

theorem Sealed.restoreTxOnError {c : Connection} (h : Sealed c) (sql : Text) (prev : Bool) :
    Sealed (c.restoreTxOnError sql prev) := by
  unfold Connection.restoreTxOnError
  split <;> exact h

@[simp] theorem markFaultedAfter_executing (c : Connection) (synced : Bool) (e : NzError) :
    (c.markFaultedAfter synced e).executing = c.executing := by
  unfold Connection.markFaultedAfter
  split
  · rfl
  · split <;> first | rfl | (split <;> rfl)

@[simp] theorem restoreTxOnError_executing (c : Connection) (sql : Text) (prev : Bool) :
    (c.restoreTxOnError sql prev).executing = c.executing := by
  unfold Connection.restoreTxOnError
  split <;> rfl

/-- What every command leaves: a connection that is not executing, and closed when it faulted. -/
structure Steady (c : Connection) : Prop where
  executing : c.executing = false
  isSealed : Sealed c

theorem Steady.sent_failed {c : Connection} (h : Sealed c) (prev : Bool) (e : NzError) :
    Steady (c.afterSendError prev e) := by
  refine ⟨rfl, ?_⟩
  refine Sealed.markFaultedAfter ?_ false e
  split <;> exact h

theorem Steady.drained {c : Connection} (h : Sealed c) (sql : Text) (prev : Bool)
    (drain : DrainOutcome) : Steady (c.afterDrain sql prev drain) := by
  cases drain with
  | finished => exact ⟨rfl, h⟩
  | sinkFailed e =>
      refine ⟨by rw [Connection.afterDrain, restoreTxOnError_executing], ?_⟩
      exact Sealed.restoreTxOnError (c := { c with executing := false }) h sql prev
  | failed e inFrame decodeSynced =>
      simp only [Connection.afterDrain]
      split
      · have htimeout : Sealed (c.afterDrainTimeout inFrame) := by
          unfold Connection.afterDrainTimeout
          split
          · exact h.markFaultedAfter false _
          · exact h
        refine ⟨by rw [markFaultedAfter_executing, restoreTxOnError_executing], ?_⟩
        exact (Sealed.restoreTxOnError
          (c := { c.afterDrainTimeout inFrame with executing := false }) htimeout sql
          prev).markFaultedAfter false _
      · refine ⟨by rw [markFaultedAfter_executing, restoreTxOnError_executing], ?_⟩
        exact (Sealed.restoreTxOnError (c := { c with executing := false }) h sql
          prev).markFaultedAfter decodeSynced e

theorem Steady.runBatch {c : Connection} (h : Steady c) (sql : Text) (send : SendOutcome)
    (drain : DrainOutcome) : Steady (c.runBatch sql send drain) := by
  unfold Connection.runBatch
  split
  · exact h
  · have hpending : Sealed { c with
        executing := true
        inTransaction := (transactionStateOf sql).1.getD c.inTransaction } := h.isSealed
    split
    · exact Steady.sent_failed hpending _ _
    · exact Steady.drained hpending _ _ _

/-- A steady connection that is not closed can be used. -/
theorem Steady.usable {c : Connection} (h : Steady c) (hopen : c.connected = true) :
    c.canExecute = true := by
  have hfaulted : c.protocolFaulted = false := by
    cases hf : c.protocolFaulted with
    | false => rfl
    | true => rw [h.isSealed hf] at hopen; cases hopen
  simp only [Connection.canExecute, hfaulted, hopen, h.executing, Bool.not_false, Bool.and_self]

/-- A connection in a borrower's hands, against its session. -/
structure InHand (c : Connection) (serverOpen : Bool) : Prop where
  steady : Steady c
  sound : FlagSound ⟨c, serverOpen⟩

theorem InHand.ran {c : Connection} {serverOpen : Bool} (h : InHand c serverOpen) {b : Batch}
    (hb : b.tracked ⟨c, serverOpen⟩) :
    InHand (c.runBatch b.sql b.send b.drain) (Session.run ⟨c, serverOpen⟩ b).serverOpen :=
  ⟨h.steady.runBatch _ _ _, flagSound_step h.sound hb⟩

theorem InHand.close {c : Connection} {serverOpen : Bool} (h : InHand c serverOpen) :
    InHand c.close serverOpen := by
  refine ⟨⟨h.steady.executing, fun _ => rfl⟩, ?_⟩
  intro husable _
  simp [Connection.canExecute, Connection.close] at husable

/-- A connection on its way into the queue, or in it. -/
structure AtRest (config : NzPoolConfig) (c : Connection) (serverOpen : Bool) : Prop where
  hand : InHand c serverOpen
  connected : c.connected = true
  clean : config.rollbackOnRelease = true → c.inTransaction = false

theorem AtRest.fresh (config : NzPoolConfig) : AtRest config {} false where
  hand := ⟨⟨rfl, fun h => Bool.noConfusion h⟩, fun _ h => Bool.noConfusion h⟩
  connected := rfl
  clean _ := rfl

/-- The session of a connection at rest is outside of any transaction, if the pool rolls back. -/
theorem AtRest.closed {config : NzPoolConfig} {c : Connection} {serverOpen : Bool}
    (h : AtRest config c serverOpen) (hroll : config.rollbackOnRelease = true) :
    serverOpen = false := by
  cases hopen : serverOpen with
  | false => rfl
  | true =>
      have hflag : c.inTransaction = true := h.hand.sound (h.hand.steady.usable h.connected) hopen
      rw [h.clean hroll] at hflag
      cases hflag

/-- A rollback is tracked whatever becomes of it: it opens nothing. -/
theorem rollback_tracked (s : Session) (send : SendOutcome) (drain : DrainOutcome)
    (executed : Nat) : (rollbackBatch send drain executed).tracked s := by
  refine ⟨show Sql.alike "ROLLBACK".toList = true by decide, fun _ => .inr ?_⟩
  rw [List.any_eq_false]
  intro t ht
  have hmem : t ∈ serverStatements "ROLLBACK".toList := by
    unfold Batch.ran at ht
    split at ht
    · cases ht
    · split at ht
      · exact ht
      · exact List.mem_of_mem_take ht
  have hnone : ∀ t ∈ serverStatements "ROLLBACK".toList, ¬ opensTransaction t = true := by decide
  exact hnone t hmem

/-- A rollback that succeeds brings the connection to rest. -/
theorem InHand.rolledBack {config : NzPoolConfig} {c : Connection} {serverOpen : Bool}
    (h : InHand c serverOpen) {send : SendOutcome} {drain : DrainOutcome} (executed : Nat)
    (hok : (rollback c send drain).1 = true) :
    AtRest config (rollback c send drain).2
      (Session.run ⟨c, serverOpen⟩ (rollbackBatch send drain executed)).serverOpen := by
  refine ⟨h.ran (rollback_tracked _ send drain executed), ?_, fun _ => rollback_inTransaction hok⟩
  simp only [rollback, Bool.and_eq_true, Option.isNone_iff_eq_none, beq_iff_eq] at hok
  obtain ⟨⟨hcan, hsent⟩, rfl⟩ := hok
  have hnul : ("ROLLBACK".toList.contains '\x00' || !c.canExecute) = false := by
    rw [hcan]
    decide
  have hopen : c.connected = true := by
    simp only [Connection.canExecute, Bool.and_eq_true] at hcan
    exact hcan.1.2
  simp only [rollback, Connection.runBatch, hnul, hsent]
  exact hopen

/-! ## What every step keeps -/

section Steps

variable {config : NzPoolConfig} {s s' : Floor} {t : Held} {event : Event} {ts : List Held}

def Held.Good (config : NzPoolConfig) (t : Held) : Prop :=
  match t.task with
  | .leased lease => InHand lease.conn t.serverOpen
  | .rollingBack lease => InHand lease.conn t.serverOpen
  | .settling lease false => AtRest config lease.conn t.serverOpen
  | .refilled conn => AtRest config conn t.serverOpen
  | _ => True

def Floor.Good (config : NzPoolConfig) (s : Floor) : Prop :=
  List.Forall₂ (fun entry serverOpen => AtRest config entry.conn serverOpen) s.inner.idle s.sessions

/-- What `get` may leave behind: a lease is at rest when it is handed out. -/
def Held.Handed (config : NzPoolConfig) (t : Held) : Prop :=
  match t.task with
  | .leased lease => AtRest config lease.conn t.serverOpen
  | .rollingBack _ | .settling _ _ | .refilled _ => False
  | _ => True

theorem Held.Handed.good (h : t.Handed config) : t.Good config := by
  obtain ⟨task, o⟩ := t
  cases task with
  | leased lease => exact AtRest.hand h
  | rollingBack lease => exact False.elim h
  | settling lease destroy => exact False.elim h
  | refilled conn => exact False.elim h
  | _ => trivial

theorem forall_one {P : Held → Prop} {u : Task} {o : Bool} (h : P ⟨u, o⟩) :
    ∀ v ∈ [u].map (fun u => (⟨u, o⟩ : Held)), P v := by
  intro v hv
  rw [List.map_cons, List.map_nil, List.mem_singleton] at hv
  rw [hv]
  exact h

theorem forall_none {P : Held → Prop} {o : Bool} :
    ∀ v ∈ ([] : List Task).map (fun u => (⟨u, o⟩ : Held)), P v := by
  intro v hv
  cases hv

/-- The walk of `get` takes entries off the front of the queue, the one it keeps last. -/
theorem takeFresh_some {probes : Nat → Probe} {i : Nat} {idle : List IdleConn} {s s' : PoolInner}
    {entry : IdleConn} (h : takeFresh config probes i idle s = (some entry, s')) :
    ∃ stale, idle = stale ++ entry :: s'.idle := by
  induction idle generalizing i s with
  | nil => cases h
  | cons first rest ih =>
      unfold takeFresh at h
      split at h
      · cases h
        exact ⟨[], rfl⟩
      · obtain ⟨stale, hstale⟩ := ih h
        exact ⟨first :: stale, by rw [hstale, List.cons_append]⟩

theorem takeFresh_none {probes : Nat → Probe} {i : Nat} {idle : List IdleConn} {s s' : PoolInner}
    (h : takeFresh config probes i idle s = (none, s')) : s'.idle = [] := by
  induction idle generalizing i s with
  | nil =>
      cases h
      rfl
  | cons first rest ih =>
      unfold takeFresh at h
      split at h
      · cases h
      · exact ih h

/-- Behind a step that shortens the queue at its front. -/
theorem Floor.Good.drop (h : s.Good config) {inner : PoolInner} {front : List IdleConn}
    (hfront : s.inner.idle = front ++ inner.idle) (o : Bool) :
    Floor.Good config ⟨inner, s.follow inner o⟩ := by
  have hlength : s.inner.idle.length - inner.idle.length = front.length := by
    rw [hfront, List.length_append, Nat.add_sub_cancel]
  have hnot : ¬ s.inner.idle.length < inner.idle.length := by
    rw [hfront, List.length_append]
    omega
  have hdrop := List.forall₂_drop front.length h
  rw [hfront, List.drop_left] at hdrop
  simpa only [Floor.Good, Floor.follow, if_neg hnot, hlength] using hdrop

theorem Floor.Good.push (h : s.Good config) {inner : PoolInner} {entry : IdleConn} {o : Bool}
    (hinner : inner.idle = s.inner.idle ++ [entry]) (hentry : AtRest config entry.conn o) :
    Floor.Good config ⟨inner, s.follow inner o⟩ := by
  have hlt : s.inner.idle.length < inner.idle.length := by
    rw [hinner, List.length_append, List.length_singleton]
    omega
  have happend : List.Forall₂ (fun entry serverOpen => AtRest config entry.conn serverOpen)
      (s.inner.idle ++ [entry]) (s.sessions ++ [o]) :=
    List.rel_append h (List.Forall₂.cons hentry .nil)
  rw [← hinner] at happend
  simpa only [Floor.Good, Floor.follow, if_pos hlt] using happend

theorem Floor.Good.closed (h : s.Good config) (hroll : config.rollbackOnRelease = true) :
    ∀ o ∈ s.sessions, o = false := by
  unfold Floor.Good at h
  generalize s.inner.idle = idle, s.sessions = sessions at h ⊢
  induction h with
  | nil =>
      intro o ho
      cases ho
  | cons hfirst hrest ih =>
      intro o ho
      rcases List.mem_cons.mp ho with rfl | hmem
      · exact hfirst.closed hroll
      · exact ih o hmem

/-- A step that leaves the queue alone. -/
theorem Floor.Good.same (h : s.Good config) {inner : PoolInner}
    (hinner : inner.idle = s.inner.idle) (o : Bool) : Floor.Good config ⟨inner, s.follow inner o⟩ :=
  h.drop (show s.inner.idle = [] ++ inner.idle from hinner.symm) o

/-- The session of the entry that the walk has kept. -/
theorem Floor.Good.kept (h : s.Good config) {inner : PoolInner} {stale : List IdleConn}
    {entry : IdleConn} (hidle : s.inner.idle = stale ++ entry :: inner.idle) :
    AtRest config entry.conn
      (s.sessions.getD (s.inner.idle.length - inner.idle.length - 1) false) := by
  have hlength : s.inner.idle.length - inner.idle.length - 1 = stale.length := by
    rw [hidle, List.length_append, List.length_cons]
    omega
  have hdrop := List.forall₂_drop stale.length h
  rw [hidle, List.drop_left] at hdrop
  rw [hlength]
  cases hsessions : s.sessions.drop stale.length with
  | nil =>
      rw [hsessions] at hdrop
      cases hdrop
  | cons o rest =>
      rw [hsessions, List.forall₂_cons] at hdrop
      have hget : s.sessions[stale.length]? = some o := by
        rw [← List.head?_drop, hsessions]
        rfl
      rw [List.getD_eq_getElem?_getD, hget]
      exact hdrop.1

/-- What `get` hands out is at rest, and so is what is left in the queue. -/
theorem getting_good {o : Bool} (h : act config s ⟨.getting, o⟩ event = some (s', ts))
    (hs : s.Good config) : s'.Good config ∧ ∀ u ∈ ts, u.Handed config := by
  obtain ⟨signal, inner, us, -, hact, rfl, rfl⟩ := act_cases h
  cases signal with
  | looked probes expired =>
      simp only [SyncPool.act, get] at hact
      split at hact
      · cases hact
        exact ⟨hs.same rfl _, forall_one trivial⟩
      · split at hact
        next entry walked hwalk =>
          cases hact
          obtain ⟨stale, hstale⟩ := takeFresh_some hwalk
          have hfront : s.inner.idle = (stale ++ [entry]) ++ inner.idle := by
            rw [hstale, List.append_assoc, List.singleton_append]
          exact ⟨hs.drop hfront _, forall_one (hs.kept hstale)⟩
        next walked hwalk =>
          have hempty := takeFresh_none hwalk
          have hall : ∀ inner : PoolInner, inner.idle = walked.idle →
              s.inner.idle = s.inner.idle ++ inner.idle := by
            intro inner hinner
            rw [hinner, hempty, List.append_nil]
          split at hact
          · cases hact
            exact ⟨hs.drop (hall _ rfl) _, forall_one trivial⟩
          · split at hact
            · cases hact
              exact ⟨hs.drop (hall _ rfl) _, forall_one trivial⟩
            · cases hact
              exact ⟨hs.drop (hall _ rfl) _, forall_one trivial⟩
  | _ => cases hact

/-- A connection that `get` has established has a session of its own. -/
theorem connecting_good {o : Bool} (h : act config s ⟨.connecting, o⟩ event = some (s', ts))
    (hs : s.Good config) : s'.Good config ∧ ∀ u ∈ ts, u.Handed config := by
  obtain ⟨signal, inner, us, -, hact, rfl, rfl⟩ := act_cases h
  cases signal with
  | connected now =>
      cases hact
      exact ⟨hs.same rfl _, forall_one (AtRest.fresh config)⟩
  | refused error =>
      cases hact
      exact ⟨hs.same rfl _, forall_one trivial⟩
  | _ => cases hact

theorem mustDestroy_connected {lease : PooledConnection} {error : Option NzError} {now : Nat}
    (h : mustDestroy config lease error now = false) : lease.conn.connected = true := by
  simp only [mustDestroy, Bool.or_eq_false_iff, Bool.not_eq_false'] at h
  exact h.2

/-- A borrower's commands keep the lease against its session, and a release brings it to rest or
destroys it. -/
theorem leased_good {lease : PooledConnection} {o : Bool}
    (h : act config s ⟨.leased lease, o⟩ event = some (s', ts)) (hs : s.Good config)
    (ht : InHand lease.conn o)
    (htracked : ∀ b, event = .ran b → b.tracked ⟨lease.conn, o⟩) :
    s'.Good config ∧ ∀ u ∈ ts, u.Good config := by
  obtain ⟨signal, inner, us, hsignal, hact, rfl, rfl⟩ := act_cases h
  cases event with
  | ran b =>
      cases hsignal
      cases hact
      exact ⟨hs.same rfl _, forall_one (ht.ran (htracked b rfl))⟩
  | closed =>
      cases hsignal
      cases hact
      exact ⟨hs.same rfl _, forall_one ht.close⟩
  | rolledBack send drain executed =>
      cases hsignal
      cases hact
  | pool plain =>
      cases plain with
      | released error now =>
          cases hsignal
          simp only [SyncPool.act, releaseWith] at hact
          split at hact
          · cases hact
            exact ⟨hs.same rfl _, forall_one trivial⟩
          next hkeep =>
            split at hact
            · cases hact
              exact ⟨hs.same rfl _, forall_one ht⟩
            next hnone =>
              cases hact
              refine ⟨hs.same rfl _, forall_one ⟨ht, ?_, ?_⟩⟩
              · exact mustDestroy_connected (Bool.not_eq_true _ ▸ hkeep)
              · intro hroll
                rw [hroll, Bool.true_and, Bool.not_eq_true] at hnone
                exact hnone
      | used conn => cases hsignal
      | rolledBack send drain => cases hsignal
      | _ =>
          cases hsignal
          cases hact

/-- A step of a task that is neither a checkout at the queue nor a lease. -/
theorem other_good {task : Task} {o : Bool} (h : act config s ⟨task, o⟩ event = some (s', ts))
    (hs : s.Good config) (ht : Held.Good config ⟨task, o⟩) (hgetting : task ≠ .getting)
    (hconnecting : task ≠ .connecting) (hleased : ∀ lease, task ≠ .leased lease) :
    s'.Good config ∧ ∀ u ∈ ts, u.Good config := by
  obtain ⟨signal, inner, us, hsignal, hact, rfl, rfl⟩ := act_cases h
  cases task with
  | getting => exact absurd rfl hgetting
  | connecting => exact absurd rfl hconnecting
  | leased lease => exact absurd rfl (hleased lease)
  | waiting =>
      cases signal with
      | woken =>
          cases hact
          exact ⟨hs.same rfl _, forall_one trivial⟩
      | timedOut =>
          simp only [SyncPool.act, get] at hact
          split at hact
          · cases hact
            exact ⟨hs.same rfl _, forall_one trivial⟩
          · cases hact
      | _ => cases hact
  | undoing error =>
      cases signal with
      | proceed now =>
          cases hact
          exact ⟨hs.same rfl _, forall_one trivial⟩
      | _ => cases hact
  | rejected error =>
      cases signal with
      | proceed now =>
          cases hact
          exact ⟨hs.same rfl _, forall_none⟩
      | _ => cases hact
  | rollingBack lease =>
      cases signal with
      | rolledBack send drain =>
          cases hact
          refine ⟨hs.same rfl _, forall_one ?_⟩
          cases event with
          | rolledBack send' drain' executed =>
              cases hsignal
              cases hok : (rollback lease.conn send drain).1 with
              | false => exact trivial
              | true => exact InHand.rolledBack ht executed hok
          | pool plain => cases plain <;> cases hsignal
          | ran b => cases hsignal
          | closed => cases hsignal
      | _ => cases hact
  | settling lease destroy =>
      cases signal with
      | proceed now =>
          simp only [SyncPool.act, releaseWith] at hact
          split at hact
          · cases hact
            exact ⟨hs.same rfl _, forall_one trivial⟩
          next hkeep =>
            cases hact
            simp only [Bool.or_eq_true, not_or, Bool.not_eq_true] at hkeep
            obtain ⟨rfl, -⟩ := hkeep
            exact ⟨hs.push rfl ht, forall_none⟩
      | _ => cases hact
  | discarding conn =>
      cases signal with
      | proceed now =>
          cases hact
          exact ⟨hs.same rfl _, forall_one trivial⟩
      | _ => cases hact
  | refilling =>
      cases signal with
      | proceed now =>
          simp only [SyncPool.act, ensureMin] at hact
          split at hact
          · cases hact
            exact ⟨hs.same rfl _, forall_one trivial⟩
          · cases hact
            exact ⟨hs.same rfl _, forall_none⟩
      | _ => cases hact
  | refillConnecting =>
      cases signal with
      | connected now =>
          cases hact
          exact ⟨hs.same rfl _, forall_one (AtRest.fresh config)⟩
      | refused error =>
          cases hact
          exact ⟨hs.same rfl _, forall_none⟩
      | _ => cases hact
  | refilled conn =>
      cases signal with
      | proceed now =>
          simp only [SyncPool.act, ensureMin] at hact
          split at hact
          · cases hact
            exact ⟨hs.push rfl ht, forall_none⟩
          · cases hact
            exact ⟨hs.same rfl _, forall_none⟩
      | _ => cases hact
  | closing =>
      cases signal with
      | proceed now =>
          cases hact
          have hall : s.inner.idle = s.inner.idle ++ (close s.inner).idle := by
            rw [close, discountAll_idle, List.append_nil]
          exact ⟨hs.drop hall _, forall_none⟩
      | _ => cases hact

theorem act_good (h : act config s t event = some (s', ts)) (hs : s.Good config)
    (ht : t.Good config)
    (htracked : ∀ b lease, event = .ran b → t.task = .leased lease →
      b.tracked ⟨lease.conn, t.serverOpen⟩) :
    s'.Good config ∧ ∀ u ∈ ts, u.Good config := by
  obtain ⟨task, o⟩ := t
  cases task with
  | getting =>
      obtain ⟨hshared, hhanded⟩ := getting_good h hs
      exact ⟨hshared, fun u hu => (hhanded u hu).good⟩
  | connecting =>
      obtain ⟨hshared, hhanded⟩ := connecting_good h hs
      exact ⟨hshared, fun u hu => (hhanded u hu).good⟩
  | leased lease => exact leased_good h hs ht fun b hb => htracked b lease hb rfl
  | _ =>
      exact other_good h hs ht (by intro h; cases h) (by intro h; cases h) (by intro _ h; cases h)

end Steps

/-! ## Every interleaving -/

/-- The queue and everything in hand, against their sessions. -/
structure Kept (config : NzPoolConfig) (s : Soup Floor Held) : Prop where
  floor : s.shared.Good config
  tasks : ∀ t ∈ s.tasks, t.Good config

variable {config : NzPoolConfig}

theorem warmUp_fresh (connects : Nat → Option Nat) (n : Nat) {s : PoolInner}
    (h : ∀ entry ∈ s.idle, entry.conn = {}) :
    ∀ entry ∈ (warmUp config connects n s).idle, entry.conn = {} := by
  induction n generalizing s with
  | zero => exact h
  | succ n ih =>
      unfold warmUp
      split
      · exact h
      · split
        · exact h
        · refine ih ?_
          intro entry hentry
          rcases List.mem_append.mp hentry with hold | hnew
          · exact h entry hold
          · rw [List.mem_singleton.mp hnew]

theorem kept_start {connects : Nat → Option Nat} {plain : Soup PoolInner Task}
    (h : new config connects = .ok plain) : Kept config (start plain) := by
  have hfresh : ∀ entry ∈ plain.shared.idle, entry.conn = {} := by
    unfold new at h
    split at h
    · cases h
    · cases h
      refine warmUp_fresh connects config.min ?_
      intro entry hentry
      cases hentry
  refine ⟨?_, ?_⟩
  · show List.Forall₂ _ plain.shared.idle (List.replicate plain.shared.idle.length false)
    generalize plain.shared.idle = idle at hfresh
    induction idle with
    | nil => exact .nil
    | cons entry rest ih =>
        refine .cons ?_ (ih fun e he => hfresh e (List.mem_cons_of_mem _ he))
        rw [hfresh entry List.mem_cons_self]
        exact .fresh config
  · intro t ht
    cases ht

theorem kept_step {s s' : Soup Floor Held} {a : Action Held Event} (hs : Kept config s)
    (htracked : tracked s a) (hstep : (program config).step s a = some s') : Kept config s' := by
  cases a with
  | spawn t =>
      obtain ⟨hstart, rfl⟩ := Program.step_spawn hstep
      refine ⟨hs.floor, ?_⟩
      intro u hu
      rcases List.mem_append.mp hu with hold | hnew
      · exact hs.tasks u hold
      · rw [List.mem_singleton.mp hnew]
        obtain ⟨task, o⟩ := t
        cases task with
        | getting => trivial
        | closing => trivial
        | _ => cases hstart
  | run i event =>
      obtain ⟨pre, t, post, shared, ts, htasks, hget, hact, rfl⟩ := Program.step_run hstep
      have ht : t.Good config := hs.tasks t (List.mem_of_getElem? hget)
      obtain ⟨hshared, hnew⟩ := act_good hact hs.floor ht (by
        intro b lease hb hlease
        subst hb
        exact htracked t lease hget hlease)
      refine ⟨hshared, ?_⟩
      intro u hu
      rcases List.mem_append.mp hu with hpre | hrest
      · exact hs.tasks u (by rw [htasks]; exact List.mem_append_left _ hpre)
      · rcases List.mem_append.mp hrest with hts | hpost
        · exact hnew u hts
        · refine hs.tasks u ?_
          rw [htasks]
          exact List.mem_append_right _ (List.mem_cons_of_mem _ hpost)

theorem kept_of_reachable {s : Soup Floor Held}
    (h : ((leases config).guarded tracked).Reachable s) : Kept config s := by
  refine h.invariant ?_ ?_
  · rintro s ⟨connects, plain, hnew, rfl⟩
    exact kept_start hnew
  · rintro s a s' hs ⟨htracked, hstep⟩
    exact kept_step hs htracked hstep

end NzRust.SyncPool.Leases
