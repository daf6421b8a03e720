import NzRust.Connection.Transaction
import NzRust.Lib.Soup

/-!
# The synchronous connection pool

The blocking pool as tasks over the state behind its mutex. Every thread inside
`get`, every checked-out connection, every refill and every `close` is a task; a
step is one lock section, or one thing that happens between two of them. The
outside world gives the clock, the health of an idle socket and the outcomes of
connects and rollbacks; what a caller does with its connection may leave it in
any state.
-/

namespace NzRust

open Tasks

structure NzPoolConfig where
  max : Nat := 10
  min : Nat := 0
  idleTimeout : Nat := 10000000000
  waitTimeout : Option Nat := none
  maxUses : Option Nat := none
  maxLifetime : Option Nat := none
  rollbackOnRelease : Bool := true

def NzPoolConfig.validate (config : NzPoolConfig) : NzResult Unit :=
  if config.max = 0 then .error (.config "Pool max must be a positive integer")
  else if config.max < config.min then .error (.config "Pool min must be between 0 and max")
  else .ok ()

namespace SyncPool

structure IdleConn where
  conn : Connection
  idleSince : Nat
  uses : Nat
  born : Nat

/-- The state behind the mutex. `saturated` records that a `saturating_sub` has found zero. -/
structure PoolInner where
  idle : List IdleConn := []
  total : Nat := 0
  closed : Bool := false
  saturated : Bool := false

/-- `total.saturating_sub(1)`. -/
def PoolInner.deduct (s : PoolInner) : PoolInner :=
  { s with total := s.total - 1, saturated := s.saturated || s.total == 0 }

structure PooledConnection where
  conn : Connection
  uses : Nat
  born : Nat

/-- What the tests on an idle entry read: the clock and the socket. -/
structure Probe where
  now : Nat
  healthy : Bool

def isFresh (config : NzPoolConfig) (probe : Probe) (idle : IdleConn) (total : Nat) : Bool :=
  !config.maxLifetime.any (fun limit => limit ≤ probe.now - idle.born) &&
    !config.maxUses.any (fun limit => limit ≤ idle.uses) &&
    (config.idleTimeout == 0 || decide (probe.now - idle.idleSince < config.idleTimeout) ||
      decide (total ≤ config.min)) &&
    idle.conn.connected && probe.healthy

/-- A thread in the pool or a connection outside of it, at the point it has reached. -/
inductive Task where
  /-- `get`, about to lock or to lock again. -/
  | getting
  /-- `get` in the wait for a release. -/
  | waiting
  /-- `get` at `NzConnection::connect`, its connection counted. -/
  | connecting
  /-- `get` after a failed connect, before it locks again. -/
  | undoing (error : NzError)
  /-- `get` about to return this error. -/
  | rejected (error : NzError)
  /-- A connection in the caller's hands. -/
  | leased (lease : PooledConnection)
  /-- `release_with` at its rollback. -/
  | rollingBack (lease : PooledConnection)
  /-- `release_with` before its lock section. -/
  | settling (lease : PooledConnection) (destroy : Bool)
  /-- `release_with` closing the connection it has discounted. -/
  | discarding (conn : Connection)
  /-- `ensure_min` before its first lock section. -/
  | refilling
  /-- `ensure_min` at `NzConnection::connect`, nothing counted yet. -/
  | refillConnecting
  /-- `ensure_min` before its second lock section. -/
  | refilled (conn : Connection)
  /-- `close`, or the drop of the pool. -/
  | closing

/-- What a task learns from outside when it takes its next step. -/
inductive Signal where
  | proceed (now : Nat)
  /-- What `get` reads on its way through the idle queue, and whether its deadline has passed. -/
  | looked (probes : Nat → Probe) (expired : Bool)
  /-- The wait ends, by a notification or without one. -/
  | woken
  | timedOut
  | connected (now : Nat)
  | refused (error : NzError)
  /-- The caller's commands leave the connection in this state. -/
  | used (conn : Connection)
  /-- `release_with`; the drop of a lease is one without an error. -/
  | released (error : Option NzError) (now : Nat)
  | rolledBack (send : SendOutcome) (drain : DrainOutcome)

def closedError : NzError := .closed "Cannot use a pool after calling close()"

def timeoutError : NzError := .timeout "Timeout exceeded when trying to connect"

/-- The `while let` over the idle queue: the first fresh entry, the stale ones destroyed. -/
def takeFresh (config : NzPoolConfig) (probes : Nat → Probe) :
    Nat → List IdleConn → PoolInner → Option IdleConn × PoolInner
  | _, [], s => (none, { s with idle := [] })
  | i, entry :: rest, s =>
      if isFresh config (probes i) entry s.total then (some entry, { s with idle := rest })
      else takeFresh config probes (i + 1) rest s.deduct

/-- `get`, one lock section at a time. -/
def get (config : NzPoolConfig) (s : PoolInner) : Task → Signal → Option (PoolInner × List Task)
  | .getting, .looked probes expired =>
      if s.closed then some (s, [.rejected closedError])
      else
        match takeFresh config probes 0 s.idle s with
        | (some entry, s) => some (s, [.leased ⟨entry.conn, entry.uses + 1, entry.born⟩])
        | (none, s) =>
            if s.total < config.max then some ({ s with total := s.total + 1 }, [.connecting])
            else if config.waitTimeout.isSome && expired then some (s, [.rejected timeoutError])
            else some (s, [.waiting])
  | .waiting, .woken => some (s, [.getting])
  | .waiting, .timedOut =>
      if config.waitTimeout.isSome then some (s, [.rejected timeoutError]) else none
  | .connecting, .connected now => some (s, [.leased ⟨{}, 1, now⟩])
  | .connecting, .refused error => some (s, [.undoing error])
  | .undoing error, .proceed _ => some (s.deduct, [.rejected error])
  | .rejected _, .proceed _ => some (s, [])
  | _, _ => none

/-- The tests of `release_with` before its rollback: SQL errors keep the session. -/
def mustDestroy (config : NzPoolConfig) (lease : PooledConnection) (error : Option NzError)
    (now : Nat) : Bool :=
  error.any (fun e =>
      match e with
      | .database _ => false
      | _ => true) ||
    config.maxUses.any (fun limit => limit ≤ lease.uses) ||
    config.maxLifetime.any (fun limit => limit ≤ now - lease.born) || !lease.conn.connected

/-- `NzConnection::rollback`: whether it succeeds, and the connection it leaves. -/
def rollback (conn : Connection) (send : SendOutcome) (drain : DrainOutcome) : Bool × Connection :=
  (conn.canExecute && send.error.isNone && drain == .finished,
    conn.runBatch "ROLLBACK".toList send drain)

/-- The way of a lease back into the queue or out of the books. -/
def releaseWith (config : NzPoolConfig) (s : PoolInner) :
    Task → Signal → Option (PoolInner × List Task)
  | .leased lease, .used conn => some (s, [.leased { lease with conn := conn }])
  | .leased lease, .released error now =>
      if mustDestroy config lease error now then some (s, [.settling lease true])
      else if config.rollbackOnRelease && lease.conn.inTransaction then
        some (s, [.rollingBack lease])
      else some (s, [.settling lease false])
  | .rollingBack lease, .rolledBack send drain =>
      let r := rollback lease.conn send drain
      some (s, [.settling { lease with conn := r.2 } (!r.1)])
  | .settling lease destroy, .proceed now =>
      if destroy || s.closed then some (s.deduct, [.discarding lease.conn])
      else some ({ s with idle := s.idle ++ [⟨lease.conn, now, lease.uses, lease.born⟩] }, [])
  | .discarding _, .proceed _ => some (s, [.refilling])
  | _, _ => none

/-- `ensure_min`: the refill is counted when it joins the queue. -/
def ensureMin (config : NzPoolConfig) (s : PoolInner) :
    Task → Signal → Option (PoolInner × List Task)
  | .refilling, .proceed _ =>
      if s.total < config.min && !s.closed then some (s, [.refillConnecting]) else some (s, [])
  | .refillConnecting, .connected _ => some (s, [.refilled {}])
  | .refillConnecting, .refused _ => some (s, [])
  | .refilled conn, .proceed now =>
      if !s.closed && s.total < config.max then
        some ({ s with idle := s.idle ++ [⟨conn, now, 0, now⟩], total := s.total + 1 }, [])
      else some (s, [])
  | _, _ => none

/-- The loop of `close` over the idle queue. -/
def discountAll : List IdleConn → PoolInner → PoolInner
  | [], s => { s with idle := [] }
  | _ :: rest, s => discountAll rest s.deduct

def close (s : PoolInner) : PoolInner :=
  discountAll s.idle { s with closed := true }

/-- The code that runs a task. -/
def act (config : NzPoolConfig) (s : PoolInner) (t : Task) (signal : Signal) :
    Option (PoolInner × List Task) :=
  match t with
  | .leased _ | .rollingBack _ | .settling _ _ | .discarding _ => releaseWith config s t signal
  | .refilling | .refillConnecting | .refilled _ => ensureMin config s t signal
  | .closing =>
      match signal with
      | .proceed _ => some (close s, [])
      | _ => none
  | _ => get config s t signal

/-- Callers start a `get` or a `close`. -/
def starts : Task → Bool
  | .getting | .closing => true
  | _ => false

/-- The warm-up of `new`: up to `min` connects, until the first that fails. -/
def warmUp (config : NzPoolConfig) (connects : Nat → Option Nat) : Nat → PoolInner → PoolInner
  | 0, s => s
  | n + 1, s =>
      if config.max ≤ s.total then s
      else
        match connects n with
        | none => s
        | some now =>
            warmUp config connects n
              { s with idle := s.idle ++ [⟨{}, now, 0, now⟩], total := s.total + 1 }

def new (config : NzPoolConfig) (connects : Nat → Option Nat) : NzResult (Soup PoolInner Task) :=
  match config.validate with
  | .error error => .error error
  | .ok () => .ok ⟨warmUp config connects config.min {}, []⟩

abbrev program (config : NzPoolConfig) : Program PoolInner Task Signal where
  starts := starts
  act := act config

/-- The pool under every interleaving of its threads. -/
def pool (config : NzPoolConfig) : Transition.System (Soup PoolInner Task) (Action Task Signal) :=
  (program config).system fun s => ∃ connects, new config connects = .ok s

/-! ## What a task counts for -/

/-- A connection outside of the queue, until `release_with` has settled it. -/
def Task.checkedOut : Task → Nat
  | .leased _ | .rollingBack _ | .settling _ _ => 1
  | _ => 0

/-- A connection that `get` is establishing, until a failure is taken back. -/
def Task.establishing : Task → Nat
  | .connecting | .undoing _ => 1
  | _ => 0

def Task.counted (t : Task) : Nat :=
  t.checkedOut + t.establishing

/-- The books of the pool, against what its tasks count for. -/
structure Books (config : NzPoolConfig) (s : PoolInner) (counted : Nat) : Prop where
  total : s.total = s.idle.length + counted
  bounded : s.total ≤ config.max
  exact : s.saturated = false

variable {config : NzPoolConfig} {s s' : PoolInner} {t : Task} {signal : Signal} {ts : List Task}

/-- One connection less, when there is one. -/
theorem Books.deduct {n : Nat} (h : Books config s (n + 1)) : Books config s.deduct n := by
  have htotal := h.total
  have hbounded := h.bounded
  refine ⟨?_, ?_, ?_⟩
  · show s.total - 1 = s.idle.length + n
    omega
  · show s.total - 1 ≤ config.max
    omega
  · show (s.saturated || s.total == 0) = false
    rw [h.exact, Bool.false_or, beq_eq_false_iff_ne]
    omega

/-- An entry that leaves the queue is counted elsewhere, or discounted. -/
theorem Books.pop {entry : IdleConn} {rest : List IdleConn} {n : Nat}
    (h : Books config { s with idle := entry :: rest } n) :
    Books config { s with idle := rest } (n + 1) := by
  have htotal := h.total
  refine ⟨?_, h.bounded, h.exact⟩
  simp only [List.length_cons] at htotal
  show s.total = rest.length + (n + 1)
  omega

theorem Books.drop {entry : IdleConn} {rest : List IdleConn} {n : Nat}
    (h : Books config { s with idle := entry :: rest } n) :
    Books config { s.deduct with idle := rest } n :=
  h.pop.deduct

/-- What the walk over the idle queue leaves. -/
theorem takeFresh_books (probes : Nat → Probe) (i : Nat) (idle : List IdleConn) {n : Nat}
    (h : Books config { s with idle := idle } n) :
    Books config (takeFresh config probes i idle s).2
      (n + if (takeFresh config probes i idle s).1.isSome then 1 else 0) := by
  induction idle generalizing i s with
  | nil => exact h
  | cons entry rest ih =>
      unfold takeFresh
      split
      · exact h.pop
      · exact ih (i + 1) h.drop

theorem discountAll_books (idle : List IdleConn) {n : Nat}
    (h : Books config { s with idle := idle } n) : Books config (discountAll idle s) n := by
  induction idle generalizing s with
  | nil => exact h
  | cons entry rest ih => exact ih h.drop

/-- A connection more, below `max`. -/
theorem Books.grow {n : Nat} (h : Books config s n) (hroom : s.total < config.max) :
    Books config { s with total := s.total + 1 } (n + 1) :=
  ⟨by rw [h.total]; rfl, hroom, h.exact⟩

/-- A counted connection that joins the queue. -/
theorem Books.push {n : Nat} (h : Books config s (n + 1)) (entry : IdleConn) :
    Books config { s with idle := s.idle ++ [entry] } n := by
  have htotal := h.total
  refine ⟨?_, h.bounded, h.exact⟩
  show s.total = (s.idle ++ [entry]).length + n
  rw [List.length_append, List.length_singleton]
  omega

/-- The books against another way to write the same count. -/
theorem Books.of_eq {n m : Nat} (h : Books config s n) (hnm : n = m) : Books config s m :=
  hnm ▸ h

theorem get_books (hact : get config s t signal = some (s', ts)) (rest : Nat)
    (h : Books config s (t.counted + rest)) : Books config s' (weigh Task.counted ts + rest) := by
  unfold get at hact
  split at hact
  next probes expired =>
    have hwalk := takeFresh_books (s := s) probes 0 s.idle h
    split at hact
    · cases hact
      exact h
    · split at hact
      next entry s₁ hwalked =>
        cases hact
        rw [hwalked] at hwalk
        exact hwalk.of_eq (by
          simp [Task.counted, Task.checkedOut, Task.establishing, Nat.add_comm])
      next s₁ hwalked =>
        rw [hwalked] at hwalk
        split at hact
        next hroom =>
          cases hact
          exact (hwalk.grow hroom).of_eq (by
            simp [Task.counted, Task.checkedOut, Task.establishing, Nat.add_comm])
        · split at hact
          · cases hact
            exact hwalk
          · cases hact
            exact hwalk
  · cases hact
    exact h
  · split at hact
    · cases hact
      exact h
    · cases hact
  · cases hact
    exact h
  · cases hact
    exact h
  next error now =>
    cases hact
    have hone : Books config s (rest + 1) := h.of_eq (Nat.add_comm _ _)
    exact hone.deduct.of_eq (Nat.zero_add _).symm
  · cases hact
    exact h
  · cases hact

theorem releaseWith_books (hact : releaseWith config s t signal = some (s', ts)) (rest : Nat)
    (h : Books config s (t.counted + rest)) : Books config s' (weigh Task.counted ts + rest) := by
  unfold releaseWith at hact
  split at hact
  · cases hact
    exact h
  · split at hact
    · cases hact
      exact h
    · split at hact
      · cases hact
        exact h
      · cases hact
        exact h
  · cases hact
    exact h
  next lease destroy now =>
    have hone : Books config s (rest + 1) := h.of_eq (Nat.add_comm _ _)
    split at hact
    · cases hact
      exact hone.deduct.of_eq (Nat.zero_add _).symm
    · cases hact
      exact (hone.push _).of_eq (Nat.zero_add _).symm
  · cases hact
    exact h
  · cases hact

theorem ensureMin_books (hact : ensureMin config s t signal = some (s', ts)) (rest : Nat)
    (h : Books config s (t.counted + rest)) : Books config s' (weigh Task.counted ts + rest) := by
  unfold ensureMin at hact
  split at hact
  · split at hact
    · cases hact
      exact h
    · cases hact
      exact h
  · cases hact
    exact h
  · cases hact
    exact h
  · split at hact
    next hroom =>
      cases hact
      simp only [Bool.and_eq_true, decide_eq_true_eq] at hroom
      exact (h.grow hroom.2).push _
    · cases hact
      exact h
  · cases hact

/-- One step keeps the books. -/
theorem act_books (hact : act config s t signal = some (s', ts)) (rest : Nat)
    (h : Books config s (t.counted + rest)) : Books config s' (weigh Task.counted ts + rest) := by
  unfold act at hact
  split at hact
  case h_8 =>
    split at hact
    · cases hact
      exact discountAll_books s.idle ⟨h.total, h.bounded, h.exact⟩
    · cases hact
  all_goals first
    | exact releaseWith_books hact rest h
    | exact ensureMin_books hact rest h
    | exact get_books hact rest h

/-! ## Open transactions -/

theorem transactionStateOf_rollback : transactionStateOf "ROLLBACK".toList = (some false, false) := by
  decide +kernel

/-- A ROLLBACK that succeeds leaves no transaction open. -/
theorem rollback_inTransaction {conn : Connection} {send : SendOutcome} {drain : DrainOutcome}
    (h : (rollback conn send drain).1 = true) :
    (rollback conn send drain).2.inTransaction = false := by
  simp only [rollback, Bool.and_eq_true, Option.isNone_iff_eq_none, beq_iff_eq] at h
  obtain ⟨⟨hexecute, hsent⟩, rfl⟩ := h
  have hnul : ("ROLLBACK".toList.contains '\x00' || !conn.canExecute) = false := by
    rw [hexecute]
    decide
  simp only [rollback, Connection.runBatch, hnul, hsent, transactionStateOf_rollback]
  rfl

/-- No connection in the queue has a transaction open, if the pool rolls back. -/
def PoolInner.Clean (config : NzPoolConfig) (s : PoolInner) : Prop :=
  config.rollbackOnRelease = true → ∀ entry ∈ s.idle, entry.conn.inTransaction = false

/-- A connection that is about to join the queue has none either. -/
def Task.Clean (config : NzPoolConfig) : Task → Prop
  | .settling lease false => config.rollbackOnRelease = true → lease.conn.inTransaction = false
  | .refilled conn => conn.inTransaction = false
  | _ => True

theorem Task.Clean.one (ht : t.Clean config) : ∀ u ∈ [t], u.Clean config := by
  intro u hu
  rw [List.mem_singleton.mp hu]
  exact ht

theorem Task.Clean.none : ∀ u ∈ ([] : List Task), u.Clean config := by
  intro u hu
  cases hu

theorem takeFresh_idle (probes : Nat → Probe) (i : Nat) (idle : List IdleConn) :
    ∀ entry ∈ (takeFresh config probes i idle s).2.idle, entry ∈ idle := by
  induction idle generalizing i s with
  | nil =>
      intro entry hentry
      cases hentry
  | cons first rest ih =>
      intro entry hentry
      unfold takeFresh at hentry
      split at hentry
      · exact List.mem_cons_of_mem _ hentry
      · exact List.mem_cons_of_mem _ (ih _ entry hentry)

theorem discountAll_idle (idle : List IdleConn) : (discountAll idle s).idle = [] := by
  induction idle generalizing s with
  | nil => rfl
  | cons entry rest ih => exact ih

theorem get_clean (hact : get config s t signal = some (s', ts)) (hs : s.Clean config) :
    s'.Clean config ∧ ∀ u ∈ ts, u.Clean config := by
  have hdeduct : s.deduct.Clean config := hs
  unfold get at hact
  split at hact
  next probes expired =>
    have hwalk : (takeFresh config probes 0 s.idle s).2.Clean config :=
      fun hrollback entry hentry => hs hrollback entry (takeFresh_idle probes 0 s.idle entry hentry)
    split at hact
    · cases hact
      exact ⟨hs, .one trivial⟩
    · split at hact
      next entry s₁ hwalked =>
        cases hact
        rw [hwalked] at hwalk
        exact ⟨hwalk, .one trivial⟩
      next s₁ hwalked =>
        rw [hwalked] at hwalk
        split at hact
        · cases hact
          exact ⟨hwalk, .one trivial⟩
        · split at hact
          · cases hact
            exact ⟨hwalk, .one trivial⟩
          · cases hact
            exact ⟨hwalk, .one trivial⟩
  · cases hact
    exact ⟨hs, .one trivial⟩
  · split at hact
    · cases hact
      exact ⟨hs, .one trivial⟩
    · cases hact
  · cases hact
    exact ⟨hs, .one trivial⟩
  · cases hact
    exact ⟨hs, .one trivial⟩
  · cases hact
    exact ⟨hdeduct, .one trivial⟩
  · cases hact
    exact ⟨hs, .none⟩
  · cases hact

/-- The queue stays clean when a clean connection joins it. -/
theorem PoolInner.Clean.push (hs : s.Clean config) {entry : IdleConn}
    (hentry : config.rollbackOnRelease = true → entry.conn.inTransaction = false) :
    { s with idle := s.idle ++ [entry] }.Clean config := by
  intro hrollback e he
  rcases List.mem_append.mp he with hold | hnew
  · exact hs hrollback e hold
  · rw [List.mem_singleton.mp hnew]
    exact hentry hrollback

theorem releaseWith_clean (hact : releaseWith config s t signal = some (s', ts))
    (hs : s.Clean config) (ht : t.Clean config) :
    s'.Clean config ∧ ∀ u ∈ ts, u.Clean config := by
  have hdeduct : s.deduct.Clean config := hs
  unfold releaseWith at hact
  split at hact
  · cases hact
    exact ⟨hs, .one trivial⟩
  next lease error now =>
    split at hact
    · cases hact
      exact ⟨hs, .one trivial⟩
    · split at hact
      · cases hact
        exact ⟨hs, .one trivial⟩
      next hnone =>
        cases hact
        refine ⟨hs, .one ?_⟩
        intro hrollback
        rw [hrollback, Bool.true_and, Bool.not_eq_true] at hnone
        exact hnone
  next lease send drain =>
    cases hact
    refine ⟨hs, .one ?_⟩
    cases hok : (rollback lease.conn send drain).1 with
    | true => exact fun _ => rollback_inTransaction hok
    | false => trivial
  next lease destroy now =>
    split at hact
    · cases hact
      exact ⟨hdeduct, .one trivial⟩
    next hkeep =>
      cases hact
      simp only [Bool.or_eq_true, not_or, Bool.not_eq_true] at hkeep
      rw [hkeep.1] at ht
      exact ⟨hs.push ht, .none⟩
  · cases hact
    exact ⟨hs, .one trivial⟩
  · cases hact

theorem ensureMin_clean (hact : ensureMin config s t signal = some (s', ts))
    (hs : s.Clean config) (ht : t.Clean config) :
    s'.Clean config ∧ ∀ u ∈ ts, u.Clean config := by
  unfold ensureMin at hact
  split at hact
  · split at hact
    · cases hact
      exact ⟨hs, .one trivial⟩
    · cases hact
      exact ⟨hs, .none⟩
  · cases hact
    exact ⟨hs, .one rfl⟩
  · cases hact
    exact ⟨hs, .none⟩
  · split at hact
    · cases hact
      exact ⟨hs.push fun _ => ht, .none⟩
    · cases hact
      exact ⟨hs, .none⟩
  · cases hact

theorem act_clean (hact : act config s t signal = some (s', ts)) (hs : s.Clean config)
    (ht : t.Clean config) : s'.Clean config ∧ ∀ u ∈ ts, u.Clean config := by
  unfold act at hact
  split at hact
  case h_8 =>
    split at hact
    · cases hact
      refine ⟨?_, .none⟩
      intro _ entry hentry
      rw [close, discountAll_idle] at hentry
      cases hentry
    · cases hact
  all_goals first
    | exact releaseWith_clean hact hs ht
    | exact ensureMin_clean hact hs ht
    | exact get_clean hact hs

/-! ## Every interleaving -/

/-- The warm-up counts what it queues, and queues fresh connections. -/
theorem warmUp_books (connects : Nat → Option Nat) (n : Nat) (h : Books config s 0)
    (hclean : s.Clean config) :
    Books config (warmUp config connects n s) 0 ∧ (warmUp config connects n s).Clean config := by
  induction n generalizing s with
  | zero => exact ⟨h, hclean⟩
  | succ n ih =>
      unfold warmUp
      split
      · exact ⟨h, hclean⟩
      next hroom =>
        split
        · exact ⟨h, hclean⟩
        next now _ =>
          exact ih ((h.grow (Nat.lt_of_not_le hroom)).push ⟨{}, now, 0, now⟩)
            (PoolInner.Clean.push hclean fun _ => rfl)

/-- What holds of the pool and its threads at every moment. -/
structure Sound (config : NzPoolConfig) (s : Soup PoolInner Task) : Prop where
  books : Books config s.shared (weigh Task.counted s.tasks)
  clean : s.shared.Clean config
  tasks : ∀ t ∈ s.tasks, t.Clean config

theorem sound_start {s : Soup PoolInner Task} {connects : Nat → Option Nat}
    (h : new config connects = .ok s) : Sound config s := by
  unfold new at h
  split at h
  · cases h
  · cases h
    have hempty : Books config {} 0 := ⟨rfl, Nat.zero_le _, rfl⟩
    obtain ⟨hbooks, hclean⟩ := warmUp_books connects config.min hempty (by
      intro _ entry hentry
      cases hentry)
    exact ⟨hbooks, hclean, .none⟩

theorem starts_counted (h : starts t = true) : t.counted = 0 := by
  cases t with
  | getting => rfl
  | closing => rfl
  | _ => cases h

theorem starts_clean (h : starts t = true) : t.Clean config := by
  cases t with
  | getting => trivial
  | closing => trivial
  | _ => cases h

theorem sound_step {s s' : Soup PoolInner Task} {a : Action Task Signal}
    (hstep : (program config).step s a = some s') (hs : Sound config s) : Sound config s' := by
  refine ⟨?_, ?_, ?_⟩
  · refine Program.step_weighed Task.counted hstep ?_ ?_ hs.books
    · intro t _ hstart hbooks
      rw [starts_counted hstart, Nat.zero_add]
      exact hbooks
    · intro i signal t shared ts rest _ _ _ hact hbooks
      exact act_books hact rest hbooks
  · cases a with
    | spawn t =>
        obtain ⟨-, rfl⟩ := Program.step_spawn hstep
        exact hs.clean
    | run i signal =>
        obtain ⟨pre, t, post, shared, ts, htasks, hget, hact, rfl⟩ := Program.step_run hstep
        exact (act_clean hact hs.clean (hs.tasks t (List.mem_of_getElem? hget))).1
  · refine Program.step_forall (Q := fun _ t => t.Clean config) hstep ?_ ?_ hs.tasks
    · intro t _ hstart
      exact starts_clean hstart
    · intro i signal pre t post shared ts _ htasks hact
      have ht : t.Clean config := by
        apply hs.tasks
        rw [htasks]
        exact List.mem_append_right _ List.mem_cons_self
      exact ⟨(act_clean hact hs.clean ht).2, fun _ _ hu => hu⟩

/-- Under every interleaving `total` counts the idle entries, the connections checked out and those
that `get` is establishing, stays within `max`, and is never taken below zero; and a pool that
rolls back has no open transaction in its queue. -/
theorem pool_accounts (config : NzPoolConfig) {s : Soup PoolInner Task}
    (h : (pool config).Reachable s) :
    s.shared.total = s.shared.idle.length +
        (weigh Task.checkedOut s.tasks + weigh Task.establishing s.tasks) ∧
      s.shared.total ≤ config.max ∧ s.shared.saturated = false ∧
      (config.rollbackOnRelease = true →
        ∀ entry ∈ s.shared.idle, entry.conn.inTransaction = false) := by
  have hsound : Sound config s := h.invariant
    (fun _ ⟨_, hnew⟩ => sound_start hnew) (fun _ _ _ hs hstep => sound_step hstep hs)
  have htotal := hsound.books.total
  have hsum : weigh Task.counted s.tasks =
      weigh Task.checkedOut s.tasks + weigh Task.establishing s.tasks := weigh_add _ _ _
  rw [hsum] at htotal
  exact ⟨htotal, hsound.books.bounded, hsound.books.exact, hsound.clean⟩

/-- A pool of one: a checkout while the connection of an earlier one is being established. -/
theorem pool_accounts_while_connecting :
    ∃ s, (pool { max := 1 }).Reachable s ∧ s.shared.total = 1 ∧
      s.shared.total = s.shared.idle.length +
        (weigh Task.checkedOut s.tasks + weigh Task.establishing s.tasks) := by
  have hnew : new { max := 1 } (fun _ => none) = .ok ⟨{}, []⟩ := rfl
  have hstart : (pool { max := 1 }).Reachable ⟨{}, []⟩ := .start ⟨fun _ => none, hnew⟩
  have hspawn : (pool { max := 1 }).Reachable ⟨{}, [.getting]⟩ :=
    .move (a := .spawn .getting) hstart rfl
  have hconnecting : (pool { max := 1 }).Reachable ⟨{ total := 1 }, [.connecting]⟩ :=
    .move (a := .run 0 (.looked (fun _ => ⟨0, true⟩) false)) hspawn rfl
  exact ⟨_, hconnecting, rfl, (pool_accounts { max := 1 } hconnecting).1⟩

end SyncPool

end NzRust
