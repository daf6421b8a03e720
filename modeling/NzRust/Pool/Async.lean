import NzRust.Core.Error
import NzRust.Lib.Soup

/-!
# The async connection pool

The native pool as tasks over one shared state. Every `get`, every lease, every
detached cleanup and every `end` is a task; its constructors are the points
where the source awaits or takes the state lock, so a step is one lock section
or one answer of the outside world, and the steps of different tasks interleave
freely. A future may be dropped only where the source awaits.

The outside world gives the clock, the state of a client's driver and the
outcomes of probe, rollback, close and connect. Durations and instants are
numbers of one clock.
-/

namespace NzRust

open Tasks

structure AsyncNzPoolConfig where
  max : Nat := 10
  min : Nat := 0
  idleTimeout : Nat := 10000000000
  waitTimeout : Option Nat := none
  maxUses : Option Nat := none
  maxLifetime : Option Nat := none
  rollbackOnRelease : Bool := true

def AsyncNzPoolConfig.validate (config : AsyncNzPoolConfig) : Except NzError Unit :=
  if config.max = 0 then .error (.config "Pool max must be positive")
  else if config.max < config.min then
    .error (.config "Pool min must be between 0 and max")
  else if config.maxUses = some 0 then .error (.config "Pool max_uses must be positive")
  else .ok ()

namespace Pool

variable {Client : Type}

structure IdleConnection (Client : Type) where
  conn : Client
  idleSince : Nat
  uses : Nat
  born : Nat

structure PoolState (Client : Type) where
  idle : List (IdleConnection Client) := []
  total : Nat := 0
  closed : Bool := false

/-- The state behind the lock, and the semaphore: its free permits and whether it is closed. -/
structure Shared (Client : Type) where
  state : PoolState Client := {}
  permits : Nat
  permitsClosed : Bool := false

/-- What a lease carries besides its reservation. -/
structure Lease (Client : Type) where
  conn : Client
  uses : Nat
  born : Nat

/-- One future or detached task of the pool, at the point it has reached. -/
inductive Task (Client : Type) where
  /-- `acquire`, waiting for a permit. -/
  | waiting
  /-- At the top of its loop, before the first lock section. -/
  | looking
  /-- It has popped an idle connection and looks at it. -/
  | judging (idle : IdleConnection Client)
  /-- At `probe_idle().await`. -/
  | probing (idle : IdleConnection Client)
  /-- The detached retirement, closing its client; `awaited` while `acquire` waits for it. -/
  | retiring (conn : Client) (awaited : Bool)
  /-- The retirement is over and its permit on the way back. -/
  | retired (awaited : Bool)
  /-- `acquire` has seen the idle list empty and goes for the second lock section. -/
  | opening
  /-- At `Client::connect(..).await`. -/
  | connecting
  /-- Connected, before the third lock section. -/
  | connected (conn : Client) (born : Nat)
  /-- Past the last test, about to return `Ok`. -/
  | granted (lease : Lease Client)
  /-- A lease in the caller's hands. -/
  | leased (lease : Lease Client)
  /-- `ReturnTask::finish`, just started. -/
  | finishing (lease : Lease Client)
  /-- At the `ROLLBACK` of `finish`. -/
  | rollingBack (lease : Lease Client)
  /-- Before the lock section of `finish`. -/
  | settling (lease : Lease Client) (destroy : Bool)
  /-- `finish` at `conn.close().await`. -/
  | closing (conn : Client)
  /-- A reservation being dropped, and what `get` then returns, if anyone waits. -/
  | dropping (registered : Bool) (outcome : Option NzError)
  /-- The permit of a dropped reservation, on the way back. -/
  | yielding (outcome : Option NzError)
  /-- `get` about to return this error. -/
  | rejected (error : NzError)
  /-- `end`, or the drop of the pool, before it closes the semaphore. -/
  | ending (byDrop : Bool)
  /-- The same before its lock section. -/
  | sweeping (byDrop : Bool)
  /-- `end` closing what it has taken, one at a time. -/
  | closingIdle (idle : List (IdleConnection Client))

/-- What a task learns from outside when it takes its next step. -/
inductive Signal (Client : Type) where
  /-- Nothing: the scheduler lets it go on. -/
  | proceed
  /-- The clock, and whether the client's driver has stopped. -/
  | observed (now : Nat) (isClosed : Bool)
  /-- The outcome of a probe or of the rollback. -/
  | answered (ok : Bool)
  | established (conn : Client) (now : Nat)
  | refused (error : NzError)
  /-- The future is dropped, by the checkout timeout or by its owner. -/
  | abandoned (byTimeout : Bool)
  /-- A lease is released or dropped; a drop may find no runtime to clean up in. -/
  | givenBack (runtime : Bool)

def closedError : NzError := .closed "pool is closed"

def timeoutError : NzError := .timeout "pool checkout timeout"

/-- The tests on a popped connection before the probe. -/
def passesLimits (config : AsyncNzPoolConfig) (total : Nat) (idle : IdleConnection Client)
    (now : Nat) (isClosed : Bool) : Bool :=
  !isClosed &&
    !config.maxLifetime.any (fun limit => limit ≤ now - idle.born) &&
    !config.maxUses.any (fun limit => limit ≤ idle.uses) &&
    (config.idleTimeout == 0 || decide (now - idle.idleSince < config.idleTimeout) ||
      decide (total ≤ config.min))

/-- The tests of `finish` before its rollback. -/
def mustDestroy (config : AsyncNzPoolConfig) (lease : Lease Client) (now : Nat)
    (isClosed : Bool) : Bool :=
  isClosed || config.maxUses.any (fun limit => limit ≤ lease.uses) ||
    config.maxLifetime.any (fun limit => limit ≤ now - lease.born)

/-- `total.saturating_sub(n)` under the lock. -/
def Shared.deduct (s : Shared Client) (n : Nat) : Shared Client :=
  { s with state := { s.state with total := s.state.total - n } }

/-- What the dropped `get` returns: an error to its timeout, nothing to nobody. -/
def dropOutcome (byTimeout : Bool) : Option NzError :=
  if byTimeout then some timeoutError else none

/-- Only a pool with a checkout timeout drops its own future. -/
def mayDrop (config : AsyncNzPoolConfig) (byTimeout : Bool) : Bool :=
  !byTimeout || config.waitTimeout.isSome

/-- The steps of `acquire`, up to the return of a lease. -/
def acquire (config : AsyncNzPoolConfig) (s : Shared Client) :
    Task Client → Signal Client → Option (Shared Client × List (Task Client))
  | .waiting, .proceed =>
      if s.permitsClosed then some (s, [.rejected closedError])
      else if s.permits = 0 then none
      else some ({ s with permits := s.permits - 1 }, [.looking])
  | .waiting, .abandoned byTimeout =>
      if mayDrop config byTimeout then
        some (s, (dropOutcome byTimeout).toList.map .rejected)
      else none
  | .looking, .proceed =>
      if s.state.closed then some (s, [.dropping false (some closedError)])
      else
        match s.state.idle.getLast? with
        | none => some (s, [.opening])
        | some idle =>
            some ({ s with state := { s.state with idle := s.state.idle.dropLast } },
              [.judging idle])
  | .judging idle, .observed now isClosed =>
      if passesLimits config s.state.total idle now isClosed then some (s, [.probing idle])
      else some (s, [.retiring idle.conn true])
  | .probing idle, .answered ok =>
      if ok then some (s, [.granted ⟨idle.conn, idle.uses + 1, idle.born⟩])
      else some (s, [.retiring idle.conn true])
  | .probing _, .abandoned byTimeout =>
      -- The popped connection goes with the future, and the reservation is not registered.
      if mayDrop config byTimeout then some (s, [.dropping false (dropOutcome byTimeout)])
      else none
  | .retiring _ awaited, .proceed =>
      some (s.deduct 1, [.retired awaited])
  | .retiring conn true, .abandoned byTimeout =>
      if mayDrop config byTimeout then
        some (s, .retiring conn false :: (dropOutcome byTimeout).toList.map .rejected)
      else none
  | .retired true, .proceed => some (s, [.looking])
  | .retired true, .abandoned byTimeout =>
      if mayDrop config byTimeout then some (s, [.dropping false (dropOutcome byTimeout)])
      else none
  | .retired false, .proceed => some ({ s with permits := s.permits + 1 }, [])
  | .opening, .proceed =>
      if s.state.closed then some (s, [.dropping false (some closedError)])
      else
        some ({ s with state := { s.state with total := s.state.total + 1 } }, [.connecting])
  | .connecting, .established conn now => some (s, [.connected conn now])
  | .connecting, .refused error => some (s, [.dropping true (some error)])
  | .connecting, .abandoned byTimeout =>
      if mayDrop config byTimeout then some (s, [.dropping true (dropOutcome byTimeout)])
      else none
  | .connected conn born, .proceed =>
      if s.state.closed then
        some (s, [.dropping true (some (.closed "pool closed while connecting"))])
      else some (s, [.granted ⟨conn, 1, born⟩])
  | .granted lease, .proceed => some (s, [.leased lease])
  | .dropping registered outcome, .proceed =>
      some (if registered then s.deduct 1 else s, [.yielding outcome])
  | .yielding outcome, .proceed =>
      some ({ s with permits := s.permits + 1 }, outcome.toList.map .rejected)
  | .rejected _, .proceed => some (s, [])
  | _, _ => none

/-- The way of a lease back: `release` or the drop, then `ReturnTask::finish`. -/
def giveBack (config : AsyncNzPoolConfig) (s : Shared Client) :
    Task Client → Signal Client → Option (Shared Client × List (Task Client))
  | .leased lease, .givenBack runtime =>
      if runtime then some (s, [.finishing lease]) else some (s, [.dropping true none])
  | .finishing lease, .observed now isClosed =>
      if mustDestroy config lease now isClosed then some (s, [.settling lease true])
      else if config.rollbackOnRelease then some (s, [.rollingBack lease])
      else some (s, [.settling lease false])
  | .rollingBack lease, .answered ok => some (s, [.settling lease (!ok)])
  | .settling lease destroy, .observed now _ =>
      if !destroy && !s.state.closed then
        some ({ s with state := { s.state with
          idle := s.state.idle ++ [⟨lease.conn, now, lease.uses, lease.born⟩] } },
          [.dropping false none])
      else some (s, [.closing lease.conn])
  | .closing _, .proceed => some (s, [.dropping true none])
  | _, _ => none

/-- `end` and the drop of the pool. Only `end` closes the swept clients one by one. -/
def shutDown (s : Shared Client) :
    Task Client → Signal Client → Option (Shared Client × List (Task Client))
  | .ending byDrop, .proceed => some ({ s with permitsClosed := true }, [.sweeping byDrop])
  | .sweeping byDrop, .proceed =>
      some ({ s with state := { s.state with
          closed := true, idle := [], total := s.state.total - s.state.idle.length } },
        if byDrop then [] else [.closingIdle s.state.idle])
  | .closingIdle (_ :: rest), .proceed => some (s, [.closingIdle rest])
  | .closingIdle [], .proceed => some (s, [])
  | .closingIdle _, .abandoned false => some (s, [])
  | _, _ => none

/-- The code that runs a task. -/
def act (config : AsyncNzPoolConfig) (s : Shared Client) (t : Task Client)
    (signal : Signal Client) : Option (Shared Client × List (Task Client)) :=
  match t with
  | .leased _ | .finishing _ | .rollingBack _ | .settling _ _ | .closing _ =>
      giveBack config s t signal
  | .ending _ | .sweeping _ | .closingIdle _ => shutDown s t signal
  | _ => acquire config s t signal

/-- Callers start a `get` or an `end`; the drop of the pool is the other way to shut it down. -/
def starts : Task Client → Bool
  | .waiting => true
  | .ending _ => true
  | _ => false

/-- A fresh pool: no connection, no task and a permit for each connection it may have. -/
def new (config : AsyncNzPoolConfig) : Except NzError (Soup (Shared Client) (Task Client)) :=
  match config.validate with
  | .error error => .error error
  | .ok _ => .ok ⟨{ permits := config.max }, []⟩

abbrev program (config : AsyncNzPoolConfig) :
    Program (Shared Client) (Task Client) (Signal Client) where
  starts := starts
  act := act config

/-- The pool under every interleaving of its tasks. -/
def pool (Client : Type) (config : AsyncNzPoolConfig) :
    Transition.System (Soup (Shared Client) (Task Client)) (Action (Task Client) (Signal Client)) :=
  (program config).system fun s => new config = .ok s

end Pool

end NzRust
