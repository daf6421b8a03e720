import NzRust.Core.Text
import NzRust.Lib.Soup

/-!
# The async facade

`AsyncNzConnection` hands every call to a blocking thread that takes the
connection's lock for the whole operation. Beside it `AsyncControl` names the
operation that is running: `cancel` holds the control lock while it delivers its
packet, and `close` first bars new operations and then waits for the lock.

Threads are tasks; a step is one lock section or one access to an atomic. The
generations that have begun and whose guards are gone, and the packets that were
delivered, are kept for the proofs alone.
-/

namespace NzRust.Facade

open Tasks

/-- `AsyncControl`. An operation is known by its generation. -/
structure AsyncControl where
  active : Option Nat := none
  activeLocked : Bool := false
  nextGeneration : Nat := 0
  closing : Bool := false
  closed : Bool := false

/-- A delivered packet, with what had begun and what was over by then. -/
structure Packet where
  generation : Nat
  begun : List Nat
  finished : List Nat
  deriving DecidableEq

structure Shared where
  control : AsyncControl := {}
  innerLocked : Bool := false
  /-- A panic under the lock of the connection. -/
  poisoned : Bool := false
  /-- `Some(connection)` behind that lock. -/
  connection : Bool := true
  /-- The operations that have begun, the latest first. -/
  begun : List Nat := []
  finished : List Nat := []
  /-- How many of them began when `closing` was already set. -/
  late : Nat := 0
  packets : List Packet := []

inductive Task where
  /-- The closure of `with_connection`, before the lock of the connection. -/
  | calling
  /-- It holds the lock from here on; before it looks for the connection. -/
  | entered
  /-- In `begin`, before the load of `closing`. -/
  | testing
  | testingClosed
  | numbering
  /-- Before the control lock. -/
  | registering (generation : Nat)
  /-- The operation itself. -/
  | running (generation : Nat)
  /-- The drop of its guard, before the control lock. -/
  | finishing (generation : Nat) (panicked : Bool)
  | leaving (panicked : Bool)
  /-- `cancel` before the control lock; `closes` when `close` waits for it. -/
  | cancelling (closes : Bool)
  /-- It holds the control lock. -/
  | sending (closes : Bool)
  /-- `close`, or the drop of the last clone, before its first store. -/
  | closing
  /-- Before the lock of the connection. -/
  | closeLocking
  | closeStoring

inductive Signal where
  | proceed
  /-- The operation returns or panics. -/
  | ends (panicked : Bool)
  /-- The packet cannot be delivered. -/
  | lost
  /-- The future of `close` is dropped. -/
  | drop
  deriving DecidableEq

/-- What goes on once the thread of `cancel` is done. -/
def afterCancel (closes : Bool) : List Task :=
  if closes then [.closeLocking] else []

def Shared.setControl (s : Shared) (control : AsyncControl) : Shared :=
  { s with control := control }

/-- `with_connection`, with `begin` and the drop of the guard. -/
def operationAct (s : Shared) : Task → Signal → Option (Shared × List Task)
  | .calling, .proceed =>
      if s.innerLocked then none
      else if s.poisoned then some (s, [])
      else some ({ s with innerLocked := true }, [.entered])
  | .entered, .proceed =>
      if s.connection then some (s, [.testing]) else some (s, [.leaving false])
  | .testing, .proceed =>
      if s.control.closing then some (s, [.leaving false]) else some (s, [.testingClosed])
  | .testingClosed, .proceed =>
      if s.control.closed then some (s, [.leaving false]) else some (s, [.numbering])
  | .numbering, .proceed =>
      let generation := s.control.nextGeneration + 1
      some (s.setControl { s.control with nextGeneration := generation },
        [.registering generation])
  | .registering generation, .proceed =>
      if s.control.activeLocked then none
      else
        some ({ s with
          control := { s.control with active := some generation }
          begun := generation :: s.begun
          late := s.late + s.control.closing.toNat }, [.running generation])
  | .running generation, .ends panicked => some (s, [.finishing generation panicked])
  | .finishing generation panicked, .proceed =>
      if s.control.activeLocked then none
      else
        let active := if s.control.active = some generation then none else s.control.active
        some ({ s with
          control := { s.control with active := active }
          finished := generation :: s.finished }, [.leaving panicked])
  | .leaving panicked, .proceed =>
      some ({ s with innerLocked := false, poisoned := s.poisoned || panicked }, [])
  | _, _ => none

/-- `cancel` and `close`. -/
def controlAct (s : Shared) : Task → Signal → Option (Shared × List Task)
  | .cancelling closes, .proceed =>
      if s.control.activeLocked then none
      else some (s.setControl { s.control with activeLocked := true }, [.sending closes])
  | .cancelling true, .drop => some (s, [.cancelling false])
  | .sending closes, .proceed =>
      let s' := s.setControl { s.control with activeLocked := false }
      match s.control.active with
      | none => some (s', afterCancel closes)
      | some generation =>
          some ({ s' with packets := ⟨generation, s.begun, s.finished⟩ :: s.packets },
            afterCancel closes)
  | .sending closes, .lost =>
      some (s.setControl { s.control with activeLocked := false }, afterCancel closes)
  | .sending true, .drop => some (s, [.sending false])
  | .closing, .proceed =>
      some (s.setControl { s.control with closing := true }, [.cancelling true])
  | .closeLocking, .proceed =>
      if s.innerLocked then none
      else some (if s.poisoned then s else { s with connection := false }, [.closeStoring])
  | .closeStoring, .proceed => some (s.setControl { s.control with closed := true }, [])
  | _, _ => none

def act (s : Shared) (t : Task) (signal : Signal) : Option (Shared × List Task) :=
  match t with
  | .calling | .entered | .testing | .testingClosed | .numbering | .registering _ | .running _
  | .finishing _ _ | .leaving _ => operationAct s t signal
  | _ => controlAct s t signal

/-- Callers start an operation, a `cancel` or a `close`. -/
def starts : Task → Bool
  | .calling | .cancelling false | .closing => true
  | _ => false

abbrev program : Program Shared Task Signal where
  starts := starts
  act := act

abbrev Soup := Tasks.Soup Shared Task

abbrev Move := Tasks.Action Task Signal

/-- The facade under every interleaving of its callers. -/
def facade : Transition.System Soup Move :=
  program.system fun s => s = ⟨{}, []⟩

end NzRust.Facade
