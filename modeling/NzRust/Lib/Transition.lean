import Mathlib.Algebra.Order.Ring.Int
import Mathlib.Logic.Relation

/-!
# Labelled transition systems

Reachability, guarded systems and the invariant rule. A guarded system keeps
only the steps whose source state and label meet a condition, so reachability
in it is reachability by runs all of whose steps meet the condition.
-/

namespace Transition

universe u v

/-- Initial states and labelled steps, with no further structure. -/
structure System (State : Type u) (Action : Type v) where
  initial : State → Prop
  step : State → Action → State → Prop

namespace System

variable {State : Type u} {Action : Type v} (M : System State Action)

/-- States at the end of some finite run from an initial state. -/
inductive Reachable : State → Prop where
  | start {s : State} (h : M.initial s) : Reachable s
  | move {s s' : State} {a : Action} (hs : Reachable s) (h : M.step s a s') : Reachable s'

/-- Finite runs with the list of their labels. -/
inductive Run : State → List Action → State → Prop where
  | nil (s : State) : Run s [] s
  | cons {s s' t : State} {a : Action} {as : List Action}
      (h : M.step s a s') (tail : Run s' as t) : Run s (a :: as) t

/-- Keep the steps that meet a condition on the state before the step and its label. -/
def guarded (ok : State → Action → Prop) : System State Action where
  initial := M.initial
  step s a s' := ok s a ∧ M.step s a s'

variable {M}

theorem Run.trans {s t u : State} {as bs : List Action}
    (h₁ : M.Run s as t) (h₂ : M.Run t bs u) : M.Run s (as ++ bs) u := by
  induction h₁ with
  | nil => exact h₂
  | cons h _ ih => exact .cons h (ih h₂)

theorem Run.reachable {s t : State} {as : List Action}
    (h : M.Run s as t) (hs : M.Reachable s) : M.Reachable t := by
  induction h with
  | nil => exact hs
  | cons h _ ih => exact ih (hs.move h)

/-- Follow a step function along labels. -/
def follow (next : State → Action → Option State) (s : State) : List Action → Option State
  | [] => some s
  | a :: as => (next s a).bind fun s' => follow next s' as

theorem Run.of_follow {next : State → Action → Option State} {as : List Action} {s t : State}
    (hnext : ∀ s a s', next s a = some s' → M.step s a s') (h : follow next s as = some t) :
    M.Run s as t := by
  induction as generalizing s with
  | nil =>
      obtain rfl := Option.some.inj h
      exact .nil s
  | cons a as ih =>
      obtain ⟨s', hstep, hrest⟩ := Option.bind_eq_some_iff.mp h
      exact .cons (hnext s a s' hstep) (ih hrest)

/-- A run of a guarded system is a run of the system. -/
theorem Reachable.of_guarded {ok : State → Action → Prop} {s : State}
    (h : (M.guarded ok).Reachable s) : M.Reachable s := by
  induction h with
  | start h => exact .start h
  | move _ h ih => exact ih.move h.2

/-- An invariant of the initial states and of every step holds in every reachable state. -/
theorem Reachable.invariant {P : State → Prop} {s : State} (h : M.Reachable s)
    (hinit : ∀ s, M.initial s → P s)
    (hstep : ∀ s a s', P s → M.step s a s' → P s') : P s := by
  induction h with
  | start h => exact hinit _ h
  | move _ h ih => exact hstep _ _ _ ih h

end System

end Transition
