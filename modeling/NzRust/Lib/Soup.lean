import Mathlib.Algebra.Order.Ring.Int
import Mathlib.Algebra.BigOperators.Group.List.Basic
import Mathlib.Algebra.Group.Prod
import NzRust.Lib.Transition

/-!
# Tasks over a shared state

A soup is a shared state and the tasks that run over it. A step starts a new
task or lets one task act: the shared state moves on and the task is replaced
by its successors, none when it is done and several when it has spawned. Every
interleaving is a run of the soup.

Invariants are stated about the shared state and a sum of weights of the tasks,
so that a step of one task is checked against that task alone, whatever the
others are.
-/

namespace Tasks

universe u v w

variable {Shared : Type u} {Task : Type v} {Signal : Type w}

structure Soup (Shared : Type u) (Task : Type v) where
  shared : Shared
  tasks : List Task

/-- What the scheduler picks: a task to start, or a position and what its task observes. -/
inductive Action (Task : Type v) (Signal : Type w) where
  | spawn (t : Task)
  | run (i : Nat) (signal : Signal)

/-- Which tasks may be started, and what one task does to the shared state. -/
structure Program (Shared : Type u) (Task : Type v) (Signal : Type w) where
  starts : Task → Bool
  act : Shared → Task → Signal → Option (Shared × List Task)

namespace Program

variable (P : Program Shared Task Signal)

def step (s : Soup Shared Task) : Action Task Signal → Option (Soup Shared Task)
  | .spawn t => if P.starts t then some { s with tasks := s.tasks ++ [t] } else none
  | .run i signal =>
      match s.tasks[i]? with
      | none => none
      | some t =>
          match P.act s.shared t signal with
          | none => none
          | some (shared, ts) => some ⟨shared, s.tasks.take i ++ (ts ++ s.tasks.drop (i + 1))⟩

/-- The soup as a transition system over the given starting states. -/
def system (initial : Soup Shared Task → Prop) :
    Transition.System (Soup Shared Task) (Action Task Signal) where
  initial := initial
  step s a s' := P.step s a = some s'

variable {P}

theorem step_spawn {s s' : Soup Shared Task} {t : Task}
    (h : P.step s (.spawn t) = some s') :
    P.starts t = true ∧ s' = { s with tasks := s.tasks ++ [t] } := by
  simp only [step] at h
  split at h
  · next hstart => exact ⟨hstart, by simpa using h.symm⟩
  · cases h

theorem step_run {s s' : Soup Shared Task} {i : Nat} {signal : Signal}
    (h : P.step s (.run i signal) = some s') :
    ∃ pre t post shared ts, s.tasks = pre ++ t :: post ∧ s.tasks[i]? = some t ∧
      P.act s.shared t signal = some (shared, ts) ∧ s' = ⟨shared, pre ++ (ts ++ post)⟩ := by
  simp only [step] at h
  split at h
  · cases h
  · next t ht =>
      split at h
      · cases h
      · next shared ts hact =>
          obtain ⟨hi, rfl⟩ := List.getElem?_eq_some_iff.mp ht
          refine ⟨_, _, _, shared, ts, ?_, ht, hact, (Option.some.inj h).symm⟩
          rw [List.getElem_cons_drop, List.take_append_drop]

/-- Run a list of actions, each of which must meet the condition. -/
def exec (P : Program Shared Task Signal)
    (ok : Soup Shared Task → Action Task Signal → Bool) (s : Soup Shared Task) :
    List (Action Task Signal) → Option (Soup Shared Task)
  | [] => some s
  | a :: as =>
      match ok s a, P.step s a with
      | true, some s' => exec P ok s' as
      | _, _ => none

theorem exec_reachable {ok : Soup Shared Task → Action Task Signal → Bool}
    {initial : Soup Shared Task → Prop} {as : List (Action Task Signal)}
    {s s' : Soup Shared Task}
    (hs : ((P.system initial).guarded fun s a => ok s a = true).Reachable s)
    (h : P.exec ok s as = some s') :
    ((P.system initial).guarded fun s a => ok s a = true).Reachable s' := by
  induction as generalizing s with
  | nil =>
      cases h
      exact hs
  | cons a as ih =>
      rw [exec] at h
      split at h
      · next mid hok hstep => exact ih (hs.move ⟨hok, hstep⟩) h
      · cases h

end Program

/-! ## Weights -/

section Weights

variable {M : Type*} [AddCommMonoid M]

/-- The summed weight of the tasks. -/
def weigh (weight : Task → M) (ts : List Task) : M :=
  (ts.map weight).sum

variable (weight : Task → M)

@[simp] theorem weigh_nil : weigh weight [] = 0 := rfl

@[simp] theorem weigh_cons (t : Task) (ts : List Task) :
    weigh weight (t :: ts) = weight t + weigh weight ts := by
  simp [weigh]

@[simp] theorem weigh_append (ts us : List Task) :
    weigh weight (ts ++ us) = weigh weight ts + weigh weight us := by
  simp [weigh]

theorem weigh_add (f g : Task → M) (ts : List Task) :
    weigh (fun t => f t + g t) ts = weigh f ts + weigh g ts := by
  induction ts with
  | nil => simp
  | cons t ts ih => rw [weigh_cons, weigh_cons, weigh_cons, ih, add_add_add_comm]

/-- Two weights at once. -/
theorem weigh_pair {N : Type*} [AddCommMonoid N] (f : Task → M) (g : Task → N)
    (ts : List Task) : weigh (fun t => (f t, g t)) ts = (weigh f ts, weigh g ts) := by
  induction ts with
  | nil => rfl
  | cons t ts ih => rw [weigh_cons, weigh_cons, weigh_cons, ih, Prod.mk_add_mk]

theorem weigh_middle (pre ts post : List Task) :
    weigh weight (pre ++ (ts ++ post)) =
      weigh weight ts + (weigh weight pre + weigh weight post) := by
  rw [weigh_append, weigh_append, add_left_comm]

theorem weigh_le_weigh {f g : Task → Nat} (h : ∀ t, f t ≤ g t) (ts : List Task) :
    weigh f ts ≤ weigh g ts := by
  induction ts with
  | nil => exact Nat.le_refl 0
  | cons t ts ih =>
      rw [weigh_cons, weigh_cons]
      exact Nat.add_le_add (h t) ih

theorem weigh_eq_zero_iff (f : Task → Nat) (ts : List Task) :
    weigh f ts = 0 ↔ ∀ t ∈ ts, f t = 0 := by
  induction ts with
  | nil => simp
  | cons t ts ih => simp [ih]

theorem le_weigh_of_mem (f : Task → Nat) {ts : List Task} {t : Task} (h : t ∈ ts) :
    f t ≤ weigh f ts := by
  obtain ⟨pre, post, rfl⟩ := List.append_of_mem h
  rw [weigh_append, weigh_cons]
  omega

/-- One step keeps a relation between the shared state and the summed weight
when starting a task does, and when the acting task alone does against any
weight of the others. -/
theorem Program.step_weighed {P : Program Shared Task Signal} {s s' : Soup Shared Task}
    {a : Action Task Signal} {I : Shared → M → Prop}
    (hstep : P.step s a = some s')
    (hspawn : ∀ t, a = .spawn t → P.starts t = true → I s.shared (weigh weight s.tasks) →
      I s.shared (weight t + weigh weight s.tasks))
    (hrun : ∀ i signal t shared ts rest, a = .run i signal → s.tasks[i]? = some t →
      weigh weight s.tasks = weight t + rest → P.act s.shared t signal = some (shared, ts) →
      I s.shared (weight t + rest) → I shared (weigh weight ts + rest))
    (hs : I s.shared (weigh weight s.tasks)) :
    I s'.shared (weigh weight s'.tasks) := by
  cases a with
  | spawn t =>
      obtain ⟨hstart, rfl⟩ := step_spawn hstep
      have hkept := hspawn t rfl hstart hs
      rw [weigh_append, weigh_cons, weigh_nil, add_zero, add_comm]
      exact hkept
  | run i signal =>
      obtain ⟨pre, t, post, shared, ts, htasks, hget, hact, rfl⟩ := step_run hstep
      have hsplit : weigh weight s.tasks =
          weight t + (weigh weight pre + weigh weight post) := by
        rw [htasks, weigh_append, weigh_cons, add_left_comm]
      rw [hsplit] at hs
      rw [weigh_middle]
      exact hrun i signal t shared ts _ rfl hget hsplit hact hs

end Weights

/-- One step keeps a property of every task when the successors of the acting task have it, and
the other tasks keep it. -/
theorem Program.step_forall {P : Program Shared Task Signal} {s s' : Soup Shared Task}
    {a : Action Task Signal} {Q : Shared → Task → Prop}
    (hstep : P.step s a = some s')
    (hspawn : ∀ t, a = .spawn t → P.starts t = true → Q s.shared t)
    (hrun : ∀ i signal pre t post shared ts, a = .run i signal → s.tasks = pre ++ t :: post →
      P.act s.shared t signal = some (shared, ts) →
      (∀ u ∈ ts, Q shared u) ∧ ∀ u ∈ pre ++ post, Q s.shared u → Q shared u)
    (hs : ∀ t ∈ s.tasks, Q s.shared t) : ∀ t ∈ s'.tasks, Q s'.shared t := by
  cases a with
  | spawn t =>
      obtain ⟨hstart, rfl⟩ := step_spawn hstep
      intro u hu
      rcases List.mem_append.mp hu with hold | hnew
      · exact hs u hold
      · obtain rfl := List.mem_singleton.mp hnew
        exact hspawn u rfl hstart
  | run i signal =>
      obtain ⟨pre, t, post, shared, ts, htasks, hget, hact, rfl⟩ := step_run hstep
      obtain ⟨hnew, hold⟩ := hrun i signal pre t post shared ts rfl htasks hact
      have hother : ∀ u ∈ pre ++ post, Q shared u := by
        intro u hu
        refine hold u hu (hs u ?_)
        rw [htasks]
        rcases List.mem_append.mp hu with hpre | hpost
        · exact List.mem_append_left _ hpre
        · exact List.mem_append_right _ (List.mem_cons_of_mem _ hpost)
      intro u hu
      rcases List.mem_append.mp hu with hpre | hrest
      · exact hother u (List.mem_append_left _ hpre)
      · rcases List.mem_append.mp hrest with hts | hpost
        · exact hnew u hts
        · exact hother u (List.mem_append_right _ hpost)

end Tasks
