import NzRust.Lib.Soup

/-!
# Annotated tasks

A program whose tasks and shared state carry more than those of another one
refines it when forgetting the annotation turns every step of a task into a step
of the task beneath. Then every run of the annotated soup is a run of the plain
one.
-/

namespace Tasks

universe u v w x y z

variable {Shared : Type u} {Task : Type v} {Signal : Type w}
  {Shared' : Type x} {Task' : Type y} {Signal' : Type z}

/-- A soup without its annotation. -/
def Soup.erase (shared : Shared' → Shared) (task : Task' → Task) (s : Soup Shared' Task') :
    Soup Shared Task :=
  ⟨shared s.shared, s.tasks.map task⟩

/-- Forgetting keeps what may start, and every step of a task. -/
structure Program.Erases (P' : Program Shared' Task' Signal') (P : Program Shared Task Signal)
    (shared : Shared' → Shared) (task : Task' → Task) : Prop where
  starts : ∀ t, P'.starts t = true → P.starts (task t) = true
  act : ∀ s t signal s' ts, P'.act s t signal = some (s', ts) →
    ∃ plain, P.act (shared s) (task t) plain = some (shared s', ts.map task)

namespace Program.Erases

variable {P' : Program Shared' Task' Signal'} {P : Program Shared Task Signal}
  {shared : Shared' → Shared} {task : Task' → Task}

theorem step (h : P'.Erases P shared task) {s s' : Soup Shared' Task'} {a : Action Task' Signal'}
    (hstep : P'.step s a = some s') :
    ∃ plain, P.step (s.erase shared task) plain = some (s'.erase shared task) := by
  cases a with
  | spawn t =>
      obtain ⟨hstart, rfl⟩ := step_spawn hstep
      refine ⟨.spawn (task t), ?_⟩
      simp only [Program.step, h.starts t hstart, if_true, Soup.erase, List.map_append,
        List.map_cons, List.map_nil]
  | run i signal =>
      simp only [Program.step] at hstep
      split at hstep
      · cases hstep
      next t ht =>
        split at hstep
        · cases hstep
        next s₁ ts hact =>
          obtain rfl := Option.some.inj hstep
          obtain ⟨plain, hplain⟩ := h.act _ _ _ _ _ hact
          refine ⟨.run i plain, ?_⟩
          have hget : (s.erase shared task).tasks[i]? = some (task t) := by
            simp only [Soup.erase, List.getElem?_map, ht, Option.map_some]
          simp only [Program.step, hget]
          simp only [Soup.erase, hplain, List.map_append, List.map_take, List.map_drop]

/-- Every run over annotated tasks is a run of the plain program. -/
theorem reachable (h : P'.Erases P shared task) {initial' : Soup Shared' Task' → Prop}
    {initial : Soup Shared Task → Prop} {s : Soup Shared' Task'}
    (hinit : ∀ s, initial' s → initial (s.erase shared task))
    (hs : (P'.system initial').Reachable s) :
    (P.system initial).Reachable (s.erase shared task) := by
  induction hs with
  | start h₀ => exact .start (hinit _ h₀)
  | move _ hstep ih =>
      obtain ⟨plain, hplain⟩ := h.step hstep
      exact ih.move (a := plain) hplain

end Program.Erases

end Tasks
