import Mathlib.Data.List.Basic

/-!
# Objects

An object answers calls, and every answer and the state behind it are functions
of the state in front. One object stands for another when a relation between
their states makes the answers equal and is kept; then no sequence of calls tells
them apart. An object that hands out the items of a list hands them out in order
when every call takes a front of what is left.
-/

namespace Object

universe u v w

structure Machine (σ : Type u) (C : Type v) (R : Type w) where
  call : σ → C → R × σ

namespace Machine

variable {σ : Type u} {C : Type v} {R : Type w} (M : Machine σ C R)

def replies : σ → List C → List R
  | _, [] => []
  | s, c :: cs => (M.call s c).1 :: replies (M.call s c).2 cs

def after : σ → List C → σ
  | s, [] => s
  | s, c :: cs => after (M.call s c).2 cs

variable {M}

theorem replies_append (s : σ) (cs ds : List C) :
    M.replies s (cs ++ ds) = M.replies s cs ++ M.replies (M.after s cs) ds := by
  induction cs generalizing s with
  | nil => rfl
  | cons c cs ih => exact congrArg ((M.call s c).1 :: ·) (ih _)

variable {α : Type*} {out : R → List α} {left : σ → List α}

/-- When every call takes a front of what is left, what a run hands out and what is left behind it
are what was left in front. -/
theorem handed_append_left {ok : C → Prop}
    (h : ∀ s c, ok c → out (M.call s c).1 ++ left (M.call s c).2 = left s) (s : σ) {cs : List C}
    (hcs : ∀ c ∈ cs, ok c) : (M.replies s cs).flatMap out ++ left (M.after s cs) = left s := by
  induction cs generalizing s with
  | nil => rfl
  | cons c cs ih =>
      have hrest := ih (M.call s c).2 fun c' hc' => hcs c' (List.mem_cons_of_mem _ hc')
      rw [replies, after, List.flatMap_cons, List.append_assoc, hrest]
      exact h s c (hcs c List.mem_cons_self)

/-- When calls may also drop something, what a run hands out is among what was left, in order. -/
theorem handed_sublist (h : ∀ s c, (out (M.call s c).1 ++ left (M.call s c).2).Sublist (left s))
    (s : σ) (cs : List C) : ((M.replies s cs).flatMap out).Sublist (left s) := by
  induction cs generalizing s with
  | nil => exact List.nil_sublist _
  | cons c cs ih => exact ((List.Sublist.refl _).append (ih _)).trans (h s c)

end Machine

section Simulation

variable {σ : Type*} {τ : Type*} {C : Type*} {R : Type*}

/-- `Rel` relates the states of two objects that answer alike. -/
structure Simulates (M : Machine σ C R) (N : Machine τ C R) (Rel : σ → τ → Prop) : Prop where
  call : ∀ s t c, Rel s t → (M.call s c).1 = (N.call t c).1 ∧ Rel (M.call s c).2 (N.call t c).2

variable {M : Machine σ C R} {N : Machine τ C R} {Rel : σ → τ → Prop}

theorem Simulates.replies (h : Simulates M N Rel) {s : σ} {t : τ} (hs : Rel s t) (cs : List C) :
    M.replies s cs = N.replies t cs := by
  induction cs generalizing s t with
  | nil => rfl
  | cons c cs ih =>
      obtain ⟨hreply, hrest⟩ := h.call s t c hs
      rw [Machine.replies, Machine.replies, hreply, ih hrest]

end Simulation

end Object
