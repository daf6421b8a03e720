import Mathlib.Algebra.Order.Ring.Int
import Mathlib.Data.List.Infix

/-!
# Longest suffixes

The longest suffix of a list that meets a condition, and how it grows when the
list is extended at its end. A condition that passes to every infix makes the
longest suffix of the extended list a suffix of the old one, extended.
-/

namespace Suffix

universe u

variable {α : Type u}

/-- A suffix of `xs` that meets `keep`, of which every other such suffix is a suffix. -/
structure Longest (keep : List α → Prop) (xs kept : List α) : Prop where
  suffix : kept <:+ xs
  meets : keep kept
  longest : ∀ ys, ys <:+ xs → keep ys → ys <:+ kept

/-- A condition that a list hands on to its contiguous parts. -/
def InfixClosed (keep : List α → Prop) : Prop :=
  ∀ xs ys, xs <:+: ys → keep ys → keep xs

variable {keep : List α → Prop}

theorem Longest.nil (h : keep []) : Longest keep [] [] where
  suffix := List.suffix_refl []
  meets := h
  longest _ hys _ := hys

/-- A longer suffix of a list that meets the condition is one of its whole. -/
theorem Longest.of_meets {xs : List α} (h : keep xs) : Longest keep xs xs where
  suffix := List.suffix_refl xs
  meets := h
  longest _ hys _ := hys

/-- An element in front that the condition rejects is left out. -/
theorem Longest.cons {x : α} {xs kept : List α} (hx : ¬ keep (x :: xs))
    (h : Longest keep xs kept) : Longest keep (x :: xs) kept where
  suffix := h.suffix.trans (List.suffix_cons x xs)
  meets := h.meets
  longest ys hys hkeep := by
    rcases List.suffix_cons_iff.mp hys with rfl | htail
    · exact absurd hkeep hx
    · exact h.longest ys htail hkeep

/-- Extending the list at its end needs only what was kept of it. -/
theorem Longest.extend (hclosed : InfixClosed keep) {xs kept kept' : List α} {x : α}
    (h : Longest keep xs kept) (h' : Longest keep (kept ++ [x]) kept') :
    Longest keep (xs ++ [x]) kept' where
  suffix := by
    obtain ⟨front, hfront⟩ := h.suffix
    refine h'.suffix.trans ⟨front, ?_⟩
    rw [← List.append_assoc, hfront]
  meets := h'.meets
  longest ys hys hkeep := by
    rcases List.eq_nil_or_concat ys with rfl | ⟨init, last, rfl⟩
    · exact List.nil_suffix
    · -- without its last element the suffix is one of the old list
      obtain ⟨front, hfront⟩ := hys
      rw [List.concat_eq_append, ← List.append_assoc] at hfront
      obtain ⟨hinit, hlast⟩ := List.append_inj' hfront rfl
      have hinner : keep init :=
        hclosed init _ ⟨[], [last], by rw [List.concat_eq_append]; rfl⟩ hkeep
      obtain ⟨rest, hrest⟩ := h.longest init ⟨front, hinit⟩ hinner
      refine h'.longest _ ⟨rest, ?_⟩ hkeep
      rw [List.concat_eq_append, hlast, ← List.append_assoc, hrest]

end Suffix
