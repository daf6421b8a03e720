import Mathlib.Data.List.Basic
import Mathlib.Data.List.Induction

/-!
# Last writes

A run in which each action may write a register leaves the value of the last
write. `lastWrite w xs` is that value; it is not changed by actions that do not
write, and of actions that all write only the last one counts.
-/

namespace LastWrite

variable {α β σ : Type}

/-- The value that the last write leaves. -/
def lastWrite (w : α → Option β) (xs : List α) : Option β :=
  (xs.filterMap w).getLast?

/-- Of the elements with `p`, only the last. -/
def keepLast (p : α → Bool) : List α → List α
  | [] => []
  | x :: xs => if p x && xs.any p then keepLast p xs else x :: keepLast p xs

variable {w u v : α → Option β} {p q : α → Bool} {xs : List α}

@[simp] theorem lastWrite_nil (w : α → Option β) : lastWrite w [] = none := rfl

theorem lastWrite_append (w : α → Option β) (xs ys : List α) :
    lastWrite w (xs ++ ys) = (lastWrite w ys).or (lastWrite w xs) := by
  rw [lastWrite, List.filterMap_append, List.getLast?_append]
  rfl

theorem lastWrite_concat (w : α → Option β) (xs : List α) (x : α) :
    lastWrite w (xs ++ [x]) = (w x).or (lastWrite w xs) := by
  rw [lastWrite_append]
  cases hx : w x <;> simp [lastWrite, hx]

/-- The last write decides what a run leaves in a register. -/
theorem foldl_register (get : σ → β) {step : σ → α → σ}
    (hstep : ∀ s x, get (step s x) = (w x).getD (get s)) (s : σ) (xs : List α) :
    get (xs.foldl step s) = (lastWrite w xs).getD (get s) := by
  induction xs using List.reverseRecOn with
  | nil => rfl
  | append_singleton xs x ih =>
      rw [List.foldl_append, List.foldl_cons, List.foldl_nil, hstep, ih, lastWrite_concat]
      cases w x <;> rfl

theorem lastWrite_eq_none : lastWrite w xs = none ↔ ∀ x ∈ xs, w x = none := by
  rw [lastWrite, List.getLast?_eq_none_iff, List.filterMap_eq_nil_iff]

theorem mem_of_lastWrite {b : β} (h : lastWrite w xs = some b) : ∃ x ∈ xs, w x = some b :=
  List.mem_filterMap.mp (List.mem_of_getLast? h)

theorem lastWrite_congr (h : ∀ x ∈ xs, w x = u x) : lastWrite w xs = lastWrite u xs := by
  rw [lastWrite, List.filterMap_congr h, lastWrite]

theorem lastWrite_map {γ : Type} (f : β → γ) (w : α → Option β) (xs : List α) :
    lastWrite (fun x => (w x).map f) xs = (lastWrite w xs).map f := by
  rw [lastWrite, lastWrite, ← List.getLast?_map, List.map_filterMap]

theorem lastWrite_filter (hw : ∀ x, w x ≠ none → p x = true) (xs : List α) :
    lastWrite w (xs.filter p) = lastWrite w xs := by
  rw [lastWrite, List.filterMap_filter, lastWrite]
  congr 2
  funext x
  split
  · rfl
  · next hp => exact (not_not.mp fun hne => hp (hw x hne)).symm

/-- Runs with the same writers leave the same. -/
theorem lastWrite_of_filter (hw : ∀ x, w x ≠ none → p x = true) {xs ys : List α}
    (h : xs.filter p = ys.filter p) : lastWrite w xs = lastWrite w ys := by
  rw [← lastWrite_filter hw xs, ← lastWrite_filter hw ys, h]

/-- Two writers of one register: it holds what one of them wrote last. -/
theorem lastWrite_or (u v : α → Option β) (xs : List α) :
    (lastWrite (fun x => (u x).or (v x)) xs = lastWrite u xs ∧ lastWrite u xs ≠ none) ∨
      (lastWrite (fun x => (u x).or (v x)) xs = lastWrite v xs ∧
        (lastWrite v xs = none → lastWrite u xs = none)) := by
  induction xs using List.reverseRecOn with
  | nil => exact .inr ⟨rfl, fun _ => rfl⟩
  | append_singleton xs x ih =>
      simp only [lastWrite_concat]
      cases hu : u x with
      | some b => exact .inl ⟨rfl, nofun⟩
      | none =>
          cases hv : v x with
          | some b => exact .inr ⟨rfl, nofun⟩
          | none => exact ih

/-- Where two writers end with the same value, it does not matter which was the last. -/
theorem lastWrite_agree (xs : List α)
    (hagree : ∀ a b, lastWrite u xs = some a → lastWrite v xs = some b → a = b) :
    lastWrite (fun x => (u x).or (v x)) xs = (lastWrite u xs).or (lastWrite v xs) := by
  rcases lastWrite_or u v xs with ⟨hboth, hsome⟩ | ⟨hboth, hnone⟩
  · rw [hboth]
    cases hu : lastWrite u xs with
    | none => exact absurd hu hsome
    | some a => rfl
  · rw [hboth]
    cases hu : lastWrite u xs with
    | none => rfl
    | some a =>
        cases hv : lastWrite v xs with
        | none =>
            rw [hnone hv] at hu
            cases hu
        | some b => rw [hagree a b hu hv]; rfl

/-! ## Keeping the last -/

theorem filter_keepLast_other (hpq : ∀ x, q x = true → p x = false) (xs : List α) :
    (keepLast p xs).filter q = xs.filter q := by
  induction xs with
  | nil => rfl
  | cons x xs ih =>
      rw [keepLast]
      split_ifs with hdrop
      · have hq : q x = false := by
          rw [Bool.and_eq_true] at hdrop
          by_contra hq
          rw [hpq x (Bool.of_not_eq_false hq)] at hdrop
          cases hdrop.1
        rw [ih, List.filter_cons_of_neg (by simp [hq])]
      · rw [List.filter_cons, List.filter_cons, ih]

theorem filter_keepLast (xs : List α) :
    (keepLast p xs).filter p = (xs.filter p).getLast?.toList := by
  induction xs with
  | nil => rfl
  | cons x xs ih =>
      rw [keepLast]
      by_cases hx : p x = true
      · rw [List.filter_cons_of_pos hx]
        cases hany : xs.any p with
        | true =>
            have hsome : xs.filter p ≠ [] := by
              rw [ne_eq, List.filter_eq_nil_iff]
              intro hnone
              rw [List.any_eq_true] at hany
              obtain ⟨y, hy, hpy⟩ := hany
              exact hnone y hy hpy
            rw [hx, Bool.true_and, if_pos rfl, ih, List.getLast?_cons_of_ne_nil hsome]
        | false =>
            have hnil : xs.filter p = [] := by
              rw [List.filter_eq_nil_iff]
              exact fun y hy hpy => List.any_eq_false.mp hany y hy hpy
            rw [Bool.and_false, if_neg nofun, List.filter_cons_of_pos hx, ih, hnil]
            rfl
      · rw [if_neg (by simp [hx]), List.filter_cons_of_neg hx, List.filter_cons_of_neg hx, ih]

/-- Of actions that all write, the last one is enough. -/
theorem lastWrite_keepLast (hw : ∀ x, w x ≠ none → p x = true) (xs : List α)
    (hall : ∀ x ∈ xs, p x = true → w x ≠ none) :
    lastWrite w (keepLast p xs) = lastWrite w xs := by
  rw [← lastWrite_filter hw, filter_keepLast, ← lastWrite_filter hw xs]
  cases hlast : xs.filter p using List.reverseRecOn with
  | nil => rfl
  | append_singleton ys y =>
      have hy : y ∈ xs.filter p := by
        rw [hlast]
        exact List.mem_append_right _ List.mem_cons_self
      rw [List.mem_filter] at hy
      obtain ⟨b, hb⟩ := Option.ne_none_iff_exists'.mp (hall y hy.1 hy.2)
      rw [List.getLast?_concat, lastWrite_concat, hb]
      simp [lastWrite, hb]

theorem mem_keepLast {x : α} {xs : List α} (h : x ∈ keepLast p xs) : x ∈ xs := by
  induction xs with
  | nil => exact h
  | cons y ys ih =>
      rw [keepLast] at h
      split_ifs at h
      · exact List.mem_cons_of_mem y (ih h)
      · rcases List.mem_cons.mp h with rfl | h
        · exact List.mem_cons_self
        · exact List.mem_cons_of_mem y (ih h)

/-- The one that is kept has the last write. -/
theorem lastWrite_of_mem_keepLast (hw : ∀ x, w x ≠ none → p x = true) {x : α}
    (hx : x ∈ keepLast p xs) (hp : p x = true) : lastWrite w (keepLast p xs) = w x := by
  have hmem : x ∈ (keepLast p xs).filter p := List.mem_filter.mpr ⟨hx, hp⟩
  rw [← lastWrite_filter hw]
  rw [filter_keepLast, Option.mem_toList] at hmem
  rw [filter_keepLast, hmem, Option.toList_some]
  cases hwx : w x <;> simp [lastWrite, hwx]

/-- The last element stays. -/
theorem getLast?_keepLast (xs : List α) : (keepLast p xs).getLast? = xs.getLast? := by
  induction xs with
  | nil => rfl
  | cons x xs ih =>
      rw [keepLast]
      split_ifs with hdrop
      · have hne : xs ≠ [] := by
          rintro rfl
          simp at hdrop
        rw [ih, List.getLast?_cons_of_ne_nil hne]
      · rw [List.getLast?_cons, List.getLast?_cons, ih]

end LastWrite
