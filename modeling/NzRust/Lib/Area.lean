import Mathlib.Algebra.Order.Ring.Int
import Mathlib.Data.List.Basic

/-!
# Ranges of a list

Items at an offset of a list, and lists that are written over a range of it.
What is written apart from a range leaves the range as it was, so that items
written to ranges of their own can all be read back.
-/

namespace Area

variable {α : Type}

/-- `xs` holds `ys` from an offset on. -/
structure At (xs : List α) (off : Nat) (ys : List α) : Prop where
  room : off + ys.length ≤ xs.length
  items : (xs.drop off).take ys.length = ys

theorem At.append {xs ys : List α} {off : Nat} (h : At xs off ys) (tail : List α) :
    At (xs ++ tail) off ys := by
  have hroom := h.room
  constructor
  · rw [List.length_append]
    omega
  · rw [List.drop_append_of_le_length (by omega), List.take_append_of_le_length, h.items]
    rw [List.length_drop]
    omega

theorem At.of_append (xs ys tail : List α) : At (xs ++ (ys ++ tail)) xs.length ys := by
  constructor
  · rw [List.length_append, List.length_append]
    omega
  · rw [List.drop_left, List.take_left]

/-- The parts of what stands at an offset stand one behind the other. -/
theorem At.parts {xs ys zs : List α} {off : Nat} (h : At xs off (ys ++ zs)) :
    At xs off ys ∧ At xs (off + ys.length) zs := by
  have hroom := h.room
  have hitems := h.items
  rw [List.length_append] at hroom hitems
  refine ⟨⟨by omega, ?_⟩, ⟨by omega, ?_⟩⟩
  · have htake := congrArg (List.take ys.length) hitems
    rw [List.take_take, List.take_left, Nat.min_eq_left (by omega)] at htake
    exact htake
  · have hdrop := congrArg (List.drop ys.length) hitems
    rw [List.drop_take, List.drop_left, List.drop_drop, Nat.add_sub_cancel_left] at hdrop
    exact hdrop

theorem At.getElem? {xs ys : List α} {off : Nat} (h : At xs off ys) {i : Nat}
    (hi : i < ys.length) : xs[off + i]? = ys[i]? := by
  rw [← h.items, List.getElem?_take_of_lt hi, List.getElem?_drop]

/-! ## Writing -/

/-- Write over the items from an offset on. -/
def poke (xs : List α) (off : Nat) (ys : List α) : List α :=
  xs.take off ++ (ys ++ xs.drop (off + ys.length))

section Poke

variable {xs ys : List α} {off : Nat} (hroom : off + ys.length ≤ xs.length)

include hroom

theorem poke_length : (poke xs off ys).length = xs.length := by
  rw [poke, List.length_append, List.length_append, List.length_take, List.length_drop]
  omega

theorem poke_at : At (poke xs off ys) off ys := by
  have h := At.of_append (xs.take off) ys (xs.drop (off + ys.length))
  rwa [List.length_take_of_le (by omega)] at h

theorem At.poke {zs : List α} {off' : Nat} (h : At xs off' zs)
    (hapart : off + ys.length ≤ off' ∨ off' + zs.length ≤ off) :
    At (Area.poke xs off ys) off' zs := by
  have hroom' := h.room
  refine ⟨by rw [poke_length hroom]; omega, ?_⟩
  rw [Area.poke]
  obtain hbefore | hbehind := hapart
  · -- the range lies in what is behind the write
    have hskip : off' = (xs.take off).length + (ys.length + (off' - (off + ys.length))) := by
      rw [List.length_take_of_le (by omega)]
      omega
    rw [hskip, ← List.drop_drop, List.drop_left, ← List.drop_drop, List.drop_left, List.drop_drop]
    have hoff : off + ys.length + (off' - (off + ys.length)) = off' := by
      omega
    rw [hoff, h.items]
  · rw [List.drop_append_of_le_length (by rw [List.length_take]; omega),
      List.take_append_of_le_length (by rw [List.length_drop, List.length_take]; omega),
      List.drop_take, List.take_take, Nat.min_eq_left (by omega), h.items]

end Poke

/-- Write one after the other. -/
def pokeAll (xs : List α) : List (Nat × List α) → List α
  | [] => xs
  | (off, ys) :: writes => pokeAll (poke xs off ys) writes

/-- Writes that fit and do not meet. -/
def Apart (a b : Nat × List α) : Prop :=
  a.1 + a.2.length ≤ b.1 ∨ b.1 + b.2.length ≤ a.1

theorem pokeAll_length {writes : List (Nat × List α)} {xs : List α}
    (hroom : ∀ w ∈ writes, w.1 + w.2.length ≤ xs.length) :
    (pokeAll xs writes).length = xs.length := by
  induction writes generalizing xs with
  | nil => rfl
  | cons w writes ih =>
      have hlen := poke_length (hroom w List.mem_cons_self)
      rw [pokeAll, ih, hlen]
      intro w' hw'
      rw [hlen]
      exact hroom w' (List.mem_cons_of_mem _ hw')

/-- Later writes leave a range alone that they do not meet. -/
theorem At.pokeAll {writes : List (Nat × List α)} {xs zs : List α} {off : Nat} (h : At xs off zs)
    (hroom : ∀ w ∈ writes, w.1 + w.2.length ≤ xs.length)
    (hapart : ∀ w ∈ writes, Apart w (off, zs)) : At (Area.pokeAll xs writes) off zs := by
  induction writes generalizing xs with
  | nil => exact h
  | cons w writes ih =>
      have hfirst := hroom w List.mem_cons_self
      apply ih (h.poke hfirst (hapart w List.mem_cons_self))
      · intro w' hw'
        rw [poke_length hfirst]
        exact hroom w' (List.mem_cons_of_mem _ hw')
      · intro w' hw'
        exact hapart w' (List.mem_cons_of_mem _ hw')

/-- What is written apart from everything else is read back. -/
theorem pokeAll_at {writes : List (Nat × List α)} {xs : List α}
    (hroom : ∀ w ∈ writes, w.1 + w.2.length ≤ xs.length) (hapart : writes.Pairwise Apart)
    {w : Nat × List α} (hw : w ∈ writes) : At (pokeAll xs writes) w.1 w.2 := by
  induction writes generalizing xs with
  | nil => exact absurd hw List.not_mem_nil
  | cons first writes ih =>
      have hfirst := hroom first List.mem_cons_self
      have hrest : ∀ w ∈ writes, w.1 + w.2.length ≤ (poke xs first.1 first.2).length := by
        intro w' hw'
        rw [poke_length hfirst]
        exact hroom w' (List.mem_cons_of_mem _ hw')
      obtain ⟨hhead, htail⟩ := List.pairwise_cons.mp hapart
      obtain rfl | hmem := List.mem_cons.mp hw
      · exact (poke_at hfirst).pokeAll hrest fun w' hw' => (hhead w' hw').symm
      · exact ih hrest htail hmem

end Area
