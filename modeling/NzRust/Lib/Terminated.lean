import NzRust.Lib.Checked

/-!
# Terminated strings

The scan of a buffer for a terminator, by index and with every access checked,
against the list in front of the terminator.
-/

namespace Terminated

open Checked

universe u

variable {α ε : Type} (p : α → Bool)

/-- `while i < xs.len() && !p(xs[i]) { i += 1 }`. -/
def scanUntil (xs : List α) (i : Nat) : Exec ε Nat :=
  if i < xs.length then do
    let a ← index xs i
    if p a then .ok i else scanUntil xs (i + 1)
  else .ok i
termination_by xs.length - i

/-- The elements of `xs` in front of the first terminator. -/
def upTo (xs : List α) : List α :=
  xs.takeWhile fun a => !p a

/-- The first terminator of `xs` and what stands behind it. -/
def fromOn (xs : List α) : List α :=
  xs.dropWhile fun a => !p a

variable {p}

theorem upTo_append_fromOn (xs : List α) : upTo p xs ++ fromOn p xs = xs :=
  List.takeWhile_append_dropWhile

theorem take_upTo (xs : List α) : xs.take (upTo p xs).length = upTo p xs := by
  have h : (upTo p xs ++ fromOn p xs).take (upTo p xs).length = upTo p xs := List.take_left
  rwa [upTo_append_fromOn] at h

theorem drop_upTo (xs : List α) : xs.drop (upTo p xs).length = fromOn p xs := by
  have h : (upTo p xs ++ fromOn p xs).drop (upTo p xs).length = fromOn p xs := List.drop_left
  rwa [upTo_append_fromOn] at h

theorem length_upTo_le (xs : List α) : (upTo p xs).length ≤ xs.length :=
  (List.takeWhile_prefix _).length_le

/-- The scan stops at the terminator, or at the end of the buffer when there is none. -/
theorem scanUntil_eq (xs : List α) (i : Nat) :
    (scanUntil p xs i : Exec ε Nat) = .ok (i + (upTo p (xs.drop i)).length) := by
  fun_induction scanUntil (ε := ε) p xs i with
  | case1 i hi ih =>
      rw [index_eq hi, ok_bind, List.drop_eq_getElem_cons hi, upTo, List.takeWhile_cons]
      cases hstop : p xs[i] with
      | true => simp
      | false =>
          simp only [Bool.false_eq_true, if_false, Bool.not_false, if_true, List.length_cons]
          rw [ih, upTo]
          congr 1
          omega
  | case2 i hi =>
      rw [List.drop_eq_nil_of_le (Nat.not_lt.mp hi)]
      rfl

/-- The slice between the start of a scan and its end. -/
theorem slice_upTo (xs : List α) {i : Nat} (hi : i ≤ xs.length) :
    (slice xs i (i + (upTo p (xs.drop i)).length) : Exec ε (List α)) =
      .ok (upTo p (xs.drop i)) := by
  have hlen := length_upTo_le (p := p) (xs.drop i)
  rw [List.length_drop] at hlen
  rw [slice_eq (by omega) (by omega), Nat.add_sub_cancel_left, take_upTo]

/-- What is left of the buffer at the end of a scan. -/
theorem drop_scan (xs : List α) (i : Nat) :
    xs.drop (i + (upTo p (xs.drop i)).length) = fromOn p (xs.drop i) := by
  rw [← List.drop_drop, drop_upTo]

/-- A string without terminators in front of one is what a scan finds. -/
theorem upTo_append {xs rest : List α} {stop : α} (h : ∀ a ∈ xs, p a = false) (hstop : p stop) :
    upTo p (xs ++ stop :: rest) = xs := by
  rw [upTo, List.takeWhile_append_of_pos (by simpa using h), List.takeWhile_cons_of_neg (by simpa),
    List.append_nil]

theorem fromOn_append {xs rest : List α} {stop : α} (h : ∀ a ∈ xs, p a = false) (hstop : p stop) :
    fromOn p (xs ++ stop :: rest) = stop :: rest := by
  rw [fromOn, List.dropWhile_append_of_pos (by simpa using h),
    List.dropWhile_cons_of_neg (by simpa)]

end Terminated
