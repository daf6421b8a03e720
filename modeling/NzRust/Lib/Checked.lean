import Mathlib.Algebra.Order.Ring.Int
import Mathlib.Data.List.Basic

/-!
# Programs that may panic

A computation ends with a value, with an error that it reports, or in a panic:
an arithmetic overflow, a slice or index out of bounds, a conversion that was
unwrapped and failed. `Safe x Q` says that `x` does not panic and that a value
it yields meets `Q`; a reported error is allowed.
-/

namespace Checked

universe u

inductive Fault (ε : Type) where
  | error (e : ε)
  | panic
  deriving DecidableEq, Repr

abbrev Exec (ε α : Type) := Except (Fault ε) α

variable {ε α β : Type}

/-- Report an error. -/
def fail (e : ε) : Exec ε α :=
  .error (.error e)

def panics : Exec ε α :=
  .error .panic

/-- A computation that only reports errors. -/
def lift : Except ε α → Exec ε α
  | .ok a => .ok a
  | .error e => fail e

/-- `ok_or_else`. -/
def orFail (e : ε) : Option α → Exec ε α
  | some a => .ok a
  | none => fail e

/-! ## Machine operations -/

/-- The result of an operation on signed integers of `bits` bits. -/
def int (bits : Nat) (x : Int) : Exec ε Int :=
  if -(2 ^ (bits - 1)) ≤ x ∧ x < 2 ^ (bits - 1) then .ok x else panics

/-- `/` and `%` on signed integers of `bits` bits. -/
def divInt (bits : Nat) (x y : Int) : Exec ε Int :=
  if y = 0 ∨ x = -(2 ^ (bits - 1)) ∧ y = -1 then panics else .ok (x.tdiv y)

def remInt (bits : Nat) (x y : Int) : Exec ε Int :=
  if y = 0 ∨ x = -(2 ^ (bits - 1)) ∧ y = -1 then panics else .ok (x.tmod y)

/-- `+`, `*` and `-` on unsigned integers of `bits` bits. -/
def addWord (bits a b : Nat) : Exec ε Nat :=
  if a + b < 2 ^ bits then .ok (a + b) else panics

def mulWord (bits a b : Nat) : Exec ε Nat :=
  if a * b < 2 ^ bits then .ok (a * b) else panics

def subWord (a b : Nat) : Exec ε Nat :=
  if b ≤ a then .ok (a - b) else panics

/-- `as` to an unsigned integer of `bits` bits, which wraps. -/
def asWord (bits : Nat) (x : Int) : Nat :=
  (x % 2 ^ bits).toNat

/-- `checked_add` on words of `bits` bits. -/
def addChecked (bits a b : Nat) : Option Nat :=
  if a + b < 2 ^ bits then some (a + b) else none

/-- `checked_mul` on words of `bits` bits. -/
def mulChecked (bits a b : Nat) : Option Nat :=
  if a * b < 2 ^ bits then some (a * b) else none

/-- `checked_add` and `checked_mul` on signed integers of `bits` bits, of the exact result. -/
def intChecked (bits : Nat) (x : Int) : Option Int :=
  if -(2 ^ (bits - 1)) ≤ x ∧ x < 2 ^ (bits - 1) then some x else none

/-- `&xs[a..b]`. -/
def slice (xs : List α) (a b : Nat) : Exec ε (List α) :=
  if a ≤ b ∧ b ≤ xs.length then .ok ((xs.drop a).take (b - a)) else panics

/-- `xs.get(a..b)`. -/
def getSlice (xs : List α) (a b : Nat) : Option (List α) :=
  if a ≤ b ∧ b ≤ xs.length then some ((xs.drop a).take (b - a)) else none

/-- `xs[i]`. -/
def index (xs : List α) (i : Nat) : Exec ε α :=
  match xs[i]? with
  | some a => .ok a
  | none => panics

/-! ## Computations that end well -/

theorem lift_ok {x : Except ε α} {a : α} (h : lift x = .ok a) : x = .ok a := by
  cases x with
  | ok b => exact congrArg _ (Except.ok.inj h)
  | error e => cases h

theorem lift_mapError {x : Except ε α} {f : ε → ε} {a : α}
    (h : lift (x.mapError f) = .ok a) : x = .ok a := by
  cases x with
  | ok b => exact congrArg _ (Except.ok.inj h)
  | error e => cases h

/-- A computation that ends well has passed its first step. -/
theorem except_bind_ok {x : Except ε α} {f : α → Except ε β} {b : β}
    (h : (x >>= f) = .ok b) : ∃ a, x = .ok a ∧ f a = .ok b := by
  cases x with
  | ok a => exact ⟨a, rfl, h⟩
  | error e => cases h

theorem bind_ok {x : Exec ε α} {f : α → Exec ε β} {b : β}
    (h : (x >>= f) = .ok b) : ∃ a, x = .ok a ∧ f a = .ok b :=
  except_bind_ok h

theorem addWord_ok {bits a b c : Nat} (h : (addWord bits a b : Exec ε Nat) = .ok c) :
    c = a + b ∧ a + b < 2 ^ bits := by
  unfold addWord at h
  split at h
  · next hfits => exact ⟨(Except.ok.inj h).symm, hfits⟩
  · cases h

theorem slice_ok {xs ys : List α} {a b : Nat}
    (h : (slice xs a b : Exec ε (List α)) = .ok ys) :
    a ≤ b ∧ b ≤ xs.length ∧ ys = (xs.drop a).take (b - a) := by
  unfold slice at h
  split at h
  · next hbounds => exact ⟨hbounds.1, hbounds.2, (Except.ok.inj h).symm⟩
  · cases h

theorem orFail_ok {e : ε} {x : Option α} {a : α} (h : orFail e x = .ok a) :
    x = some a := by
  cases x with
  | some b => exact congrArg _ (Except.ok.inj h)
  | none => cases h

/-! ## Safety -/

/-- No panic, and a value only with `Q`. -/
def Safe (x : Exec ε α) (Q : α → Prop) : Prop :=
  match x with
  | .ok a => Q a
  | .error (.error _) => True
  | .error .panic => False

theorem Safe.value {x : Exec ε α} {Q : α → Prop} (h : Safe x Q) {a : α} (hx : x = .ok a) : Q a := by
  subst hx
  exact h

theorem Safe.no_panic {x : Exec ε α} {Q : α → Prop} (h : Safe x Q) : x ≠ panics := by
  rintro rfl
  exact h

theorem Safe.ok {Q : α → Prop} {a : α} (h : Q a) : Safe (.ok a : Exec ε α) Q :=
  h

theorem Safe.fail (e : ε) (Q : α → Prop) : Safe (Checked.fail e) Q :=
  trivial

theorem Safe.weaken {x : Exec ε α} {Q R : α → Prop} (h : Safe x Q) (hQ : ∀ a, Q a → R a) :
    Safe x R := by
  cases x with
  | ok a => exact hQ a h
  | error e =>
      cases e with
      | error e => trivial
      | panic => exact h

theorem ok_bind (a : α) (f : α → Exec ε β) : (Except.ok a >>= f) = f a :=
  rfl

theorem Safe.bind {x : Exec ε α} {f : α → Exec ε β} {Q : α → Prop} {R : β → Prop}
    (h : Safe x Q) (hf : ∀ a, Q a → Safe (f a) R) : Safe (x >>= f) R := by
  cases x with
  | ok a => exact hf a h
  | error e =>
      cases e with
      | error e => trivial
      | panic => exact h

theorem Safe.ite {c : Prop} [Decidable c] {x y : Exec ε α} {Q : α → Prop}
    (hx : c → Safe x Q) (hy : ¬c → Safe y Q) : Safe (if c then x else y) Q := by
  by_cases hc : c
  · rw [if_pos hc]
    exact hx hc
  · rw [if_neg hc]
    exact hy hc

/-- A check that reports an error. -/
theorem Safe.guard {c : Prop} [Decidable c] {e : ε} {x : Exec ε α} {Q : α → Prop}
    (h : ¬c → Safe x Q) : Safe (if c then Checked.fail e else x) Q :=
  .ite (fun _ => .fail e Q) h

theorem lift_safe (x : Except ε α) : Safe (lift x) fun a => x = .ok a := by
  cases x with
  | ok a => exact rfl
  | error e => trivial

theorem orFail_safe (e : ε) (x : Option α) : Safe (orFail e x) fun a => x = some a := by
  cases x with
  | some a => exact rfl
  | none => trivial

theorem int_eq {bits : Nat} {x : Int} (hlow : -(2 ^ (bits - 1)) ≤ x) (hhigh : x < 2 ^ (bits - 1)) :
    (int bits x : Exec ε Int) = .ok x :=
  if_pos ⟨hlow, hhigh⟩

theorem divInt_eq {bits : Nat} {x y : Int} (hy : 0 < y) :
    (divInt bits x y : Exec ε Int) = .ok (x.tdiv y) :=
  if_neg (by omega)

theorem remInt_eq {bits : Nat} {x y : Int} (hy : 0 < y) :
    (remInt bits x y : Exec ε Int) = .ok (x.tmod y) :=
  if_neg (by omega)

theorem addWord_eq {bits a b : Nat} (h : a + b < 2 ^ bits) :
    (addWord bits a b : Exec ε Nat) = .ok (a + b) :=
  if_pos h

theorem mulWord_eq {bits a b : Nat} (h : a * b < 2 ^ bits) :
    (mulWord bits a b : Exec ε Nat) = .ok (a * b) :=
  if_pos h

theorem subWord_eq {a b : Nat} (h : b ≤ a) : (subWord a b : Exec ε Nat) = .ok (a - b) :=
  if_pos h

theorem asWord_eq {bits : Nat} {x : Int} (hlow : 0 ≤ x) (hhigh : x < 2 ^ bits) :
    asWord bits x = x.toNat := by
  rw [asWord, Int.emod_eq_of_lt hlow hhigh]

theorem slice_eq {xs : List α} {a b : Nat} (hab : a ≤ b) (hb : b ≤ xs.length) :
    (slice xs a b : Exec ε (List α)) = .ok ((xs.drop a).take (b - a)) :=
  if_pos ⟨hab, hb⟩

theorem slice_safe {xs : List α} {a b : Nat} (hab : a ≤ b) (hb : b ≤ xs.length) :
    Safe (slice xs a b : Exec ε (List α)) fun ys => ys.length = b - a := by
  rw [slice_eq hab hb]
  show ((xs.drop a).take (b - a)).length = b - a
  rw [List.length_take, List.length_drop]
  omega

/-- A slice does not see what is appended. -/
theorem slice_append {xs : List α} {a b : Nat} (hab : a ≤ b) (hb : b ≤ xs.length)
    (tail : List α) : (slice (xs ++ tail) a b : Exec ε (List α)) = slice xs a b := by
  have hlen : b ≤ (xs ++ tail).length := by
    rw [List.length_append]
    omega
  rw [slice_eq hab hb, slice_eq hab hlen, List.drop_append_of_le_length (by omega),
    List.take_append_of_le_length]
  rw [List.length_drop]
  omega

theorem getSlice_eq_some {xs ys : List α} {a b : Nat} (h : getSlice xs a b = some ys) :
    a ≤ b ∧ b ≤ xs.length ∧ ys = (xs.drop a).take (b - a) := by
  unfold getSlice at h
  split at h
  · next hbounds => exact ⟨hbounds.1, hbounds.2, (Option.some.inj h).symm⟩
  · cases h

theorem addChecked_eq_some {bits a b c : Nat} (h : addChecked bits a b = some c) :
    c = a + b ∧ a + b < 2 ^ bits := by
  unfold addChecked at h
  split at h
  · next hfits => exact ⟨(Option.some.inj h).symm, hfits⟩
  · cases h

theorem intChecked_eq_some {bits : Nat} {x y : Int} (h : intChecked bits x = some y) : y = x := by
  unfold intChecked at h
  split at h
  · exact (Option.some.inj h).symm
  · cases h

theorem index_eq {xs : List α} {i : Nat} (h : i < xs.length) :
    (index xs i : Exec ε α) = .ok xs[i] := by
  simp [index, h]

theorem index_safe {xs : List α} {i : Nat} (h : i < xs.length) :
    Safe (index xs i : Exec ε α) fun a => xs[i]? = some a := by
  rw [index_eq h]
  exact List.getElem?_eq_getElem h

/-! ## Errors -/

/-- The errors that a computation may report. -/
def OnlyFails (x : Exec ε α) (E : ε → Prop) : Prop :=
  ∀ e, x = fail e → E e

theorem OnlyFails.ok (a : α) (E : ε → Prop) : OnlyFails (.ok a : Exec ε α) E := by
  intro e h
  cases h

theorem OnlyFails.bind {x : Exec ε α} {f : α → Exec ε β} {E : ε → Prop} (hx : OnlyFails x E)
    (hf : ∀ a, x = .ok a → OnlyFails (f a) E) : OnlyFails (x >>= f) E := by
  intro e h
  cases x with
  | ok a => exact hf a rfl e h
  | error fault => exact hx e (congrArg Except.error (Except.error.inj h))

theorem OnlyFails.ite {c : Prop} [Decidable c] {x y : Exec ε α} {E : ε → Prop}
    (hx : c → OnlyFails x E) (hy : ¬c → OnlyFails y E) : OnlyFails (if c then x else y) E := by
  by_cases hc : c
  · rw [if_pos hc]
    exact hx hc
  · rw [if_neg hc]
    exact hy hc

theorem OnlyFails.weaken {x : Exec ε α} {E F : ε → Prop} (h : OnlyFails x E)
    (hE : ∀ e, E e → F e) : OnlyFails x F :=
  fun e he => hE e (h e he)

/-- A machine operation ends with its value or in a panic. -/
theorem OnlyFails.or_panics {c : Prop} [Decidable c] (a : α) (E : ε → Prop) :
    OnlyFails (if c then .ok a else panics : Exec ε α) E := by
  apply OnlyFails.ite
  · intro _
    exact .ok a E
  · intro _ e h
    cases h

theorem index_onlyFails (xs : List α) (i : Nat) (E : ε → Prop) :
    OnlyFails (index xs i : Exec ε α) E := by
  intro e h
  unfold index at h
  split at h
  · cases h
  · cases h

end Checked
