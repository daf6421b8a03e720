import NzRust.Lib.Checked

/-!
# Edits of a buffer

An `Edit` runs on whatever a buffer holds and leaves new contents behind, also
when it ends with an error. `Leaves m read x` says that none of the old contents
shows: from every buffer `m` ends as `x` does, and what `read` sees at its end is
the value of `x`.
-/

namespace InPlace

open Checked

variable {ε σ τ γ α β δ : Type}

abbrev Edit (ε σ α : Type) := EStateM (Fault ε) σ α

/-- A computation beside the buffer. -/
def run (x : Exec ε α) : Edit ε σ α := fun s =>
  match x with
  | .ok a => .ok a s
  | .error e => .error e s

/-- New contents from the old ones. -/
def change (f : σ → Exec ε σ) : Edit ε σ Unit := fun s =>
  match f s with
  | .ok t => .ok () t
  | .error e => .error e s

/-- An edit of a part of the buffer. -/
def onPart (part : σ → τ) (replace : τ → σ → σ) (m : Edit ε τ α) : Edit ε σ α := fun s =>
  match m (part s) with
  | .ok a t => .ok a (replace t s)
  | .error e t => .error e (replace t s)

/-- How an edit ends; the contents behind an error are dropped. -/
def settled (m : Edit ε σ α) (s : σ) : Exec ε (α × σ) :=
  match m s with
  | .ok a s => .ok (a, s)
  | .error e _ => .error e

/-- An edit of a buffer that the caller owns. -/
def onLocal (m : Edit ε τ α) (t : τ) : Edit ε σ (α × τ) :=
  run (settled m t)

section Settled

variable (s : σ)

@[simp] theorem settled_pure (a : α) : settled (pure a : Edit ε σ α) s = .ok (a, s) :=
  rfl

@[simp] theorem settled_bind (m : Edit ε σ α) (f : α → Edit ε σ β) :
    settled (m >>= f) s = (settled m s >>= fun r => settled (f r.1) r.2) := by
  show settled (EStateM.bind m f) s = _
  unfold settled EStateM.bind
  cases m s with
  | ok a t => rfl
  | error e t => rfl

@[simp] theorem settled_run (x : Exec ε α) :
    settled (run x : Edit ε σ α) s = (x >>= fun a => .ok (a, s)) := by
  cases x with
  | ok a => rfl
  | error e => rfl

@[simp] theorem settled_change (f : σ → Exec ε σ) :
    settled (change f) s = (f s >>= fun t => .ok ((), t)) := by
  unfold settled change
  cases f s with
  | ok t => rfl
  | error e => rfl

@[simp] theorem settled_get : settled (get : Edit ε σ σ) s = .ok (s, s) :=
  rfl

@[simp] theorem settled_set (t : σ) : settled (set t : Edit ε σ Unit) s = .ok ((), t) :=
  rfl

@[simp] theorem settled_modify (f : σ → σ) :
    settled (modify f : Edit ε σ Unit) s = .ok ((), f s) :=
  rfl

@[simp] theorem settled_onPart (part : σ → τ) (replace : τ → σ → σ) (m : Edit ε τ α) :
    settled (onPart part replace m) s =
      (settled m (part s) >>= fun r => .ok (r.1, replace r.2 s)) := by
  unfold settled onPart
  cases m (part s) with
  | ok a t => rfl
  | error e t => rfl

end Settled

/-! ## Nothing of the old contents shows -/

def Leaves (m : Edit ε σ α) (read : α → σ → β) (x : Exec ε β) : Prop :=
  ∀ s, (settled m s >>= fun r => .ok (read r.1 r.2)) = x

/-- The buffer holds the value, whatever it held. -/
abbrev Overwrites (m : Edit ε σ α) (x : Exec ε σ) : Prop :=
  Leaves m (fun _ s => s) x

theorem Leaves.run_bind {x : Exec ε α} {f : α → Edit ε σ β} {read : β → σ → δ}
    {g : α → Exec ε δ} (h : ∀ a, Leaves (f a) read (g a)) :
    Leaves (run x >>= f) read (x >>= g) := by
  intro s
  cases x with
  | ok a => exact h a s
  | error e => rfl

theorem Leaves.ite {c : Prop} [Decidable c] {m m' : Edit ε σ α} {read : α → σ → β}
    {x x' : Exec ε β} (h : c → Leaves m read x) (h' : ¬c → Leaves m' read x') :
    Leaves (if c then m else m') read (if c then x else x') := by
  by_cases hc : c
  · rw [if_pos hc, if_pos hc]
    exact h hc
  · rw [if_neg hc, if_neg hc]
    exact h' hc

theorem Leaves.run_fail (e : ε) (read : α → σ → β) :
    Leaves (run (fail e)) read (fail e) := by
  intro s
  rfl

theorem Leaves.set (t : σ) (read : Unit → σ → β) :
    Leaves (ε := ε) (MonadStateOf.set t) read (.ok (read () t)) := by
  intro s
  rfl

/-- An edit behind one that overwrites goes on from the value. -/
theorem Leaves.bind {m : Edit ε σ α} {x : Exec ε σ} {f : α → Edit ε σ β} {read : β → σ → δ}
    {g : σ → Exec ε δ} (hm : Overwrites m x)
    (hf : ∀ a s, (settled (f a) s >>= fun r => .ok (read r.1 r.2)) = g s) :
    Leaves (m >>= f) read (x >>= g) := by
  intro s
  rw [← hm s, settled_bind, bind_assoc, bind_assoc]
  congr 1
  funext r
  rw [hf, ok_bind]

theorem Leaves.congr {m : Edit ε σ α} {read : α → σ → β} {x y : Exec ε β} (h : Leaves m read x)
    (hxy : x = y) : Leaves m read y :=
  hxy ▸ h

/-! ## Buffers that grow at their end -/

section Growing

variable {κ : Type}

def clear : Edit ε (List κ) Unit :=
  modify fun _ => []

def pushAll (xs : List κ) : Edit ε (List κ) Unit :=
  modify (· ++ xs)

@[simp] theorem settled_clear (s : List κ) :
    settled (clear : Edit ε (List κ) Unit) s = .ok ((), []) :=
  rfl

@[simp] theorem settled_pushAll (xs s : List κ) :
    settled (pushAll xs : Edit ε (List κ) Unit) s = .ok ((), s ++ xs) :=
  rfl

def push (x : κ) : Edit ε (List κ) Unit :=
  pushAll [x]

@[simp] theorem settled_push (x : κ) (s : List κ) :
    settled (push x : Edit ε (List κ) Unit) s = .ok ((), s ++ [x]) :=
  rfl

/-- What a computation yields goes behind the contents. -/
def append (x : Exec ε (List κ)) : Edit ε (List κ) Unit := do
  pushAll (← run x)

/-- The contents stay, with the value of `x` behind them. -/
def Appends (m : Edit ε (List κ) Unit) (x : Exec ε (List κ)) : Prop :=
  ∀ s, settled m s = (x >>= fun xs => .ok ((), s ++ xs))

theorem Appends.pushAll (xs : List κ) : Appends (ε := ε) (pushAll xs) (.ok xs) := by
  intro s
  rfl

theorem Appends.append (x : Exec ε (List κ)) : Appends (append x) x := by
  intro s
  cases x with
  | ok xs => rfl
  | error e => rfl

theorem Appends.nothing : Appends (ε := ε) (κ := κ) (pure ()) (.ok []) := by
  intro s
  show Except.ok ((), s) = .ok ((), s ++ [])
  rw [List.append_nil]

theorem Appends.run_fail (e : ε) : Appends (κ := κ) (run (fail e)) (fail e) := by
  intro s
  rfl

theorem Appends.seq {m m' : Edit ε (List κ) Unit} {x x' : Exec ε (List κ)} (h : Appends m x)
    (h' : Appends m' x') :
    Appends (do m; m') (do let xs ← x; let ys ← x'; return xs ++ ys) := by
  intro s
  rw [settled_bind, h s]
  cases x with
  | error e => rfl
  | ok xs =>
      rw [ok_bind, ok_bind, h' (s ++ xs), ok_bind]
      cases x' with
      | error e => rfl
      | ok ys =>
          show Except.ok ((), s ++ xs ++ ys) = .ok ((), s ++ (xs ++ ys))
          rw [List.append_assoc]

theorem Appends.ite {c : Prop} [Decidable c] {m m' : Edit ε (List κ) Unit}
    {x x' : Exec ε (List κ)} (h : c → Appends m x) (h' : ¬c → Appends m' x') :
    Appends (if c then m else m') (if c then x else x') := by
  by_cases hc : c
  · rw [if_pos hc, if_pos hc]
    exact h hc
  · rw [if_neg hc, if_neg hc]
    exact h' hc

theorem Appends.congr {m : Edit ε (List κ) Unit} {x y : Exec ε (List κ)} (h : Appends m x)
    (hxy : x = y) : Appends m y :=
  hxy ▸ h

/-- Clearing first is what makes an append an overwrite. -/
theorem Appends.clear {m : Edit ε (List κ) Unit} {x : Exec ε (List κ)} (h : Appends m x) :
    Overwrites (do clear; m) x := by
  intro s
  rw [settled_bind]
  show (settled m [] >>= _) = x
  rw [h []]
  cases x with
  | ok xs => rfl
  | error e => rfl

end Growing

/-! ## Slots -/

/-- An edit of the first slot, if there is one, and of what the slots share. -/
def onHead (m : Edit ε (τ × γ) Unit) : Edit ε (List τ × γ) Unit := fun s =>
  match s.1 with
  | [] => .ok () s
  | t :: ts => onPart (fun _ => (t, s.2)) (fun r _ => (r.1 :: ts, r.2)) m s

/-- An edit of the slots behind the first one. -/
def onTail (m : Edit ε (List τ × γ) Unit) : Edit ε (List τ × γ) Unit := fun s =>
  match s.1 with
  | [] => .ok () s
  | t :: ts => onPart (fun _ => (ts, s.2)) (fun r _ => (t :: r.1, r.2)) m s

/-- `for (i, slot) in slots.iter_mut().enumerate()`, over the keys of the slots. -/
def eachSlot (body : Nat → δ → Edit ε (τ × γ) Unit) : Nat → List δ → Edit ε (List τ × γ) Unit
  | _, [] => pure ()
  | i, b :: bs => do
      onHead (body i b)
      onTail (eachSlot body (i + 1) bs)

/-- The values for the slots, computed without them. -/
def collect (write : Nat → δ → γ → Exec ε (τ × γ)) : Nat → List δ → γ → Exec ε (List τ × γ)
  | _, [], c => .ok ([], c)
  | i, b :: bs, c => do
      let value ← write i b c
      let rest ← collect write (i + 1) bs value.2
      return (value.1 :: rest.1, rest.2)

theorem settled_onHead (m : Edit ε (τ × γ) Unit) (t : τ) (ts : List τ) (c : γ) :
    settled (onHead m) (t :: ts, c) =
      (settled m (t, c) >>= fun r => .ok ((), (r.2.1 :: ts, r.2.2))) :=
  settled_onPart (t :: ts, c) (fun _ => (t, c)) (fun r _ => (r.1 :: ts, r.2)) m

theorem settled_onTail (m : Edit ε (List τ × γ) Unit) (t : τ) (ts : List τ) (c : γ) :
    settled (onTail m) (t :: ts, c) =
      (settled m (ts, c) >>= fun r => .ok ((), (t :: r.2.1, r.2.2))) :=
  settled_onPart (t :: ts, c) (fun _ => (ts, c)) (fun r _ => (t :: r.1, r.2)) m

/-- Where the edit of a slot ignores what the slot held, so does the loop. -/
theorem settled_eachSlot {body : Nat → δ → Edit ε (τ × γ) Unit}
    {write : Nat → δ → γ → Exec ε (τ × γ)}
    (h : ∀ i b t c, settled (body i b) (t, c) = (write i b c >>= fun r => .ok ((), r)))
    (bs : List δ) (i : Nat) (ts : List τ) (c : γ) (hlen : ts.length = bs.length) :
    settled (eachSlot body i bs) (ts, c) = (collect write i bs c >>= fun r => .ok ((), r)) := by
  induction bs generalizing i ts c with
  | nil =>
      rw [List.length_nil, List.length_eq_zero_iff] at hlen
      rw [hlen]
      rfl
  | cons b bs ih =>
      cases ts with
      | nil => cases hlen
      | cons t ts =>
          rw [eachSlot, settled_bind, settled_onHead, h, collect]
          cases write i b c with
          | error e => rfl
          | ok value =>
              rw [ok_bind, ok_bind, ok_bind, ok_bind, settled_onTail,
                ih (i + 1) ts value.2 (Nat.succ.inj hlen)]
              cases collect write (i + 1) bs value.2 with
              | error e => rfl
              | ok rest => rfl

end InPlace
