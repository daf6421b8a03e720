import NzRust.Lib.Wire

/-!
# Programs that keep a state of their own

A `Keeping` program talks to a peer and keeps a local state beside it. A failure
ends the program and not what it has kept by then, so every run that ends also
returns that state. `Moves` bounds what a program may do to it, whatever its
peer answers.
-/

namespace Wire

variable {ε α β L σ : Type}

/-- A failure becomes the result. -/
def Prog.attempt : Prog ε α → Prog ε (Except ε α)
  | .ret a => .ret (.ok a)
  | .fail e => .ret (.error e)
  | .unfinished => .unfinished
  | .read n next => .read n fun r => (next r).attempt
  | .write bytes next => .write bytes next.attempt
  | .upgrade next => .upgrade fun r => (next r).attempt

theorem run_attempt (P : Peer ε σ) (prog : Prog ε α) (s : σ) :
    prog.attempt.run P s =
      ⟨match (prog.run P s).outcome with
        | .ok a => .ok (.ok a)
        | .error e => .ok (.error e)
        | .unfinished => .unfinished,
        (prog.run P s).sent, (prog.run P s).peer⟩ := by
  induction prog generalizing s with
  | ret a => rfl
  | fail e => rfl
  | unfinished => rfl
  | read n next ih => exact ih _ _
  | write bytes next ih =>
      simp only [Prog.attempt, Prog.run]
      rw [ih]
  | upgrade next ih => exact ih _ _

theorem Prog.attempt_bind (prog : Prog ε α) : prog.attempt.bind Prog.ofExcept = prog := by
  induction prog with
  | ret a => rfl
  | fail e => rfl
  | unfinished => rfl
  | read n next ih => exact congrArg (Prog.read n) (funext ih)
  | write bytes next ih => exact congrArg (Prog.write bytes) ih
  | upgrade next ih => exact congrArg Prog.upgrade (funext ih)

/-- The result of a run, and what is kept at its end. -/
abbrev Kept (L ε α : Type) := Except ε α × L

def Keeping (L ε α : Type) := ExceptT ε (StateT L (Prog ε)) α

namespace Keeping

instance : Monad (Keeping L ε) :=
  inferInstanceAs (Monad (ExceptT ε (StateT L (Prog ε))))

/-- The program, entered with a state. -/
def enter (x : Keeping L ε α) (kept : L) : Prog ε (Kept L ε α) :=
  x kept

/-- A program that does not use the state. -/
def wire (prog : Prog ε α) : Keeping L ε α := fun kept =>
  prog.attempt.bind fun r => .ret (r, kept)

/-- A step on the state alone. -/
def keep (f : L → Kept L ε α) : Keeping L ε α := fun kept =>
  .ret (f kept)

def unfinished : Keeping L ε α := fun _ =>
  .unfinished

theorem enter_bind (x : Keeping L ε α) (k : α → Keeping L ε β) (kept : L) :
    (x >>= k).enter kept =
      (x.enter kept).bind fun r =>
        match r.1 with
        | .ok a => (k a).enter r.2
        | .error e => .ret (.error e, r.2) := by
  refine congrArg (Prog.bind (x.enter kept)) (funext fun r => ?_)
  rcases r with ⟨_ | a, kept'⟩ <;> rfl

/-! ## Runs that return -/

section Yields

variable {P : Peer ε σ} {s s' s'' : σ} {kept kept' : L}

theorem yields_wire {prog : Prog ε α} {a : α} (h : Yields P prog s a s') :
    Yields P ((wire prog : Keeping L ε α).enter kept) s (.ok a, kept) s' := by
  have hattempt : Yields P prog.attempt s (.ok a) s' := by
    unfold Yields at h ⊢
    rw [run_attempt, h]
  exact hattempt.bind (.ret P _ _)

theorem yields_keep (P : Peer ε σ) (f : L → Kept L ε α) (s : σ) :
    Yields P ((keep f).enter kept) s (f kept) s :=
  .ret P _ _

theorem yields_bind {x : Keeping L ε α} {k : α → Keeping L ε β} {a : α} {r : Kept L ε β}
    (h : Yields P (x.enter kept) s (.ok a, kept') s')
    (hk : Yields P ((k a).enter kept') s' r s'') : Yields P ((x >>= k).enter kept) s r s'' := by
  rw [enter_bind]
  exact h.bind hk

end Yields

/-! ## Runs that end -/

section Ends

variable {P : Peer ε σ} {s : σ} {kept kept' : L}

theorem keep_bind_enter {f : L → Kept L ε α} {a : α} (h : f kept = (.ok a, kept'))
    (k : α → Keeping L ε β) : (keep f >>= k : Keeping L ε β).enter kept = (k a).enter kept' := by
  rw [enter_bind]
  show Prog.bind (.ret (f kept)) _ = _
  rw [h]
  rfl

/-- The first part fails, or the rest runs behind it. -/
theorem bind_ends {x : Keeping L ε α} {k : α → Keeping L ε β} {r : Kept L ε β}
    (h : (((x >>= k).enter kept).run P s).outcome = .ok r) :
    (∃ e kept', ((x.enter kept).run P s).outcome = .ok (.error e, kept') ∧ r = (.error e, kept')) ∨
      ∃ a kept', ((x.enter kept).run P s).outcome = .ok (.ok a, kept') ∧
        (((k a).enter kept').run P ((x.enter kept).run P s).peer).outcome = .ok r := by
  rw [enter_bind, run_bind] at h
  cases hout : ((x.enter kept).run P s).outcome with
  | ok first =>
      rw [hout] at h
      rcases first with ⟨e | a, kept'⟩
      · cases h
        exact .inl ⟨e, kept', rfl, rfl⟩
      · exact .inr ⟨a, kept', rfl, h⟩
  | error e =>
      rw [hout] at h
      cases h
  | unfinished =>
      rw [hout] at h
      cases h

theorem wire_run (P : Peer ε σ) (prog : Prog ε α) (s : σ) (kept : L) :
    ((wire prog : Keeping L ε α).enter kept).run P s =
      ⟨match (prog.run P s).outcome with
        | .ok a => .ok (.ok a, kept)
        | .error e => .ok (.error e, kept)
        | .unfinished => .unfinished,
        (prog.run P s).sent, (prog.run P s).peer⟩ := by
  show ((prog.attempt.bind fun result => .ret (result, kept)).run P s) = _
  rw [run_bind, run_attempt]
  cases (prog.run P s).outcome <;> simp [Prog.run]

theorem wire_ends {prog : Prog ε α} {r : Kept L ε α}
    (h : (((wire prog : Keeping L ε α).enter kept).run P s).outcome = .ok r) :
    r.2 = kept ∧ ∀ a, r.1 = .ok a → (prog.run P s).outcome = .ok a := by
  rw [wire_run] at h
  cases hout : (prog.run P s).outcome with
  | ok a =>
      rw [hout] at h
      cases h
      refine ⟨rfl, ?_⟩
      intro b hb
      cases hb
      rfl
  | error e =>
      rw [hout] at h
      cases h
      refine ⟨rfl, ?_⟩
      intro b hb
      cases hb
  | unfinished =>
      rw [hout] at h
      cases h

/-- Nothing is kept of a part that uses no state. -/
theorem wire_bind_ends {prog : Prog ε α} {k : α → Keeping L ε β} {r : Kept L ε β}
    (h : (((wire prog >>= k : Keeping L ε β).enter kept).run P s).outcome = .ok r) :
    (∃ e, r = (.error e, kept)) ∨
      ∃ a, (prog.run P s).outcome = .ok a ∧
        (((k a).enter kept).run P (prog.run P s).peer).outcome = .ok r := by
  rcases bind_ends h with ⟨e, kept', hfirst, rfl⟩ | ⟨a, kept', hfirst, hrest⟩
  · obtain ⟨rfl, -⟩ := wire_ends hfirst
    exact .inl ⟨e, rfl⟩
  · obtain ⟨rfl, hok⟩ := wire_ends hfirst
    rw [wire_run] at hrest
    exact .inr ⟨a, hok a rfl, hrest⟩

end Ends

/-! ## What a program may do to its state -/

section Moves

variable {R : L → L → Prop}

/-- Every run that ends leaves the state related to the one it was entered with. -/
def Moves (R : L → L → Prop) (x : Keeping L ε α) : Prop :=
  ∀ (σ : Type) (P : Peer ε σ) (s : σ) (kept : L) (r : Kept L ε α),
    ((x.enter kept).run P s).outcome = .ok r → R kept r.2

theorem moves_keep {f : L → Kept L ε α} (h : ∀ kept, R kept (f kept).2) :
    Moves R (keep f : Keeping L ε α) := by
  intro σ P s kept r hr
  cases hr
  exact h kept

theorem moves_unfinished : Moves R (unfinished : Keeping L ε α) := by
  intro σ P s kept r hr
  cases hr

theorem moves_pure (hrefl : ∀ kept, R kept kept) (a : α) :
    Moves R (pure a : Keeping L ε α) :=
  moves_keep (f := fun kept => (.ok a, kept)) hrefl

theorem moves_wire (hrefl : ∀ kept, R kept kept) (prog : Prog ε α) :
    Moves R (wire prog : Keeping L ε α) := by
  intro σ P s kept r hr
  rw [(wire_ends hr).1]
  exact hrefl kept

theorem Moves.bind (htrans : ∀ a b c, R a b → R b c → R a c) {x : Keeping L ε α}
    {k : α → Keeping L ε β} (h : Moves R x) (hk : ∀ a, Moves R (k a)) : Moves R (x >>= k) := by
  intro σ P s kept r hr
  rcases bind_ends hr with ⟨e, kept', hfirst, rfl⟩ | ⟨a, kept', hfirst, hrest⟩
  · exact h σ P s kept _ hfirst
  · exact htrans _ _ _ (h σ P s kept _ hfirst) (hk a σ P _ kept' r hrest)

end Moves

/-! ## The program without its state -/

section Forget

def forget (x : Keeping L ε α) (kept : L) : Prog ε α :=
  (x.enter kept).bind fun r => .ofExcept r.1

/-- Over this peer the program runs as one that keeps nothing. -/
def Erases (P : Peer ε σ) (x : Keeping L ε α) (prog : Prog ε α) : Prop :=
  ∀ kept s, (x.forget kept).run P s = prog.run P s

variable {P : Peer ε σ}

theorem erases_wire (prog : Prog ε α) : Erases P (wire prog : Keeping L ε α) prog := by
  intro kept s
  refine congrArg (fun p : Prog ε α => p.run P s) ?_
  calc (prog.attempt.bind fun r => .ret (r, kept)).bind (fun r => .ofExcept r.1)
      = prog.attempt.bind fun r => (Prog.ret (r, kept)).bind fun r => .ofExcept r.1 :=
        Prog.bind_assoc _ _ _
    _ = prog := prog.attempt_bind

theorem erases_keep {f : L → Kept L ε α} {a : α} (h : ∀ kept, (f kept).1 = .ok a) :
    Erases P (keep f : Keeping L ε α) (.ret a) := by
  intro kept s
  show (Prog.ofExcept (f kept).1).run P s = _
  rw [h]
  rfl

theorem erases_unfinished : Erases P (unfinished : Keeping L ε α) .unfinished :=
  fun _ _ => rfl

theorem Erases.bind {x : Keeping L ε α} {prog : Prog ε α} {k : α → Keeping L ε β}
    {next : α → Prog ε β} (h : Erases P x prog) (hk : ∀ a, Erases P (k a) (next a)) :
    Erases P (x >>= k) (prog.bind next) := by
  intro kept s
  have hfirst := h kept s
  unfold forget at hfirst ⊢
  rw [enter_bind, Prog.bind_assoc, run_bind, run_bind prog, ← hfirst, run_bind]
  cases hout : ((x.enter kept).run P s).outcome with
  | error e => rfl
  | unfinished => rfl
  | ok r =>
      rcases r with ⟨_ | a, kept'⟩
      · rfl
      · have hrest := hk a kept' ((x.enter kept).run P s).peer
        dsimp only [Prog.ofExcept, Prog.run]
        rw [List.append_nil, ← hrest]
        rfl

/-- The program that keeps nothing may be replaced by one with the same runs. -/
theorem Erases.of_run {x : Keeping L ε α} {prog prog' : Prog ε α} (h : Erases P x prog)
    (hrun : ∀ s, prog.run P s = prog'.run P s) : Erases P x prog' :=
  fun kept s => (h kept s).trans (hrun s)

end Forget

end Keeping

end Wire
