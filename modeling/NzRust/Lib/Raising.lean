import NzRust.Lib.Wire

/-!
# Errors of a program

A program raises errors of one kind over reads that fail with errors of another
when all its own errors are of the first kind, and so is what it makes of a read
that failed. Over a peer whose reads fail in no other way, so does the program.
-/

namespace Wire

/-- Every error of the program meets `Q`, if the errors of its reads meet `R`. -/
inductive Raises {ε α : Type} (R Q : ε → Prop) : Prog ε α → Prop where
  | ret (a : α) : Raises R Q (.ret a)
  | fail {e : ε} : Q e → Raises R Q (.fail e)
  | unfinished : Raises R Q .unfinished
  | read (n : Nat) (next : Except ε (List UInt8) → Prog ε α) :
      (∀ e, R e → Raises R Q (next (.error e))) → (∀ bytes, Raises R Q (next (.ok bytes))) →
      Raises R Q (.read n next)
  | write (bytes : List UInt8) (next : Prog ε α) : Raises R Q next → Raises R Q (.write bytes next)

namespace Raises

variable {ε α β σ : Type} {P : Peer ε σ} {R Q : ε → Prop}

theorem bind {prog : Prog ε α} {k : α → Prog ε β} (h : Raises R Q prog)
    (hk : ∀ a, Raises R Q (k a)) : Raises R Q (prog.bind k) := by
  induction h with
  | ret a => exact hk a
  | fail he => exact .fail he
  | unfinished => exact .unfinished
  | read n next _ _ iherror ihok => exact .read n _ iherror ihok
  | write bytes next _ ih => exact .write bytes _ ih

theorem take (n : Nat) : Raises Q Q (Prog.take n : Prog ε (List UInt8)) :=
  .read n _ (fun _ he => .fail he) fun bytes => .ret bytes

theorem send (bytes : List UInt8) : Raises R Q (Prog.send bytes : Prog ε Unit) :=
  .write bytes _ (.ret ())

theorem ofExcept {r : Except ε α} (h : ∀ e, r = .error e → Q e) : Raises R Q (Prog.ofExcept r) := by
  cases r with
  | error e => exact .fail (h e rfl)
  | ok a => exact .ret a

/-- `I` is kept by the reads, and under it they fail as `R` says. -/
theorem outcome {prog : Prog ε α} (h : Raises R Q prog) {I : σ → Prop}
    (hread : ∀ n s, I s → I (P.read n s).2 ∧ ∀ e, (P.read n s).1 = .error e → R e) {s : σ} (hs : I s)
    {e : ε} (hout : (prog.run P s).outcome = .error e) : Q e := by
  induction h generalizing s with
  | ret a => cases hout
  | fail he =>
      cases hout
      exact he
  | unfinished => cases hout
  | read n next _ _ iherror ihok =>
      obtain ⟨hkept, hfails⟩ := hread n s hs
      simp only [Prog.run] at hout
      cases hr : (P.read n s).1 with
      | error e' =>
          rw [hr] at hout
          exact iherror e' (hfails e' hr) hkept hout
      | ok bytes =>
          rw [hr] at hout
          exact ihok bytes hkept hout
  | write bytes next _ ih => exact ih hs hout

end Raises

/-- What every read keeps, a program without an upgrade keeps, however it ends. -/
theorem run_keeps_of_read {ε α σ : Type} {P : Peer ε σ} {I : σ → Prop} (prog : Prog ε α)
    (hread : ∀ n s, I s → I (P.read n s).2) (hupgrade : ∀ s, I s → I (P.upgrade s).2) {s : σ}
    (hs : I s) : I (prog.run P s).peer := by
  induction prog generalizing s with
  | ret a => exact hs
  | fail e => exact hs
  | unfinished => exact hs
  | read n next ih => exact ih _ (hread n s hs)
  | write bytes next ih => exact ih hs
  | upgrade next ih => exact ih _ (hupgrade s hs)

end Wire
