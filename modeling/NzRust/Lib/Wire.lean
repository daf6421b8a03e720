import Mathlib.Algebra.Order.Ring.Int
import Mathlib.Data.List.Basic

/-!
# Programs that talk to a peer

A `Prog` reads counted byte strings from a peer, writes byte strings to it and
may ask once for the transport to be replaced. What the reads find is left to a
`Peer`, so one program can be run over a socket, over a buffer in front of a
socket, or over the plain sequence of bytes it is going to see; `run_sim` moves
a run from one peer to another.
-/

namespace Wire

inductive Prog (ε α : Type) where
  | ret (value : α)
  | fail (error : ε)
  | unfinished
  | read (count : Nat) (next : Except ε (List UInt8) → Prog ε α)
  | write (bytes : List UInt8) (next : Prog ε α)
  | upgrade (next : Except ε Unit → Prog ε α)

inductive Outcome (ε α : Type) where
  | ok (value : α)
  | error (error : ε)
  | unfinished
  deriving DecidableEq, Repr

structure Peer (ε σ : Type) where
  read : Nat → σ → Except ε (List UInt8) × σ
  upgrade : σ → Except ε Unit × σ

/-- How a run ended, everything it wrote, and the peer it left. -/
structure Finish (ε α σ : Type) where
  outcome : Outcome ε α
  sent : List UInt8
  peer : σ

namespace Prog

variable {ε α β σ τ : Type}

def bind : Prog ε α → (α → Prog ε β) → Prog ε β
  | .ret a, k => k a
  | .fail e, _ => .fail e
  | .unfinished, _ => .unfinished
  | .read n next, k => .read n fun r => (next r).bind k
  | .write bytes next, k => .write bytes (next.bind k)
  | .upgrade next, k => .upgrade fun r => (next r).bind k

instance : Monad (Prog ε) where
  pure := .ret
  bind := bind

def mapError (f : ε → ε) : Prog ε α → Prog ε α
  | .ret a => .ret a
  | .fail e => .fail (f e)
  | .unfinished => .unfinished
  | .read n next => .read n fun r => (next r).mapError f
  | .write bytes next => .write bytes (next.mapError f)
  | .upgrade next => .upgrade fun r => (next r).mapError f

/-- The steps that pass a failure on. -/
def take (n : Nat) : Prog ε (List UInt8) :=
  .read n fun r =>
    match r with
    | .ok bytes => .ret bytes
    | .error e => .fail e

def send (bytes : List UInt8) : Prog ε Unit :=
  .write bytes (.ret ())

def switch : Prog ε Unit :=
  .upgrade fun r =>
    match r with
    | .ok () => .ret ()
    | .error e => .fail e

def ofExcept : Except ε α → Prog ε α
  | .ok a => .ret a
  | .error e => .fail e

def run (P : Peer ε σ) : Prog ε α → σ → Finish ε α σ
  | .ret a, s => ⟨.ok a, [], s⟩
  | .fail e, s => ⟨.error e, [], s⟩
  | .unfinished, s => ⟨.unfinished, [], s⟩
  | .read n next, s => (next (P.read n s).1).run P (P.read n s).2
  | .write bytes next, s =>
      let rest := next.run P s
      ⟨rest.outcome, bytes ++ rest.sent, rest.peer⟩
  | .upgrade next, s => (next (P.upgrade s).1).run P (P.upgrade s).2

end Prog

/-! ## Simulation -/

section Simulation

variable {ε α σ τ : Type} {P : Peer ε σ} {Q : Peer ε τ}

/-- Two peers that answer alike, and stay related, cannot be told apart by any program. -/
theorem run_sim (R : σ → τ → Prop)
    (hread : ∀ n s t, R s t → (P.read n s).1 = (Q.read n t).1 ∧ R (P.read n s).2 (Q.read n t).2)
    (hup : ∀ s t, R s t → (P.upgrade s).1 = (Q.upgrade t).1 ∧ R (P.upgrade s).2 (Q.upgrade t).2)
    (prog : Prog ε α) {s : σ} {t : τ} (h : R s t) :
    (prog.run P s).outcome = (prog.run Q t).outcome ∧
      (prog.run P s).sent = (prog.run Q t).sent ∧ R (prog.run P s).peer (prog.run Q t).peer := by
  induction prog generalizing s t with
  | ret a => exact ⟨rfl, rfl, h⟩
  | fail e => exact ⟨rfl, rfl, h⟩
  | unfinished => exact ⟨rfl, rfl, h⟩
  | read n next ih =>
      obtain ⟨hres, hrel⟩ := hread n s t h
      unfold Prog.run
      rw [hres]
      exact ih _ hrel
  | write bytes next ih =>
      obtain ⟨hout, hsent, hrel⟩ := ih h
      exact ⟨hout, congrArg (bytes ++ ·) hsent, hrel⟩
  | upgrade next ih =>
      obtain ⟨hres, hrel⟩ := hup s t h
      unfold Prog.run
      rw [hres]
      exact ih _ hrel

end Simulation

/-! ## Runs of a composed program -/

section Bind

variable {ε α β σ : Type} {P : Peer ε σ}

/-- The run of a sequence continues from the peer that its first part left. -/
theorem run_bind (prog : Prog ε α) (k : α → Prog ε β) (s : σ) :
    (prog.bind k).run P s =
      match (prog.run P s).outcome with
      | .ok a =>
          ⟨((k a).run P (prog.run P s).peer).outcome,
            (prog.run P s).sent ++ ((k a).run P (prog.run P s).peer).sent,
            ((k a).run P (prog.run P s).peer).peer⟩
      | .error e => ⟨.error e, (prog.run P s).sent, (prog.run P s).peer⟩
      | .unfinished => ⟨.unfinished, (prog.run P s).sent, (prog.run P s).peer⟩ := by
  induction prog generalizing s with
  | ret a => rfl
  | fail e => rfl
  | unfinished => rfl
  | read n next ih => exact ih _ _
  | write bytes next ih =>
      simp only [Prog.bind, Prog.run]
      rw [ih]
      split <;> simp
  | upgrade next ih => exact ih _ _

/-- The error of an outcome, mapped. -/
def Outcome.mapError (f : ε → ε) : Outcome ε α → Outcome ε α
  | .ok a => .ok a
  | .error e => .error (f e)
  | .unfinished => .unfinished

theorem run_mapError (f : ε → ε) (prog : Prog ε α) (s : σ) :
    (prog.mapError f).run P s =
      ⟨(prog.run P s).outcome.mapError f, (prog.run P s).sent, (prog.run P s).peer⟩ := by
  induction prog generalizing s with
  | ret a => rfl
  | fail e => rfl
  | unfinished => rfl
  | read n next ih => exact ih _ _
  | write bytes next ih =>
      simp only [Prog.mapError, Prog.run]
      rw [ih]
  | upgrade next ih => exact ih _ _

end Bind

/-! ## Runs that return without writing -/

section Yields

variable {ε α β σ : Type} {P : Peer ε σ} {s s' s'' : σ}

/-- The program returns `a` and leaves the peer `s'`. -/
def Yields (P : Peer ε σ) (prog : Prog ε α) (s : σ) (a : α) (s' : σ) : Prop :=
  prog.run P s = ⟨.ok a, [], s'⟩

theorem Yields.run_bind {prog : Prog ε α} {a : α} (h : Yields P prog s a s')
    (k : α → Prog ε β) : (prog.bind k).run P s = (k a).run P s' := by
  rw [Wire.run_bind, h]
  rfl

theorem Yields.ret (P : Peer ε σ) (a : α) (s : σ) : Yields P (.ret a) s a s :=
  rfl

theorem Yields.bind {prog : Prog ε α} {k : α → Prog ε β} {a : α} {b : β}
    (h : Yields P prog s a s') (hk : Yields P (k a) s' b s'') : Yields P (prog.bind k) s b s'' :=
  (h.run_bind k).trans hk

theorem Yields.take {n : Nat} {bytes : List UInt8} (h : P.read n s = (.ok bytes, s')) :
    Yields P (Prog.take n) s bytes s' := by
  simp [Yields, Prog.take, Prog.run, h]

theorem Yields.ofExcept (P : Peer ε σ) (a : α) (s : σ) :
    Yields P (Prog.ofExcept (.ok a)) s a s :=
  rfl

/-- The program fails with `e` before it writes. -/
def Fails (P : Peer ε σ) (prog : Prog ε α) (s : σ) (e : ε) : Prop :=
  (prog.run P s).outcome = .error e

theorem Fails.bind {prog : Prog ε α} {e : ε} (h : Fails P prog s e) (k : α → Prog ε β) :
    Fails P (prog.bind k) s e := by
  unfold Fails at *
  rw [Wire.run_bind, h]

theorem Yields.fails_bind {prog : Prog ε α} {k : α → Prog ε β} {a : α} {e : ε}
    (h : Yields P prog s a s') (hk : Fails P (k a) s' e) : Fails P (prog.bind k) s e := by
  unfold Fails at *
  rw [h.run_bind, hk]

end Yields

/-! ## The part before the transport is replaced -/

section Upgrade

variable {ε α β σ : Type} {P : Peer ε σ}

/-- What a program that reads the given bytes one at a time has written when it stands at its
upgrade, and how it goes on. -/
def Prog.feed : Prog ε α → List UInt8 → Option (List UInt8 × (Except ε Unit → Prog ε α))
  | .upgrade next, [] => some ([], next)
  | .write bytes next, input =>
      match next.feed input with
      | some (sent, k) => some (bytes ++ sent, k)
      | none => none
  | .read 1 next, b :: input => (next (.ok [b])).feed input
  | _, _ => none

/-- What a program that reads the given bytes one at a time has written when it returns. -/
def Prog.gives : Prog ε α → List UInt8 → Option (List UInt8 × α)
  | .ret a, [] => some ([], a)
  | .write bytes next, input =>
      match next.gives input with
      | some (sent, a) => some (bytes ++ sent, a)
      | none => none
  | .read 1 next, b :: input => (next (.ok [b])).gives input
  | _, _ => none

theorem feed_bind {prog : Prog ε α} {k : α → Prog ε β} (first second : List UInt8)
    {sent sent' : List UInt8} {a : α} {next : Except ε Unit → Prog ε β}
    (hgives : prog.gives first = some (sent, a))
    (hfeed : (k a).feed second = some (sent', next)) :
    (prog.bind k).feed (first ++ second) = some (sent ++ sent', next) := by
  induction prog generalizing first sent with
  | ret value =>
      cases first with
      | nil =>
          cases hgives
          exact hfeed
      | cons _ _ => cases hgives
  | fail e => simp [Prog.gives] at hgives
  | unfinished => simp [Prog.gives] at hgives
  | upgrade after ih => simp [Prog.gives] at hgives
  | write bytes after ih =>
      unfold Prog.gives at hgives
      split at hgives
      case h_1 rest value hafter =>
        cases hgives
        simp only [Prog.bind, Prog.feed, ih _ hafter, List.append_assoc]
      case h_2 => cases hgives
  | read n after ih =>
      unfold Prog.gives at hgives
      split at hgives <;> try contradiction
      case h_3 heq =>
        cases heq
        exact ih _ _ hgives

theorem gives_bind {prog : Prog ε α} {k : α → Prog ε β} {first second sent sent' : List UInt8}
    {a : α} {b : β} (hfirst : prog.gives first = some (sent, a))
    (hsecond : (k a).gives second = some (sent', b)) :
    (prog.bind k).gives (first ++ second) = some (sent ++ sent', b) := by
  induction prog generalizing first sent with
  | ret value =>
      cases first with
      | nil =>
          cases hfirst
          exact hsecond
      | cons _ _ => cases hfirst
  | fail e => simp [Prog.gives] at hfirst
  | unfinished => simp [Prog.gives] at hfirst
  | upgrade after ih => simp [Prog.gives] at hfirst
  | write bytes after ih =>
      unfold Prog.gives at hfirst
      split at hfirst
      case h_1 rest value hafter =>
        cases hfirst
        simp only [Prog.bind, Prog.gives, ih hafter, List.append_assoc]
      case h_2 => cases hfirst
  | read n after ih =>
      unfold Prog.gives at hfirst
      split at hfirst <;> try contradiction
      case h_3 heq =>
        cases heq
        exact ih _ hfirst

theorem gives_mapError (f : ε → ε) {prog : Prog ε α} {input sent : List UInt8} {a : α}
    (h : prog.gives input = some (sent, a)) : (prog.mapError f).gives input = some (sent, a) := by
  induction prog generalizing input sent with
  | ret value => exact h
  | fail e => simp [Prog.gives] at h
  | unfinished => simp [Prog.gives] at h
  | upgrade after ih => simp [Prog.gives] at h
  | write bytes after ih =>
      unfold Prog.gives at h
      split at h
      case h_1 rest value hafter =>
        cases h
        simp only [Prog.mapError, Prog.gives, ih hafter]
      case h_2 => cases h
  | read n after ih =>
      unfold Prog.gives at h
      split at h <;> try contradiction
      case h_3 heq =>
        cases heq
        exact ih _ h

/-- One-byte reads that find the given bytes. -/
inductive Takes (P : Peer ε σ) : σ → List UInt8 → σ → Prop where
  | nil (s : σ) : Takes P s [] s
  | cons {s s' : σ} {b : UInt8} {bytes : List UInt8} :
      (P.read 1 s).1 = .ok [b] → Takes P (P.read 1 s).2 bytes s' → Takes P s (b :: bytes) s'

/-- A run reaches the upgrade that `feed` announces, with the peer those reads leave. -/
theorem run_feed {prog : Prog ε α} {input sent : List UInt8} {k : Except ε Unit → Prog ε α}
    (hfeed : prog.feed input = some (sent, k)) {s s' : σ} (h : Takes P s input s') :
    (prog.run P s).outcome = ((k (P.upgrade s').1).run P (P.upgrade s').2).outcome ∧
      (prog.run P s).sent = sent ++ ((k (P.upgrade s').1).run P (P.upgrade s').2).sent := by
  induction prog generalizing input sent s with
  | ret a => simp [Prog.feed] at hfeed
  | fail e => simp [Prog.feed] at hfeed
  | unfinished => simp [Prog.feed] at hfeed
  | upgrade next ih =>
      cases h with
      | nil =>
          cases hfeed
          exact ⟨rfl, rfl⟩
      | cons _ _ => simp [Prog.feed] at hfeed
  | write bytes next ih =>
      unfold Prog.feed at hfeed
      split at hfeed
      case h_1 sent' k' hnext =>
        cases hfeed
        obtain ⟨hout, hsent⟩ := ih hnext h
        refine ⟨hout, ?_⟩
        show bytes ++ (next.run P s).sent = _
        rw [hsent, List.append_assoc]
      case h_2 => cases hfeed
  | read n next ih =>
      unfold Prog.feed at hfeed
      split at hfeed <;> try contradiction
      case h_3 heq =>
        cases heq
        cases h with
        | cons hbyte hrest =>
            have hnext := ih _ hfeed hrest
            rw [← hbyte] at hnext
            exact hnext

end Upgrade

/-! ## Computations on a peer -/

/-- A computation that may use its peer in other ways than a program can. -/
def Act (σ ε α : Type) := σ → Finish ε α σ

namespace Act

variable {σ ε α β γ δ : Type}

def ret (a : α) : Act σ ε α := fun s =>
  ⟨.ok a, [], s⟩

def bind (x : Act σ ε α) (k : α → Act σ ε β) : Act σ ε β := fun s =>
  match (x s).outcome with
  | .ok a =>
      ⟨(k a (x s).peer).outcome, (x s).sent ++ (k a (x s).peer).sent, (k a (x s).peer).peer⟩
  | .error e => ⟨.error e, (x s).sent, (x s).peer⟩
  | .unfinished => ⟨.unfinished, (x s).sent, (x s).peer⟩

instance : Monad (Act σ ε) where
  pure := ret
  bind := bind

def ofProg (P : Peer ε σ) (prog : Prog ε α) : Act σ ε α :=
  prog.run P

/-- Where `x` returns, so does `y`, with the same writes and a related value and peer. -/
def Matches (R : σ → σ → Prop) (Q : α → β → Prop) (x : Act σ ε α) (y : Act σ ε β) : Prop :=
  ∀ s t, R s t → ∀ a, (x s).outcome = .ok a →
    ∃ b, (y t).outcome = .ok b ∧ Q a b ∧ (y t).sent = (x s).sent ∧ R (x s).peer (y t).peer

namespace Matches

variable {R : σ → σ → Prop} {Q : α → β → Prop}

theorem ret {a : α} {b : β} (h : Q a b) :
    Matches R Q (Act.ret a : Act σ ε α) (Act.ret b) := by
  intro s t hst a' ha
  cases ha
  exact ⟨b, rfl, h, rfl, hst⟩

theorem bind {Q' : γ → δ → Prop} {x : Act σ ε α} {y : Act σ ε β} {k : α → Act σ ε γ}
    {l : β → Act σ ε δ} (h : Matches R Q x y) (hk : ∀ a b, Q a b → Matches R Q' (k a) (l b)) :
    Matches R Q' (x >>= k) (y >>= l) := by
  intro s t hst c hc
  change (Act.bind x k s).outcome = .ok c at hc
  cases hx : (x s).outcome with
  | error e => simp [Act.bind, hx] at hc
  | unfinished => simp [Act.bind, hx] at hc
  | ok a =>
      obtain ⟨b, hy, hab, hsent, hpeer⟩ := h s t hst a hx
      have hcont : (k a (x s).peer).outcome = .ok c := by simpa [Act.bind, hx] using hc
      obtain ⟨d, hl, hcd, hsent', hpeer'⟩ := hk a b hab _ _ hpeer c hcont
      refine ⟨d, ?_, hcd, ?_, ?_⟩
      · show (Act.bind y l t).outcome = _
        simp [Act.bind, hy, hl]
      · show (Act.bind y l t).sent = (Act.bind x k s).sent
        simp [Act.bind, hx, hy, hsent, hsent']
      · show R (Act.bind x k s).peer (Act.bind y l t).peer
        simpa [Act.bind, hx, hy] using hpeer'

/-- A program is matched by itself on peers that answer alike. -/
theorem ofProg {P : Peer ε σ}
    (hread : ∀ n s t, R s t → (P.read n s).1 = (P.read n t).1 ∧ R (P.read n s).2 (P.read n t).2)
    (hup : ∀ s t, R s t → (P.upgrade s).1 = (P.upgrade t).1 ∧ R (P.upgrade s).2 (P.upgrade t).2)
    (prog : Prog ε α) : Matches R Eq (Act.ofProg P prog) (Act.ofProg P prog) := by
  intro s t hst a ha
  obtain ⟨hout, hsent, hpeer⟩ := run_sim R hread hup prog hst
  exact ⟨a, hout.symm.trans ha, rfl, hsent.symm, hpeer⟩

end Matches

end Act

/-! ## Programs that only read -/

/-- Every path of the program only reads, and ends. -/
inductive Silent {ε α : Type} : Prog ε α → Prop where
  | ret (a : α) : Silent (.ret a)
  | fail (e : ε) : Silent (.fail e)
  | read (n : Nat) (next : Except ε (List UInt8) → Prog ε α) :
      (∀ r, Silent (next r)) → Silent (.read n next)

namespace Silent

variable {ε α β : Type}

theorem bind {prog : Prog ε α} {k : α → Prog ε β} (h : Silent prog) (hk : ∀ a, Silent (k a)) :
    Silent (prog.bind k) := by
  induction h with
  | ret a => exact hk a
  | fail e => exact .fail e
  | read n next _ ih => exact .read n _ ih

theorem take (n : Nat) : Silent (Prog.take n : Prog ε (List UInt8)) := by
  refine .read n _ fun r => ?_
  cases r with
  | ok bytes => exact .ret bytes
  | error e => exact .fail e

theorem ofExcept (r : Except ε α) : Silent (Prog.ofExcept r) := by
  cases r with
  | ok a => exact .ret a
  | error e => exact .fail e

end Silent

/-- A silent program that does not return either. -/
inductive Aborts {ε α : Type} : Prog ε α → Prop where
  | fail (e : ε) : Aborts (.fail e)
  | read (n : Nat) (next : Except ε (List UInt8) → Prog ε α) :
      (∀ r, Aborts (next r)) → Aborts (.read n next)

namespace Aborts

variable {ε α β σ : Type} {P : Peer ε σ}

theorem run_sent {prog : Prog ε α} (h : Aborts prog) (s : σ) : (prog.run P s).sent = [] := by
  induction h generalizing s with
  | fail e => rfl
  | read n next _ ih => exact ih _ _

/-- A program that aborts does not reach what follows it. -/
theorem bind {prog : Prog ε α} (h : Aborts prog) (k : α → Prog ε β) : Aborts (prog.bind k) := by
  induction h with
  | fail e => exact .fail e
  | read n next _ ih => exact .read n _ ih

theorem mapError {prog : Prog ε α} (f : ε → ε) (h : Aborts prog) : Aborts (prog.mapError f) := by
  induction h with
  | fail e => exact .fail (f e)
  | read n next _ ih => exact .read n _ ih

end Aborts

theorem Silent.aborts {ε α β : Type} {prog : Prog ε α} {k : α → Prog ε β} (h : Silent prog)
    (hk : ∀ a, Aborts (k a)) : Aborts (prog.bind k) := by
  induction h with
  | ret a => exact hk a
  | fail e => exact .fail e
  | read n next _ ih => exact .read n _ ih

/-! ## Programs that wait for a letter -/

/-- The program writes nothing before it has read the byte `go`, and writes right after it. -/
structure Gated {ε α : Type} (go : UInt8) (prog : Prog ε α) : Prop where
  gate : ∃ next, prog = .read 1 next ∧ (∀ e, Aborts (next (.error e))) ∧
    (∀ b, b ≠ go → Aborts (next (.ok [b]))) ∧
    ∃ b bytes rest, next (.ok [go]) = .write (b :: bytes) rest

namespace Gated

variable {ε α σ : Type} {P : Peer ε σ} {go : UInt8} {prog : Prog ε α}

theorem sent_ne_nil (h : Gated go prog) {s : σ} (hread : (P.read 1 s).1 = .ok [go]) :
    (prog.run P s).sent ≠ [] := by
  obtain ⟨next, rfl, -, -, b, bytes, rest, hgo⟩ := h.gate
  simp [Prog.run, hread, hgo]

theorem sent_eq_nil_of_byte (h : Gated go prog) {s : σ} {b : UInt8}
    (hread : (P.read 1 s).1 = .ok [b]) (hb : b ≠ go) : (prog.run P s).sent = [] := by
  obtain ⟨next, rfl, -, hother, -⟩ := h.gate
  simp only [Prog.run, hread]
  exact (hother b hb).run_sent _

theorem sent_eq_nil_of_error (h : Gated go prog) {s : σ} {e : ε}
    (hread : (P.read 1 s).1 = .error e) : (prog.run P s).sent = [] := by
  obtain ⟨next, rfl, herror, -, -⟩ := h.gate
  simp only [Prog.run, hread]
  exact (herror e).run_sent _

end Gated

/-! ## Enough fuel -/

/-- No path of the program ends unfinished. -/
inductive Total {ε α : Type} : Prog ε α → Prop where
  | ret (a : α) : Total (.ret a)
  | fail (e : ε) : Total (.fail e)
  | read (n : Nat) (next : Except ε (List UInt8) → Prog ε α) :
      (∀ r, Total (next r)) → Total (.read n next)
  | write (bytes : List UInt8) (next : Prog ε α) : Total next → Total (.write bytes next)
  | upgrade (next : Except ε Unit → Prog ε α) : (∀ r, Total (next r)) → Total (.upgrade next)

namespace Total

variable {ε α β σ : Type} {P : Peer ε σ}

theorem bind {prog : Prog ε α} {k : α → Prog ε β} (h : Total prog) (hk : ∀ a, Total (k a)) :
    Total (prog.bind k) := by
  induction h with
  | ret a => exact hk a
  | fail e => exact .fail e
  | read n next _ ih => exact .read n _ ih
  | write bytes next _ ih => exact .write bytes _ ih
  | upgrade next _ ih => exact .upgrade _ ih

theorem mapError {prog : Prog ε α} (f : ε → ε) (h : Total prog) : Total (prog.mapError f) := by
  induction h with
  | ret a => exact .ret a
  | fail e => exact .fail (f e)
  | read n next _ ih => exact .read n _ ih
  | write bytes next _ ih => exact .write bytes _ ih
  | upgrade next _ ih => exact .upgrade _ ih

theorem switch : Total (Prog.switch : Prog ε Unit) := by
  refine .upgrade _ fun r => ?_
  cases r with
  | ok u => exact .ret u
  | error e => exact .fail e

theorem send (bytes : List UInt8) : Total (Prog.send bytes : Prog ε Unit) :=
  .write bytes _ (.ret ())

theorem finishes {prog : Prog ε α} (h : Total prog) (s : σ) :
    (prog.run P s).outcome ≠ .unfinished := by
  induction h generalizing s with
  | ret a => exact fun h => nomatch h
  | fail e => exact fun h => nomatch h
  | read n next _ ih => exact ih _ _
  | write bytes next _ ih => exact ih _
  | upgrade next _ ih => exact ih _ _

theorem of_silent {prog : Prog ε α} (h : Silent prog) : Total prog := by
  induction h with
  | ret a => exact .ret a
  | fail e => exact .fail e
  | read n next _ ih => exact .read n _ ih

theorem of_aborts {prog : Prog ε α} (h : Aborts prog) : Total prog := by
  induction h with
  | fail e => exact .fail e
  | read n next _ ih => exact .read n _ ih

end Total

/-! ## Programs that stop at a failed read -/

/-- A read that fails ends the program. -/
inductive Strict {ε α : Type} : Prog ε α → Prop where
  | ret (a : α) : Strict (.ret a)
  | fail (e : ε) : Strict (.fail e)
  | unfinished : Strict .unfinished
  | read (n : Nat) (next : Except ε (List UInt8) → Prog ε α) :
      (∀ e, ∃ e', next (.error e) = .fail e') → (∀ bytes, Strict (next (.ok bytes))) →
      Strict (.read n next)
  | write (bytes : List UInt8) (next : Prog ε α) : Strict next → Strict (.write bytes next)

namespace Strict

variable {ε α β σ : Type} {P : Peer ε σ}

theorem bind {prog : Prog ε α} {k : α → Prog ε β} (h : Strict prog) (hk : ∀ a, Strict (k a)) :
    Strict (prog.bind k) := by
  induction h with
  | ret a => exact hk a
  | fail e => exact .fail e
  | unfinished => exact .unfinished
  | read n next hfail _ ih =>
      refine .read n _ ?_ ih
      intro e
      obtain ⟨e', he'⟩ := hfail e
      exact ⟨e', by rw [he']; rfl⟩
  | write bytes next _ ih => exact .write bytes _ ih

theorem take (n : Nat) : Strict (Prog.take n : Prog ε (List UInt8)) :=
  .read n _ (fun e => ⟨e, rfl⟩) fun bytes => .ret bytes

theorem send (bytes : List UInt8) : Strict (Prog.send bytes : Prog ε Unit) :=
  .write bytes _ (.ret ())

theorem ofExcept (r : Except ε α) : Strict (Prog.ofExcept r) := by
  cases r with
  | error e => exact .fail e
  | ok a => exact .ret a

/-- What every read that succeeds keeps, a strict program that returns keeps. -/
theorem run_keeps {prog : Prog ε α} (h : Strict prog) {I : σ → Prop}
    (hread : ∀ n s bytes, I s → (P.read n s).1 = .ok bytes → I (P.read n s).2) {s : σ}
    (hs : I s) {a : α} (hout : (prog.run P s).outcome = .ok a) : I (prog.run P s).peer := by
  induction h generalizing s with
  | ret a => exact hs
  | fail e => cases hout
  | unfinished => cases hout
  | read n next hfail _ ih =>
      simp only [Prog.run] at hout ⊢
      cases hr : (P.read n s).1 with
      | error e =>
          obtain ⟨e', he'⟩ := hfail e
          rw [hr, he'] at hout
          cases hout
      | ok bytes =>
          rw [hr] at hout
          exact ih bytes (hread n s bytes hs hr) hout
  | write bytes next _ ih => exact ih hs hout

end Strict

/-! ## What a program may return -/

/-- Every value that the program can return meets `Q`. -/
inductive Returns {ε α : Type} (Q : α → Prop) : Prog ε α → Prop where
  | ret {a : α} : Q a → Returns Q (.ret a)
  | fail (e : ε) : Returns Q (.fail e)
  | unfinished : Returns Q .unfinished
  | read (n : Nat) (next : Except ε (List UInt8) → Prog ε α) :
      (∀ r, Returns Q (next r)) → Returns Q (.read n next)
  | write (bytes : List UInt8) (next : Prog ε α) : Returns Q next → Returns Q (.write bytes next)
  | upgrade (next : Except ε Unit → Prog ε α) :
      (∀ r, Returns Q (next r)) → Returns Q (.upgrade next)

namespace Returns

variable {ε α β σ : Type} {P : Peer ε σ} {Q : β → Prop}

theorem bind (prog : Prog ε α) {k : α → Prog ε β} (hk : ∀ a, Returns Q (k a)) :
    Returns Q (prog.bind k) := by
  induction prog with
  | ret a => exact hk a
  | fail e => exact .fail e
  | unfinished => exact .unfinished
  | read n next ih => exact .read n _ ih
  | write bytes next ih => exact .write bytes _ ih
  | upgrade next ih => exact .upgrade _ ih

theorem seq {Q' : α → Prop} {prog : Prog ε α} {k : α → Prog ε β} (h : Returns Q' prog)
    (hk : ∀ a, Q' a → Returns Q (k a)) : Returns Q (prog.bind k) := by
  induction h with
  | ret hQ => exact hk _ hQ
  | fail e => exact .fail e
  | unfinished => exact .unfinished
  | read n next _ ih => exact .read n _ ih
  | write bytes next _ ih => exact .write bytes _ ih
  | upgrade next _ ih => exact .upgrade _ ih

theorem top (prog : Prog ε α) : Returns (fun _ => True) prog := by
  induction prog with
  | ret a => exact .ret trivial
  | fail e => exact .fail e
  | unfinished => exact .unfinished
  | read n next ih => exact .read n _ ih
  | write bytes next ih => exact .write bytes _ ih
  | upgrade next ih => exact .upgrade _ ih

theorem outcome {prog : Prog ε β} (h : Returns Q prog) {s : σ} {b : β}
    (hout : (prog.run P s).outcome = .ok b) : Q b := by
  induction h generalizing s with
  | ret hQ =>
      cases hout
      exact hQ
  | fail e => cases hout
  | unfinished => cases hout
  | read n next _ ih => exact ih _ hout
  | write bytes next _ ih => exact ih hout
  | upgrade next _ ih => exact ih _ hout

end Returns

section Fuel

variable {ε α β σ : Type} {P : Peer ε σ}

theorem finishes_mapError (f : ε → ε) {prog : Prog ε α} {s : σ}
    (h : (prog.run P s).outcome ≠ .unfinished) :
    ((prog.mapError f).run P s).outcome ≠ .unfinished := by
  rw [run_mapError]
  cases hout : (prog.run P s).outcome with
  | ok a => exact fun h => nomatch h
  | error e => exact fun h => nomatch h
  | unfinished => exact absurd hout h

/-- A measure of what a peer may still deliver. -/
structure Shrinks (P : Peer ε σ) (size : σ → Nat) : Prop where
  read_le : ∀ n s, size (P.read n s).2 ≤ size s
  read_lt : ∀ s bytes, (P.read 1 s).1 = .ok bytes → size (P.read 1 s).2 < size s
  upgrade_le : ∀ s, size (P.upgrade s).2 ≤ size s

variable {size : σ → Nat}

theorem Shrinks.run_le (h : Shrinks P size) (prog : Prog ε α) (s : σ) :
    size (prog.run P s).peer ≤ size s := by
  induction prog generalizing s with
  | ret a => exact Nat.le_refl _
  | fail e => exact Nat.le_refl _
  | unfinished => exact Nat.le_refl _
  | read n next ih => exact Nat.le_trans (ih _ _) (h.read_le n s)
  | write bytes next ih => exact ih s
  | upgrade next ih => exact Nat.le_trans (ih _ _) (h.upgrade_le s)

/-- Behind a total program it is enough to finish from every peer that is no larger. -/
theorem Shrinks.finishes_bind (h : Shrinks P size) {prog : Prog ε α} (ht : Total prog)
    {k : α → Prog ε β} {s : σ}
    (hk : ∀ a s', size s' ≤ size s → ((k a).run P s').outcome ≠ .unfinished) :
    ((prog.bind k).run P s).outcome ≠ .unfinished := by
  have hfinish := ht.finishes (P := P) s
  have hle := h.run_le prog s
  rw [run_bind]
  split
  · exact hk _ _ hle
  · exact fun h => nomatch h
  case h_3 heq => exact absurd heq hfinish

/-- A byte that is read leaves less to deliver. -/
theorem Shrinks.finishes_read (h : Shrinks P size) {next : Except ε (List UInt8) → Prog ε α} {s : σ}
    (herror : ∀ e s', ((next (.error e)).run P s').outcome ≠ .unfinished)
    (hok : ∀ bytes s', size s' < size s → ((next (.ok bytes)).run P s').outcome ≠ .unfinished) :
    ((Prog.read 1 next).run P s).outcome ≠ .unfinished := by
  unfold Prog.run
  cases hread : (P.read 1 s).1 with
  | error e => exact herror e _
  | ok bytes => exact hok bytes _ (h.read_lt s bytes hread)

end Fuel

/-! ## One program behind several -/

section Mirrors

variable {ε η α β σ τ : Type} {P : Peer ε σ} {Q : Peer η τ} {R : σ → τ → Prop}
  {K : η → τ → ε → Prop}

theorem Prog.bind_assoc {γ : Type} (prog : Prog ε α) (k : α → Prog ε β) (l : β → Prog ε γ) :
    (prog.bind k).bind l = prog.bind fun a => (k a).bind l := by
  induction prog with
  | ret a => rfl
  | fail e => rfl
  | unfinished => rfl
  | read n next ih => exact congrArg (Prog.read n) (funext ih)
  | write bytes next ih => exact congrArg (Prog.write bytes) ih
  | upgrade next ih => exact congrArg Prog.upgrade (funext ih)

theorem Prog.bind_ret (prog : Prog ε α) : prog.bind .ret = prog := by
  induction prog with
  | ret a => rfl
  | fail e => rfl
  | unfinished => rfl
  | read n next ih => exact congrArg (Prog.read n) (funext ih)
  | write bytes next ih => exact congrArg (Prog.write bytes) ih
  | upgrade next ih => exact congrArg Prog.upgrade (funext ih)

theorem Prog.mapError_bind (f : ε → ε) (prog : Prog ε α) (k : α → Prog ε β) :
    (prog.bind k).mapError f = (prog.mapError f).bind fun a => (k a).mapError f := by
  induction prog with
  | ret a => rfl
  | fail e => rfl
  | unfinished => rfl
  | read n next ih => exact congrArg (Prog.read n) (funext ih)
  | write bytes next ih => exact congrArg (Prog.write bytes) ih
  | upgrade next ih => exact congrArg Prog.upgrade (funext ih)

/-- A run ends as another one does. Its peer may be of another kind, and its error stands for the
one of the other run and for what the other peer still held. -/
structure Finish.Like (R : σ → τ → Prop) (K : η → τ → ε → Prop) (f : Finish ε α σ)
    (g : Finish η α τ) : Prop where
  sent : f.sent = g.sent
  ok : ∀ a, g.outcome = .ok a → f.outcome = .ok a ∧ R f.peer g.peer
  error : ∀ x, g.outcome = .error x → ∃ e, f.outcome = .error e ∧ K x g.peer e
  unfinished : g.outcome = .unfinished → f.outcome = .unfinished

section Like

variable {f : Finish ε α σ} {g : Finish η α τ}

theorem Finish.Like.of_ok {a : α} (hsent : f.sent = g.sent) (hg : g.outcome = .ok a)
    (hf : f.outcome = .ok a) (hpeer : R f.peer g.peer) : f.Like R K g where
  sent := hsent
  ok b hb := by
    rw [hg] at hb
    cases hb
    exact ⟨hf, hpeer⟩
  error x hx := by
    rw [hg] at hx
    cases hx
  unfinished hu := by
    rw [hg] at hu
    cases hu

theorem Finish.Like.of_error {x : η} {e : ε} (hsent : f.sent = g.sent) (hg : g.outcome = .error x)
    (hf : f.outcome = .error e) (hK : K x g.peer e) : f.Like R K g where
  sent := hsent
  ok b hb := by
    rw [hg] at hb
    cases hb
  error y hy := by
    rw [hg] at hy
    cases hy
    exact ⟨e, hf, hK⟩
  unfinished hu := by
    rw [hg] at hu
    cases hu

theorem Finish.Like.of_unfinished (hsent : f.sent = g.sent) (hg : g.outcome = .unfinished)
    (hf : f.outcome = .unfinished) : f.Like R K g where
  sent := hsent
  ok b hb := by
    rw [hg] at hb
    cases hb
  error y hy := by
    rw [hg] at hy
    cases hy
  unfinished _ := hf

end Like

/-- From related peers, every run of `p` ends as the run of `q` does. -/
def Mirrors (P : Peer ε σ) (Q : Peer η τ) (R : σ → τ → Prop) (K : η → τ → ε → Prop)
    (p : Prog ε α) (q : Prog η α) : Prop :=
  ∀ s t, R s t → (p.run P s).Like R K (q.run Q t)

namespace Mirrors

theorem ret (a : α) : Mirrors P Q R K (.ret a) (.ret a) :=
  fun _ _ h => .of_ok rfl rfl rfl h

theorem fail {e : ε} {x : η} (h : ∀ t, K x t e) :
    Mirrors P Q R K (.fail e : Prog ε α) (.fail x) :=
  fun _ t _ => .of_error rfl rfl rfl (h t)

theorem unfinished : Mirrors P Q R K (.unfinished : Prog ε α) .unfinished :=
  fun _ _ _ => .of_unfinished rfl rfl rfl

theorem bind {p : Prog ε α} {q : Prog η α} {k : α → Prog ε β} {l : α → Prog η β}
    (h : Mirrors P Q R K p q) (hk : ∀ a, Mirrors P Q R K (k a) (l a)) :
    Mirrors P Q R K (p.bind k) (q.bind l) := by
  intro s t hst
  have hfirst := h s t hst
  rw [run_bind, run_bind]
  cases hq : (q.run Q t).outcome with
  | ok a =>
      obtain ⟨hp, hpeer⟩ := hfirst.ok a hq
      have hrest := hk a _ _ hpeer
      rw [hp]
      dsimp only
      exact ⟨by rw [hfirst.sent, hrest.sent], hrest.ok, hrest.error, hrest.unfinished⟩
  | error x =>
      obtain ⟨e, hp, herror⟩ := hfirst.error x hq
      rw [hp]
      exact .of_error hfirst.sent rfl rfl herror
  | unfinished =>
      rw [hfirst.unfinished hq]
      exact .of_unfinished hfirst.sent rfl rfl

/-- What fails does not reach what follows it. -/
theorem of_fail {p : Prog ε α} {x : η} (h : Mirrors P Q R K p (.fail x)) (k : α → Prog ε β) :
    Mirrors P Q R K (p.bind k) (.fail x) := by
  intro s t hst
  have hfirst := h s t hst
  obtain ⟨e, hp, herror⟩ := hfirst.error x rfl
  rw [run_bind, hp]
  exact .of_error hfirst.sent rfl rfl herror

theorem mapError {f : ε → ε} (hf : ∀ x t e, K x t e → K x t (f e)) {p : Prog ε α} {q : Prog η α}
    (h : Mirrors P Q R K p q) : Mirrors P Q R K (p.mapError f) q := by
  intro s t hst
  have hrun := h s t hst
  rw [run_mapError]
  refine ⟨hrun.sent, ?_, ?_, ?_⟩
  · intro a ha
    obtain ⟨hp, hpeer⟩ := hrun.ok a ha
    exact ⟨by rw [hp]; rfl, hpeer⟩
  · intro x hx
    obtain ⟨e, hp, herror⟩ := hrun.error x hx
    exact ⟨f e, by rw [hp]; rfl, hf x _ e herror⟩
  · intro hu
    rw [hrun.unfinished hu]
    rfl

theorem send (bytes : List UInt8) : Mirrors P Q R K (Prog.send bytes) (Prog.send bytes) :=
  fun _ _ h => .of_ok rfl rfl rfl h

/-- Reads that find the same bytes, or fail together. -/
theorem take {n : Nat}
    (hok : ∀ s t bytes t', R s t → Q.read n t = (.ok bytes, t') →
      (P.read n s).1 = .ok bytes ∧ R (P.read n s).2 t')
    (herror : ∀ s t x t', R s t → Q.read n t = (.error x, t') →
      ∃ e, (P.read n s).1 = .error e ∧ K x t' e) :
    Mirrors P Q R K (Prog.take n) (Prog.take n) := by
  intro s t hst
  unfold Prog.take Prog.run
  cases hread : Q.read n t with
  | mk result t' =>
      cases result with
      | ok bytes =>
          obtain ⟨hp, hpeer⟩ := hok s t bytes t' hst hread
          rw [hp]
          exact .of_ok rfl rfl rfl hpeer
      | error x =>
          obtain ⟨e, hp, hK⟩ := herror s t x t' hst hread
          rw [hp]
          exact .of_error rfl rfl rfl hK

/-- An upgrade that both peers refuse. -/
theorem switch {x : η} (hQ : ∀ t, Q.upgrade t = (.error x, t))
    (hP : ∀ s t, R s t → ∃ e, (P.upgrade s).1 = .error e ∧ K x t e) :
    Mirrors P Q R K Prog.switch Prog.switch := by
  intro s t hst
  obtain ⟨e, he, hK⟩ := hP s t hst
  unfold Prog.switch Prog.run
  rw [hQ t, he]
  exact .of_error rfl rfl rfl hK

end Mirrors

end Mirrors

end Wire
