import NzRust.Driver.Session

/-!
# Exclusive transactions

The session guard is counted: it lies with one future, one transaction or one
request at a time. From that, the order of the queue and the owner of every
request in it, a transaction that holds the guard is alone with the driver, and
gives the guard back only after its `COMMIT` or `ROLLBACK` went through or the
driver was told to stop. A stop that falls between the driver's test of `closing`
and its poll of the queue is the one exception.
-/

namespace NzRust.Driver

open Tasks

/-! ## Who holds the guard -/

/-- The transaction whose guard the task holds. -/
def Task.tx : Task → Option Nat
  | .txSending tx | .txBeginning tx _ | .txOpen tx _ | .txEnding tx _ | .txFinal tx _
  | .rbSending tx | .rbWaiting tx _ | .rbStopping tx | .rbReleasing tx => some tx
  | _ => none

def Task.guard : Task → Nat
  | .sending _ _ | .txSending _ | .txBeginning _ _ | .txOpen _ _ | .txEnding _ _ | .txFinal _ _
  | .rbSending _ | .rbWaiting _ _ | .rbStopping _ | .rbReleasing _ => 1
  | _ => 0

/-- The guard of the request that the driver works on. -/
def Phase.lease : Phase → Nat
  | .probing r | .racing r _ _ | .cancelling r _ | .draining r _ | .answering r _ _ =>
      r.leased.toNat
  | .skipping leased | .releasing leased _ => leased.toNat
  | _ => 0

theorem Phase.lease_of_current {p : Phase} {r : Request} (h : p.current = some r) :
    p.lease = r.leased.toNat := by
  cases p with
  | probing _ | racing _ _ _ | cancelling _ _ | draining _ _ | answering _ _ _ =>
      cases h
      rfl
  | _ => cases h

namespace Shared

/-- The requests that are not answered, oldest first. -/
def pending (s : Shared) : List Request :=
  s.phase.current.toList ++ s.queue

/-- The guards that requests carry. -/
def lent (s : Shared) : Nat :=
  s.phase.lease + s.queue.countP (·.leased)

def lockCount (s : Shared) : Nat :=
  s.locked.toNat

/-- The state between two steps: requests are in order and answered in order, those of the
holder and no others are there while the driver is not told to stop, and the driver polls the
queue only then. -/
structure Good (s : Shared) : Prop where
  ordered : s.pending.Pairwise (·.id < ·.id)
  fresh : ∀ r ∈ s.pending, r.id < s.nextId
  answered : ∀ id, (s.answer id).isSome → id < s.nextId ∧ ∀ r ∈ s.pending, id < r.id
  leases : ∀ r ∈ s.pending, r.leased = r.owner.isNone
  owned : s.control.closing = false → ∀ r ∈ s.pending, r.owner = s.holder
  unheld : s.locked = false → s.holder = none
  borrowed : 0 < s.lent → s.holder = none
  tested : s.phase = .tested → s.control.closing = false

end Shared

/-- What a transaction knows of its last request. -/
structure LastRequest (s : Shared) (tx id : Nat) : Prop where
  last : s.control.closing = false → ∀ r ∈ s.pending, r.id ≤ id
  ends : ∀ r ∈ s.pending, r.id = id → r.owner = some tx ∧ r.sql.ends = true
  fresh : id < s.nextId
  done : s.answer id = some true → tx ∈ s.completed

/-- What holds of a task beside the shared state. -/
def Fits (s : Shared) (t : Task) : Prop :=
  (t.guard = 1 → s.holder = t.tx) ∧
    match t with
    | .txEnding _ sql => sql.ends = true
    | .txFinal tx id | .rbWaiting tx id => LastRequest s tx id
    | .rbReleasing tx =>
        s.control.closing = true ∨ (tx ∈ s.completed ∧ s.pending = [])
    | _ => True

theorem fits_of_guard_zero {s : Shared} {t : Task} (h : t.guard = 0) : Fits s t := by
  cases t with
  | locking kind sql | waiting id | txLocking | cancelling | cancelLoaded generation | closing
  | driver | backend | packet id => exact ⟨nofun, trivial⟩
  | _ => cases h

/-- The steps that set `closing`. -/
def stops : Task → Signal → Bool
  | .rbStopping _, .proceed | .closing, .proceed => true
  | _, _ => false

/-- One step of a task, with the guards that the other tasks hold. -/
structure Steps (s s' : Shared) (ts : List Task) (rest : Nat) : Prop where
  good : s'.Good
  fits : ∀ u ∈ ts, Fits s' u
  guards : weigh Task.guard ts + rest + s'.lent = s'.lockCount
  others : rest = 0 ∨ ∀ u, Fits s u → Fits s' u

/-! ## Changes of the shared state -/

section Changes

variable {s s' : Shared}

/-- A change that at most takes requests away. -/
theorem Shared.Good.shrinks (h : s.Good) (hpending : s'.pending.Sublist s.pending)
    (hlent : s'.lent ≤ s.lent) (hid : s'.nextId = s.nextId) (hanswers : s'.answers = s.answers)
    (hclosing : s'.control.closing = s.control.closing) (hholder : s'.holder = s.holder)
    (hunheld : s'.locked = false → s'.holder = none)
    (htested : s'.phase = .tested → s'.control.closing = false) : s'.Good := by
  have hmem : ∀ r ∈ s'.pending, r ∈ s.pending := fun r hr => hpending.subset hr
  refine ⟨h.ordered.sublist hpending, ?_, ?_, ?_, ?_, hunheld, ?_, htested⟩
  · rw [hid]
    exact fun r hr => h.fresh r (hmem r hr)
  · rw [hid]
    intro id hsome
    rw [Shared.answer, hanswers] at hsome
    obtain ⟨hlt, hall⟩ := h.answered id hsome
    exact ⟨hlt, fun r hr => hall r (hmem r hr)⟩
  · exact fun r hr => h.leases r (hmem r hr)
  · rw [hclosing, hholder]
    exact fun hopen r hr => h.owned hopen r (hmem r hr)
  · intro hpos
    rw [hholder]
    exact h.borrowed (by omega)

/-- Such a change is not seen by a task either. -/
theorem Fits.shrinks {t : Task} (h : Fits s t) (hpending : s'.pending.Sublist s.pending)
    (hid : s'.nextId = s.nextId)
    (hanswers : ∀ tx id, LastRequest s tx id → s'.answer id = some true → tx ∈ s'.completed)
    (hclosing : s.control.closing = true → s'.control.closing = true)
    (hholder : s'.holder = s.holder) (hcompleted : s.completed ⊆ s'.completed) : Fits s' t := by
  have hmem : ∀ r ∈ s'.pending, r ∈ s.pending := fun r hr => hpending.subset hr
  have hlast : ∀ tx id, LastRequest s tx id → LastRequest s' tx id := by
    intro tx id hlast
    refine ⟨?_, fun r hr => hlast.ends r (hmem r hr), ?_, hanswers tx id hlast⟩
    · intro hopen r hr
      refine hlast.last ?_ r (hmem r hr)
      cases hc : s.control.closing with
      | false => rfl
      | true =>
          rw [hclosing hc] at hopen
          cases hopen
    · rw [hid]
      exact hlast.fresh
  refine ⟨?_, ?_⟩
  · rw [hholder]
    exact h.1
  · cases t with
    | txEnding tx sql => exact h.2
    | txFinal tx id => exact hlast tx id h.2
    | rbWaiting tx id => exact hlast tx id h.2
    | rbReleasing tx =>
        rcases h.2 with hc | ⟨hdone, hnil⟩
        · exact .inl (hclosing hc)
        · rw [hnil] at hpending
          exact .inr ⟨hcompleted hdone, List.sublist_nil.mp hpending⟩
    | _ => trivial

/-- A change that the books do not see. -/
theorem Shared.Good.of_same (h : s.Good) (hpending : s'.pending = s.pending)
    (hlent : s'.lent = s.lent) (hid : s'.nextId = s.nextId) (hanswers : s'.answers = s.answers)
    (hclosing : s'.control.closing = s.control.closing) (hholder : s'.holder = s.holder)
    (hunheld : s'.locked = false → s'.holder = none)
    (htested : s'.phase = .tested → s'.control.closing = false) : s'.Good :=
  h.shrinks (hpending ▸ List.Sublist.refl _) (Nat.le_of_eq hlent) hid hanswers hclosing hholder
    hunheld htested

theorem Fits.of_same {t : Task} (h : Fits s t) (hpending : s'.pending = s.pending)
    (hid : s'.nextId = s.nextId) (hanswers : s'.answers = s.answers)
    (hclosing : s.control.closing = true → s'.control.closing = true)
    (hholder : s'.holder = s.holder) (hcompleted : s'.completed = s.completed) : Fits s' t := by
  refine h.shrinks (hpending ▸ List.Sublist.refl _) hid ?_ hclosing hholder ?_
  · intro tx id hlast hdone
    rw [Shared.answer, hanswers] at hdone
    rw [hcompleted]
    exact hlast.done hdone
  · rw [hcompleted]
    exact fun _ hx => hx

theorem pending_push (s : Shared) (kind : Kind) (sql : Sql) (leased : Bool)
    (owner : Option Nat) :
    (s.push kind sql leased owner).pending =
      s.pending ++ [⟨s.nextId, kind, sql, leased, owner⟩] := by
  simp [Shared.pending, Shared.push]

theorem lent_push (s : Shared) (kind : Kind) (sql : Sql) (leased : Bool) (owner : Option Nat) :
    (s.push kind sql leased owner).lent = s.lent + leased.toNat := by
  have hcount : (s.push kind sql leased owner).queue.countP (·.leased) =
      s.queue.countP (·.leased) + leased.toNat := by
    cases leased <;> simp [Shared.push]
  show s.phase.lease + (s.push kind sql leased owner).queue.countP (·.leased) = _
  rw [hcount, Shared.lent]
  omega

/-- A new request is the youngest and belongs to the holder. -/
theorem Shared.Good.push (h : s.Good) (kind : Kind) (sql : Sql) {leased : Bool}
    {owner : Option Nat} (hleased : leased = owner.isNone) (howner : s.holder = owner) :
    (s.push kind sql leased owner).Good := by
  refine ⟨?_, ?_, ?_, ?_, ?_, h.unheld, ?_, h.tested⟩
  · rw [pending_push, List.pairwise_append]
    refine ⟨h.ordered, List.pairwise_singleton _ _, ?_⟩
    intro r hr r' hr'
    obtain rfl := List.mem_singleton.mp hr'
    exact h.fresh r hr
  · rw [pending_push]
    intro r hr
    show r.id < s.nextId + 1
    rcases List.mem_append.mp hr with hold | hnew
    · have hlt := h.fresh r hold
      omega
    · obtain rfl := List.mem_singleton.mp hnew
      exact Nat.lt_succ_self _
  · rw [pending_push]
    intro id hsome
    obtain ⟨hlt, hall⟩ := h.answered id hsome
    refine ⟨Nat.lt_succ_of_lt hlt, fun r hr => ?_⟩
    rcases List.mem_append.mp hr with hold | hnew
    · exact hall r hold
    · obtain rfl := List.mem_singleton.mp hnew
      exact hlt
  · rw [pending_push]
    intro r hr
    rcases List.mem_append.mp hr with hold | hnew
    · exact h.leases r hold
    · obtain rfl := List.mem_singleton.mp hnew
      exact hleased
  · rw [pending_push]
    intro hopen r hr
    rcases List.mem_append.mp hr with hold | hnew
    · exact h.owned hopen r hold
    · obtain rfl := List.mem_singleton.mp hnew
      exact howner.symm
  · rw [lent_push]
    intro hpos
    show s.holder = none
    cases leased with
    | true =>
        rw [howner]
        exact Option.isNone_iff_eq_none.mp hleased.symm
    | false => exact h.borrowed (by simpa using hpos)

/-- The guard comes back once no request of its holder is left. -/
theorem Shared.Good.unlock (h : s.Good)
    (hnone : s.control.closing = false → ∀ r ∈ s.pending, r.owner = none) : s.unlock.Good :=
  ⟨h.ordered, h.fresh, h.answered, h.leases, hnone, fun _ => rfl, fun _ => rfl, h.tested⟩

theorem Shared.Good.stop (h : s.Good) (hphase : s.phase ≠ .tested) : s.stop.Good :=
  ⟨h.ordered, h.fresh, h.answered, h.leases, nofun, h.unheld, h.borrowed,
    fun htested => absurd htested hphase⟩

/-- Nothing is pending when the guard lies with nobody. -/
theorem Shared.Good.pending_nil (h : s.Good) (hlent : s.lent = 0) (hholder : s.holder = none)
    (hopen : s.control.closing = false) : s.pending = [] := by
  rw [List.eq_nil_iff_forall_not_mem]
  intro r hr
  have howner := h.owned hopen r hr
  have hleased := h.leases r hr
  rw [howner, hholder] at hleased
  -- The request carries a guard, so some guard is lent.
  have hpos : 0 < s.lent := by
    rw [Shared.pending, List.mem_append] at hr
    rw [Shared.lent]
    rcases hr with hcurrent | hqueue
    · have hlease := Phase.lease_of_current (Option.mem_toList.mp hcurrent)
      rw [hleased] at hlease
      rw [hlease]
      exact Nat.lt_of_lt_of_le Nat.zero_lt_one (Nat.le_add_right 1 _)
    · have hcount : 0 < s.queue.countP (·.leased) :=
        List.countP_pos_iff.mpr ⟨r, hqueue, hleased⟩
      omega
  omega

/-- A transaction takes the free guard. -/
theorem Shared.Good.begin (h : s.Good) (hlent : s.lent = 0) (hholder : s.holder = none) :
    ({ s with locked := true, holder := some s.nextId, nextId := s.nextId + 1 } : Shared).Good := by
  refine ⟨h.ordered, ?_, ?_, h.leases, ?_, (fun hl => nomatch hl), ?_, h.tested⟩
  · intro r hr
    exact Nat.lt_succ_of_lt (h.fresh r hr)
  · intro id hsome
    obtain ⟨hlt, hall⟩ := h.answered id hsome
    exact ⟨Nat.lt_succ_of_lt hlt, hall⟩
  · intro hopen r hr
    have hnil := h.pending_nil hlent hholder hopen
    change r ∈ s.pending at hr
    rw [hnil] at hr
    cases hr
  · intro hpos
    change 0 < s.lent at hpos
    omega

end Changes

/-! ## The steps -/

section Steps

variable {s s' : Shared} {t : Task} {signal : Signal} {ts : List Task} {rest : Nat}

/-- The task holds the guard: no one else does and no request carries it. -/
theorem alone (h : t.guard + rest + s.lent = s.lockCount) (ht : t.guard = 1) :
    rest = 0 ∧ s.lent = 0 ∧ s.locked = true := by
  have hle : s.lockCount ≤ 1 := Bool.toNat_le _
  refine ⟨by omega, by omega, ?_⟩
  cases hl : s.locked with
  | true => rfl
  | false =>
      rw [Shared.lockCount, hl] at h
      simp at h
      omega

theorem without (h : t.guard + rest + s.lent = s.lockCount) (ht : t.guard = 0) :
    rest + s.lent = s.lockCount := by
  omega

/-- Nobody holds the guard. -/
theorem free (h : t.guard + rest + s.lent = s.lockCount) (hl : s.locked = false) :
    rest = 0 ∧ s.lent = 0 := by
  rw [Shared.lockCount, hl] at h
  simp at h
  omega

/-- A task that is done, and a change that the books do not see. -/
theorem Steps.leaves (hgood : s'.Good) (hkept : ∀ u, Fits s u → Fits s' u)
    (hguards : rest + s'.lent = s'.lockCount) : Steps s s' [] rest :=
  ⟨hgood, nofun, by simpa using hguards, .inr hkept⟩

/-- The holder of the guard becomes another task that holds it, or lets go of it. -/
theorem Steps.holds (hgood : s'.Good) {u : Task} (hfits : Fits s' u) (hu : u.guard = 1)
    (hrest : rest = 0) (hlent : s'.lent = 0) (hlocked : s'.locked = true) :
    Steps s s' [u] rest := by
  refine ⟨hgood, ?_, ?_, .inl hrest⟩
  · intro v hv
    obtain rfl := List.mem_singleton.mp hv
    exact hfits
  · rw [weigh_cons, weigh_nil, hu, hrest, hlent, Shared.lockCount, hlocked]
    rfl

theorem Steps.unlocks (hgood : s.unlock.Good) (hrest : rest = 0) (hlent : s.lent = 0) :
    Steps s s.unlock [] rest := by
  refine ⟨hgood, nofun, ?_, .inl hrest⟩
  rw [weigh_nil, hrest]
  show 0 + 0 + s.lent = 0
  rw [hlent]

/-- The owner of what a client that holds the guard leaves behind. -/
theorem owner_none (hgood : s.Good) (hholder : s.holder = none) :
    s.control.closing = false → ∀ r ∈ s.pending, r.owner = none := by
  intro hopen r hr
  rw [hgood.owned hopen r hr, hholder]

theorem clientAct_steps (h : clientAct s t signal = some (s', ts)) (hgood : s.Good)
    (hfits : Fits s t) (hguards : t.guard + rest + s.lent = s.lockCount) :
    Steps s s' ts rest := by
  unfold clientAct at h
  split at h
  case h_1 kind sql =>
    split at h
    · cases h
    case isFalse hlocked =>
      obtain ⟨rfl, rfl⟩ := Prod.mk.inj (Option.some.inj h)
      have hunlocked : s.locked = false := by simpa using hlocked
      have hfree := free hguards hunlocked
      have hholder := hgood.unheld hunlocked
      have hlock : ({ s with locked := true } : Shared).Good :=
        hgood.of_same rfl rfl rfl rfl rfl rfl (fun hl => nomatch hl) hgood.tested
      exact .holds hlock (u := .sending kind sql) ⟨fun _ => hholder, trivial⟩ rfl hfree.1 hfree.2 rfl
  case h_2 =>
    split at h
    · obtain ⟨rfl, rfl⟩ := Prod.mk.inj (Option.some.inj h)
      exact .leaves hgood (fun _ hu => hu) (without hguards rfl)
    · cases h
  case h_3 =>
    obtain ⟨rfl, rfl⟩ := Prod.mk.inj (Option.some.inj h)
    exact .leaves hgood (fun _ hu => hu) (without hguards rfl)
  case h_4 kind sql =>
    have halone := alone hguards rfl
    have hholder : s.holder = none := hfits.1 rfl
    split at h
    · obtain ⟨rfl, rfl⟩ := Prod.mk.inj (Option.some.inj h)
      exact .unlocks (hgood.unlock (owner_none hgood hholder)) halone.1 halone.2.1
    split at h
    · obtain ⟨rfl, rfl⟩ := Prod.mk.inj (Option.some.inj h)
      refine ⟨hgood.push kind sql rfl hholder, ?_, ?_, .inl halone.1⟩
      · intro u hu
        obtain rfl := List.mem_singleton.mp hu
        exact fits_of_guard_zero rfl
      · rw [lent_push, halone.1, halone.2.1]
        show _ = s.locked.toNat
        rw [halone.2.2]
        rfl
    · cases h
  case h_5 =>
    have halone := alone hguards rfl
    have hholder : s.holder = none := hfits.1 rfl
    obtain ⟨rfl, rfl⟩ := Prod.mk.inj (Option.some.inj h)
    exact .unlocks (hgood.unlock (owner_none hgood hholder)) halone.1 halone.2.1
  case h_6 =>
    split at h
    · obtain ⟨rfl, rfl⟩ := Prod.mk.inj (Option.some.inj h)
      exact .leaves hgood (fun _ hu => hu) (without hguards rfl)
    · cases h
  case h_7 id =>
    obtain ⟨rfl, rfl⟩ := Prod.mk.inj (Option.some.inj h)
    exact .leaves (hgood.of_same rfl rfl rfl rfl rfl rfl hgood.unheld hgood.tested)
      (fun u hu => hu.of_same rfl rfl rfl (fun hc => hc) rfl rfl)
      (without hguards rfl)
  case h_8 => cases h

theorem lastRequest_push (hgood : s.Good) (kind : Kind) {sql : Sql} (hsql : sql.ends = true)
    (tx : Nat) : LastRequest (s.push kind sql false (some tx)) tx s.nextId := by
  refine ⟨?_, ?_, Nat.lt_succ_self _, ?_⟩
  · rw [pending_push]
    intro _ r hr
    rcases List.mem_append.mp hr with hold | hnew
    · exact Nat.le_of_lt (hgood.fresh r hold)
    · obtain rfl := List.mem_singleton.mp hnew
      exact Nat.le_refl _
  · rw [pending_push]
    intro r hr hid
    rcases List.mem_append.mp hr with hold | hnew
    · have hlt := hgood.fresh r hold
      omega
    · obtain rfl := List.mem_singleton.mp hnew
      exact ⟨rfl, hsql⟩
  · intro hdone
    have hsome : (s.answer s.nextId).isSome := by
      rw [show s.answer s.nextId = some true from hdone]
      rfl
    exact absurd (hgood.answered _ hsome).1 (Nat.lt_irrefl _)

/-- An answered last request has left nothing behind it. -/
theorem LastRequest.pending_nil {tx id : Nat} (h : LastRequest s tx id) (hgood : s.Good)
    (hanswer : s.answer id = some true) (hopen : s.control.closing = false) : s.pending = [] := by
  rw [List.eq_nil_iff_forall_not_mem]
  intro r hr
  have hle := h.last hopen r hr
  have hlt := (hgood.answered id (by rw [hanswer]; rfl)).2 r hr
  omega

section Holder

variable {tx : Nat} (hgood : s.Good) (hfits : Fits s t) (htx : t.tx = some tx)
  (ht : t.guard = 1) (hguards : t.guard + rest + s.lent = s.lockCount)

include hgood hfits htx ht hguards

/-- The transaction moves on without touching the queue. -/
theorem Steps.stays {u : Task} (hu : u.guard = 1)
    (hfitsu : s.holder = some tx → Fits s u) : Steps s s [u] rest := by
  have halone := alone hguards ht
  have hholder : s.holder = some tx := by
    rw [hfits.1 ht, htx]
  exact .holds hgood (hfitsu hholder) hu halone.1 halone.2.1 halone.2.2

/-- The same when it gives up on a request. -/
theorem Steps.abandons {u : Task} (hu : u.guard = 1) (id : Nat)
    (hplain : ∀ s : Shared, s.holder = some tx → Fits s u) :
    Steps s { s with abandoned := id :: s.abandoned } [u] rest := by
  have halone := alone hguards ht
  have hholder : s.holder = some tx := by
    rw [hfits.1 ht, htx]
  have hkept : ({ s with abandoned := id :: s.abandoned } : Shared).Good :=
    hgood.of_same rfl rfl rfl rfl rfl rfl hgood.unheld hgood.tested
  exact .holds hkept (hplain _ hholder) hu halone.1 halone.2.1 halone.2.2

/-- The transaction sends a request of its own. -/
theorem Steps.pushes {u : Task} (hu : u.guard = 1) (sql : Sql)
    (hfitsu : s.holder = some tx → Fits (s.push .query sql false (some tx)) u) :
    Steps s (s.push .query sql false (some tx)) [u] rest := by
  have halone := alone hguards ht
  have hholder : s.holder = some tx := by
    rw [hfits.1 ht, htx]
  refine .holds (hgood.push .query sql rfl hholder) (hfitsu hholder) hu halone.1 ?_ halone.2.2
  rw [lent_push, halone.2.1]
  rfl

end Holder

theorem fits_dropTransaction (tx : Nat) (runtime : Bool) {s : Shared} (h : s.holder = some tx) :
    Fits s (dropTransaction tx runtime) := by
  cases runtime with
  | true => exact ⟨fun _ => h, trivial⟩
  | false => exact ⟨fun _ => h, trivial⟩

theorem dropTransaction_guard (tx : Nat) (runtime : Bool) :
    (dropTransaction tx runtime).guard = 1 := by
  cases runtime <;> rfl

theorem dropTransaction_tx (tx : Nat) (runtime : Bool) :
    (dropTransaction tx runtime).tx = some tx := by
  cases runtime <;> rfl

/-- `BEGIN`, `COMMIT` and `ROLLBACK` of a transaction, up to the answer of the last one. -/
theorem transactionAct_steps (h : transactionAct s t signal = some (s', ts)) (hgood : s.Good)
    (hfits : Fits s t) (hguards : t.guard + rest + s.lent = s.lockCount)
    (hstop : stops t signal = true → s.phase ≠ .tested) : Steps s s' ts rest := by
  unfold transactionAct at h
  split at h
  case h_1 nested =>
    split at h
    · cases h
    case isFalse hlocked =>
      have hunlocked : s.locked = false := by simpa using hlocked
      have hfree := free hguards hunlocked
      have hholder := hgood.unheld hunlocked
      split at h
      · obtain ⟨rfl, rfl⟩ := Prod.mk.inj (Option.some.inj h)
        exact .leaves hgood (fun _ hu => hu) (without hguards rfl)
      · obtain ⟨rfl, rfl⟩ := Prod.mk.inj (Option.some.inj h)
        exact .holds (hgood.begin hfree.2 hholder) (u := .txSending s.nextId)
          ⟨fun _ => rfl, trivial⟩ rfl hfree.1 hfree.2 rfl
  case h_2 =>
    split at h
    · obtain ⟨rfl, rfl⟩ := Prod.mk.inj (Option.some.inj h)
      exact .leaves hgood (fun _ hu => hu) (without hguards rfl)
    · cases h
  case h_3 =>
    obtain ⟨rfl, rfl⟩ := Prod.mk.inj (Option.some.inj h)
    exact .leaves hgood (fun _ hu => hu) (without hguards rfl)
  case h_4 tx =>
    split at h
    · obtain ⟨rfl, rfl⟩ := Prod.mk.inj (Option.some.inj h)
      exact .stays hgood hfits rfl rfl hguards rfl (fits_dropTransaction tx true)
    split at h
    · obtain ⟨rfl, rfl⟩ := Prod.mk.inj (Option.some.inj h)
      exact .pushes hgood hfits rfl rfl hguards rfl .begin fun hh => ⟨fun _ => hh, trivial⟩
    · cases h
  case h_5 tx runtime =>
    obtain ⟨rfl, rfl⟩ := Prod.mk.inj (Option.some.inj h)
    exact .stays hgood hfits rfl rfl hguards (dropTransaction_guard tx runtime)
      (fits_dropTransaction tx runtime)
  case h_6 tx id =>
    split at h
    · cases h
    · obtain ⟨rfl, rfl⟩ := Prod.mk.inj (Option.some.inj h)
      exact .stays hgood hfits rfl rfl hguards (u := .txOpen tx []) rfl
        fun hh => ⟨fun _ => hh, trivial⟩
    · obtain ⟨rfl, rfl⟩ := Prod.mk.inj (Option.some.inj h)
      exact .stays hgood hfits rfl rfl hguards rfl (fits_dropTransaction tx true)
  case h_7 tx id runtime =>
    obtain ⟨rfl, rfl⟩ := Prod.mk.inj (Option.some.inj h)
    exact .abandons hgood hfits rfl rfl hguards (dropTransaction_guard tx runtime) id
      fun _ => fits_dropTransaction tx runtime
  case h_8 tx own sql =>
    split at h
    case isTrue hends =>
      split at h
      · obtain ⟨rfl, rfl⟩ := Prod.mk.inj (Option.some.inj h)
        exact .stays hgood hfits rfl rfl hguards (u := .txEnding tx sql) rfl
          fun hh => ⟨fun _ => hh, hends⟩
      · cases h
    · obtain ⟨rfl, rfl⟩ := Prod.mk.inj (Option.some.inj h)
      exact .stays hgood hfits rfl rfl hguards (u := .txOpen tx _) rfl
        fun hh => ⟨fun _ => hh, trivial⟩
  case h_9 tx own i =>
    unfold ownAct at h
    split at h
    · cases h
    case h_2 s'' own' hown =>
      obtain ⟨rfl, rfl⟩ := Prod.mk.inj (Option.some.inj h)
      split at hown
      · cases hown
      · split at hown
        · obtain ⟨rfl, rfl⟩ := Prod.mk.inj (Option.some.inj hown)
          exact .stays hgood hfits rfl rfl hguards (u := .txOpen tx _) rfl
            fun hh => ⟨fun _ => hh, trivial⟩
        split at hown
        · obtain ⟨rfl, rfl⟩ := Prod.mk.inj (Option.some.inj hown)
          exact .pushes hgood hfits rfl rfl hguards (u := .txOpen tx _) rfl _
            fun hh => ⟨fun _ => hh, trivial⟩
        · cases hown
      · split at hown
        · obtain ⟨rfl, rfl⟩ := Prod.mk.inj (Option.some.inj hown)
          exact .stays hgood hfits rfl rfl hguards (u := .txOpen tx _) rfl
            fun hh => ⟨fun _ => hh, trivial⟩
        · cases hown
  case h_10 tx own i =>
    unfold dropOwnAct at h
    split at h
    · cases h
    case h_2 s'' own' hown =>
      obtain ⟨rfl, rfl⟩ := Prod.mk.inj (Option.some.inj h)
      split at hown
      · cases hown
      · obtain ⟨rfl, rfl⟩ := Prod.mk.inj (Option.some.inj hown)
        exact .stays hgood hfits rfl rfl hguards (u := .txOpen tx _) rfl
          fun hh => ⟨fun _ => hh, trivial⟩
      case h_3 id _ =>
        obtain ⟨rfl, rfl⟩ := Prod.mk.inj (Option.some.inj hown)
        exact .abandons hgood hfits rfl rfl hguards (u := .txOpen tx _) rfl id
          fun _ hh => ⟨fun _ => hh, trivial⟩
  case h_11 tx runtime =>
    obtain ⟨rfl, rfl⟩ := Prod.mk.inj (Option.some.inj h)
    exact .stays hgood hfits rfl rfl hguards (dropTransaction_guard tx runtime)
      (fits_dropTransaction tx runtime)
  case h_12 tx sql =>
    split at h
    · obtain ⟨rfl, rfl⟩ := Prod.mk.inj (Option.some.inj h)
      exact .stays hgood hfits rfl rfl hguards rfl (fits_dropTransaction tx true)
    split at h
    · obtain ⟨rfl, rfl⟩ := Prod.mk.inj (Option.some.inj h)
      exact .pushes hgood hfits rfl rfl hguards (u := .txFinal tx _) rfl sql
        fun hh => ⟨fun _ => hh, lastRequest_push hgood .query hfits.2 tx⟩
    · cases h
  case h_13 tx sql runtime =>
    obtain ⟨rfl, rfl⟩ := Prod.mk.inj (Option.some.inj h)
    exact .stays hgood hfits rfl rfl hguards (dropTransaction_guard tx runtime)
      (fits_dropTransaction tx runtime)
  case h_14 tx id =>
    split at h
    · cases h
    case h_2 hanswer =>
      obtain ⟨rfl, rfl⟩ := Prod.mk.inj (Option.some.inj h)
      have halone := alone hguards rfl
      refine .unlocks (hgood.unlock ?_) halone.1 halone.2.1
      intro hopen r hr
      rw [LastRequest.pending_nil hfits.2 hgood hanswer hopen] at hr
      cases hr
    · obtain ⟨rfl, rfl⟩ := Prod.mk.inj (Option.some.inj h)
      exact .stays hgood hfits rfl rfl hguards rfl (fits_dropTransaction tx true)
  case h_15 tx id runtime =>
    obtain ⟨rfl, rfl⟩ := Prod.mk.inj (Option.some.inj h)
    exact .abandons hgood hfits rfl rfl hguards (dropTransaction_guard tx runtime) id
      fun _ => fits_dropTransaction tx runtime
  case h_16 tx =>
    split at h
    · obtain ⟨rfl, rfl⟩ := Prod.mk.inj (Option.some.inj h)
      exact .stays hgood hfits rfl rfl hguards (u := .rbStopping tx) rfl
        fun hh => ⟨fun _ => hh, trivial⟩
    split at h
    · obtain ⟨rfl, rfl⟩ := Prod.mk.inj (Option.some.inj h)
      exact .pushes hgood hfits rfl rfl hguards (u := .rbWaiting tx _) rfl .rollback
        fun hh => ⟨fun _ => hh, lastRequest_push hgood .query rfl tx⟩
    · cases h
  case h_17 tx =>
    obtain ⟨rfl, rfl⟩ := Prod.mk.inj (Option.some.inj h)
    exact .stays hgood hfits rfl rfl hguards (u := .rbStopping tx) rfl
      fun hh => ⟨fun _ => hh, trivial⟩
  case h_18 tx id =>
    split at h
    · cases h
    case h_2 hanswer =>
      obtain ⟨rfl, rfl⟩ := Prod.mk.inj (Option.some.inj h)
      refine .stays hgood hfits rfl rfl hguards (u := .rbReleasing tx) rfl
        fun hh => ⟨fun _ => hh, ?_⟩
      cases hopen : s.control.closing with
      | true => exact .inl rfl
      | false =>
          exact .inr ⟨hfits.2.done hanswer, LastRequest.pending_nil hfits.2 hgood hanswer hopen⟩
    · obtain ⟨rfl, rfl⟩ := Prod.mk.inj (Option.some.inj h)
      exact .stays hgood hfits rfl rfl hguards (u := .rbStopping tx) rfl
        fun hh => ⟨fun _ => hh, trivial⟩
  case h_19 tx id =>
    obtain ⟨rfl, rfl⟩ := Prod.mk.inj (Option.some.inj h)
    exact .abandons hgood hfits rfl rfl hguards (u := .rbStopping tx) rfl id
      fun _ hh => ⟨fun _ => hh, trivial⟩
  case h_20 tx =>
    obtain ⟨rfl, rfl⟩ := Prod.mk.inj (Option.some.inj h)
    have halone := alone hguards rfl
    have hholder : s.holder = some tx := hfits.1 rfl
    exact .holds (hgood.stop (hstop rfl)) (u := .rbReleasing tx) ⟨fun _ => hholder, .inl rfl⟩ rfl
      halone.1 halone.2.1 halone.2.2
  case h_21 tx =>
    obtain ⟨rfl, rfl⟩ := Prod.mk.inj (Option.some.inj h)
    have halone := alone hguards rfl
    refine .unlocks (hgood.unlock ?_) halone.1 halone.2.1
    intro hopen r hr
    rcases hfits.2 with hclosing | ⟨_, hnil⟩
    · rw [hclosing] at hopen
      cases hopen
    · rw [hnil] at hr
      cases hr
  case h_22 => cases h

theorem controlAct_steps (h : controlAct s t signal = some (s', ts)) (hgood : s.Good)
    (hguards : t.guard + rest + s.lent = s.lockCount)
    (hstop : stops t signal = true → s.phase ≠ .tested) : Steps s s' ts rest := by
  unfold controlAct at h
  split at h
  case h_1 =>
    split at h
    · obtain ⟨rfl, rfl⟩ := Prod.mk.inj (Option.some.inj h)
      exact .leaves hgood (fun _ hu => hu) (without hguards rfl)
    · obtain ⟨rfl, rfl⟩ := Prod.mk.inj (Option.some.inj h)
      refine ⟨hgood, ?_, by simpa [Task.guard] using hguards, .inr fun _ hu => hu⟩
      intro u hu
      obtain rfl := List.mem_singleton.mp hu
      exact fits_of_guard_zero rfl
  case h_2 generation =>
    obtain ⟨rfl, rfl⟩ := Prod.mk.inj (Option.some.inj h)
    exact .leaves (hgood.of_same rfl rfl rfl rfl rfl rfl hgood.unheld hgood.tested)
      (fun u hu => hu.of_same rfl rfl rfl (fun hc => hc) rfl rfl) (without hguards rfl)
  case h_3 =>
    obtain ⟨rfl, rfl⟩ := Prod.mk.inj (Option.some.inj h)
    exact .leaves (hgood.stop (hstop rfl))
      (fun u hu => hu.of_same rfl rfl rfl (fun _ => rfl) rfl rfl) (without hguards rfl)
  case h_4 => cases h

/-! ## The driver -/

/-- The driver's step keeps everything, whoever else is there. -/
structure DriverSteps (s s' : Shared) : Prop where
  good : s'.Good
  fits : ∀ u, Fits s u → Fits s' u
  guards : s'.lent + s.lockCount = s.lent + s'.lockCount

/-- The driver moves on with the same requests, answered or not. -/
theorem DriverSteps.same (hgood : s.Good) (hpending : s'.pending = s.pending)
    (hlent : s'.lent = s.lent) (hid : s'.nextId = s.nextId) (hanswers : s'.answers = s.answers)
    (hclosing : s'.control.closing = s.control.closing) (hholder : s'.holder = s.holder)
    (hcompleted : s'.completed = s.completed) (hlocked : s'.locked = s.locked)
    (htested : s'.phase = .tested → s'.control.closing = false) : DriverSteps s s' := by
  refine ⟨hgood.of_same hpending hlent hid hanswers hclosing hholder ?_ htested,
    fun u hu => hu.of_same hpending hid hanswers ?_ hholder hcompleted, ?_⟩
  · rw [hlocked, hholder]
    exact hgood.unheld
  · intro hc
    rw [hclosing]
    exact hc
  · rw [hlent, Shared.lockCount, Shared.lockCount, hlocked]

/-- A step of `drive_operation` that keeps its request. -/
theorem DriverSteps.works (hgood : s.Good) (hphase : s'.phase ≠ .tested)
    (hcurrent : s'.phase.current = s.phase.current) (hlease : s'.phase.lease = s.phase.lease)
    (hrest : { s' with
      phase := s.phase, wire := s.wire, responses := s.responses
      control := { s'.control with cancelled := s.control.cancelled } } = s) :
    DriverSteps s s' := by
  have field {A : Type} (f : Shared → A) := congrArg f hrest
  have hqueue : s'.queue = s.queue := field Shared.queue
  refine .same hgood ?_ ?_ (field Shared.nextId) (field Shared.answers)
    (field fun s => s.control.closing) (field Shared.holder) (field Shared.completed)
    (field Shared.locked) fun hnext => absurd hnext hphase
  · rw [Shared.pending, Shared.pending, hcurrent, hqueue]
  · rw [Shared.lent, Shared.lent, hlease, hqueue]

theorem operationAct_steps {phase : Phase} (hphase : s.phase = phase)
    (h : operationAct s phase signal = some (s', ts)) (hgood : s.Good) :
    DriverSteps s s' ∧ ∀ u ∈ ts, u.guard = 0 := by
  unfold operationAct at h
  repeat' split at h
  all_goals first
    | cases h; done
    | obtain ⟨rfl, rfl⟩ := Prod.mk.inj (Option.some.inj h)
      refine ⟨.works hgood (by nofun) ?_ ?_ (by rfl), ?_⟩
  -- The request in hand stays the same, and only a packet is sent off.
  all_goals first
    | rw [hphase]; rfl
    | simp [Task.guard]

/-- The driver gives back the guard of a request it is done with. -/
theorem DriverSteps.frees (hgood : s.Good) (hlocked : s.lent ≤ s.lockCount) {leased : Bool}
    {next : Phase} (hcurrent : s.phase.current = none) (hlease : s.phase.lease = leased.toNat)
    (hnext : next.current = none) (hnextlease : next.lease = 0) (htested : next ≠ .tested) :
    DriverSteps s { (if leased then s.unlock else s) with phase := next } := by
  have hpending : next.current.toList ++ s.queue = s.pending := by
    rw [Shared.pending, hcurrent, hnext]
  cases leased with
  | false =>
      refine .same hgood hpending ?_ rfl rfl rfl rfl rfl rfl fun hn => absurd hn htested
      show next.lease + _ = _
      rw [hnextlease, Shared.lent, hlease]
      rfl
  | true =>
      have hlent : s.lent = 1 + s.queue.countP (·.leased) := by
        rw [Shared.lent, hlease]
        rfl
      have hle : s.lockCount ≤ 1 := Bool.toNat_le _
      have hholder := hgood.borrowed (by omega)
      refine ⟨hgood.shrinks (hpending ▸ List.Sublist.refl _) ?_ rfl rfl rfl hholder.symm
        (fun _ => rfl) fun hn => absurd hn htested, fun u hu => ?_, ?_⟩
      · show next.lease + s.queue.countP (·.leased) ≤ _
        omega
      · exact hu.of_same hpending rfl rfl (fun hc => hc) hholder.symm rfl
      · show next.lease + s.queue.countP (·.leased) + s.lockCount = s.lent + 0
        omega

/-- The driver takes the oldest request. -/
theorem take_steps (hgood : s.Good) (hphase : s.phase = .tested) {r : Request}
    {tail : List Request} (hqueue : s.queue = r :: tail) : DriverSteps s (take s r tail) := by
  have hpending : s.pending = r :: tail := by
    rw [Shared.pending, hphase, hqueue]
    rfl
  have hlent : s.lent = r.leased.toNat + tail.countP (·.leased) := by
    rw [Shared.lent, hphase, hqueue, List.countP_cons]
    show 0 + _ = _
    cases r.leased <;> simp [Nat.add_comm]
  unfold take
  split
  · exact .same hgood hpending.symm hlent.symm rfl rfl rfl rfl rfl rfl fun hn => nomatch hn
  split
  · refine ⟨hgood.shrinks ?_ (Nat.le_of_eq hlent.symm) rfl rfl rfl rfl hgood.unheld
      (fun hn => nomatch hn), fun u hu => hu.shrinks ?_ rfl (fun tx id hlast hd => hlast.done hd)
      (fun hc => hc) rfl (fun _ hx => hx), ?_⟩
    · rw [hpending]
      exact List.sublist_cons_self r tail
    · rw [hpending]
      exact List.sublist_cons_self r tail
    · rw [hlent]
      rfl
  · exact .same hgood hpending.symm hlent.symm rfl rfl rfl rfl rfl rfl fun hn => nomatch hn

/-- The oldest request is answered and gone. -/
theorem DriverSteps.answers (hgood : s.Good) (r : Request) {tail : List Request} (ok : Bool)
    (hpending : s.pending = r :: tail) (htail : s'.pending = tail)
    (hanswers : s'.answers = (r.id, ok) :: s.answers)
    (hcompleted : s'.completed =
      if ok && r.sql.ends then r.owner.toList ++ s.completed else s.completed)
    (hid : s'.nextId = s.nextId) (hclosing : s'.control.closing = s.control.closing)
    (hholder : s'.holder = s.holder) (hunheld : s'.locked = false → s'.holder = none)
    (hlent : s'.lent ≤ s.lent) (hguards : s'.lent + s.lockCount = s.lent + s'.lockCount)
    (htested : s'.phase = .tested → s'.control.closing = false) : DriverSteps s s' := by
  have hhead : r ∈ s.pending := by
    rw [hpending]
    exact List.mem_cons_self
  have hsub : s'.pending.Sublist s.pending := by
    rw [hpending, htail]
    exact List.sublist_cons_self r tail
  have hmem : ∀ r' ∈ s'.pending, r' ∈ s.pending := fun r' hr => hsub.subset hr
  have hlookup : ∀ id, s'.answer id = if id = r.id then some ok else s.answer id := by
    intro id
    rw [Shared.answer, hanswers, List.lookup_cons]
    by_cases hsame : id = r.id
    · simp [hsame]
    · have hne : (id == r.id) = false := by simpa using hsame
      rw [hne, if_neg hsame]
      rfl
  have hmore : s.completed ⊆ s'.completed := by
    rw [hcompleted]
    intro tx htx
    split
    · exact List.mem_append_right _ htx
    · exact htx
  have hordered := hgood.ordered
  rw [hpending, List.pairwise_cons] at hordered
  refine ⟨⟨hgood.ordered.sublist hsub, ?_, ?_, ?_, ?_, hunheld, ?_, htested⟩, ?_, hguards⟩
  · rw [hid]
    exact fun r' hr => hgood.fresh r' (hmem r' hr)
  · rw [hid]
    intro id hsome
    rw [hlookup] at hsome
    by_cases hsame : id = r.id
    · subst hsame
      refine ⟨hgood.fresh r hhead, ?_⟩
      rw [htail]
      exact hordered.1
    · rw [if_neg hsame] at hsome
      obtain ⟨hlt, hall⟩ := hgood.answered id hsome
      exact ⟨hlt, fun r' hr => hall r' (hmem r' hr)⟩
  · exact fun r' hr => hgood.leases r' (hmem r' hr)
  · rw [hclosing, hholder]
    exact fun hopen r' hr => hgood.owned hopen r' (hmem r' hr)
  · intro hpos
    rw [hholder]
    exact hgood.borrowed (by omega)
  · intro u hu
    refine hu.shrinks hsub hid ?_ (fun hc => hclosing.trans hc) hholder hmore
    intro tx id hlast hdone
    rw [hlookup] at hdone
    by_cases hsame : id = r.id
    · -- The last request of its transaction: it is the one that is answered here.
      rw [if_pos hsame] at hdone
      obtain ⟨howner, hends⟩ := hlast.ends r hhead hsame.symm
      have hok : ok = true := Option.some.inj hdone
      rw [hcompleted, hok, hends, howner]
      exact List.mem_append_left _ (List.mem_singleton.mpr rfl)
    · rw [if_neg hsame] at hdone
      exact hmore (hlast.done hdone)

/-- A driver that has stopped drops the requests that are left. -/
theorem drops_steps (hgood : s.Good) (hlocked : s.lent ≤ s.lockCount)
    (hphase : s.phase = .emptying) {r : Request} {tail : List Request}
    (hqueue : s.queue = r :: tail) :
    DriverSteps s { (if r.leased then s.unlock else s) with
      queue := tail, answers := (r.id, false) :: s.answers } := by
  have hpending : s.pending = r :: tail := by
    rw [Shared.pending, hphase, hqueue]
    rfl
  have hlent : s.lent = tail.countP (·.leased) + r.leased.toNat := by
    rw [Shared.lent, hphase, hqueue, List.countP_cons]
    show 0 + _ = _
    cases r.leased <;> simp
  have htail : s.phase.current.toList ++ tail = tail := by
    rw [hphase]
    rfl
  have hlease : s.phase.lease = 0 := by
    rw [hphase]
    rfl
  have hle : s.lockCount ≤ 1 := Bool.toNat_le _
  cases hleased : r.leased with
  | false =>
      rw [hleased] at hlent
      refine .answers hgood r false hpending htail rfl rfl rfl rfl rfl hgood.unheld ?_ ?_ hgood.tested
      · show s.phase.lease + tail.countP (·.leased) ≤ _
        omega
      · show s.phase.lease + tail.countP (·.leased) + s.lockCount = _ + s.lockCount
        rw [hlent, hlease]
        simp
  | true =>
      rw [hleased] at hlent
      have hholder := hgood.borrowed (by rw [hlent]; exact Nat.succ_pos _)
      refine .answers hgood r false hpending htail rfl rfl rfl rfl hholder.symm (fun _ => rfl) ?_ ?_
        hgood.tested
      · show s.phase.lease + tail.countP (·.leased) ≤ _
        omega
      · show s.phase.lease + tail.countP (·.leased) + s.lockCount = s.lent + 0
        simp at hlent
        omega

theorem driverAct_steps (h : driverAct s signal = some (s', ts)) (hgood : s.Good)
    (hlocked : s.lent ≤ s.lockCount) : DriverSteps s s' ∧ ∀ u ∈ ts, u.guard = 0 := by
  unfold driverAct at h
  split at h
  case h_1 hphase =>
    obtain ⟨rfl, rfl⟩ := Prod.mk.inj (Option.some.inj h)
    refine ⟨.same hgood ?_ ?_ rfl rfl rfl rfl rfl rfl ?_, nofun⟩
    · rw [Shared.pending, Shared.pending, hphase]
      cases s.control.closing <;> rfl
    · rw [Shared.lent, Shared.lent, hphase]
      cases s.control.closing <;> rfl
    · intro htested
      cases hc : s.control.closing with
      | false => rfl
      | true => simp [hc] at htested
  case h_2 hphase =>
    split at h
    · obtain ⟨rfl, rfl⟩ := Prod.mk.inj (Option.some.inj h)
      refine ⟨.same hgood ?_ ?_ rfl rfl rfl rfl rfl rfl nofun, nofun⟩
      · rw [Shared.pending, Shared.pending, hphase]
        rfl
      · rw [Shared.lent, Shared.lent, hphase]
        rfl
    case h_2 r tail hqueue =>
      obtain ⟨rfl, rfl⟩ := Prod.mk.inj (Option.some.inj h)
      exact ⟨take_steps hgood hphase hqueue, nofun⟩
  case h_3 r healthy hphase =>
    obtain ⟨rfl, rfl⟩ := Prod.mk.inj (Option.some.inj h)
    refine ⟨.same hgood ?_ ?_ rfl rfl rfl rfl rfl rfl nofun, nofun⟩
    · rw [Shared.pending, Shared.pending, hphase]
      rfl
    · rw [Shared.lent, Shared.lent, hphase]
      rfl
  case h_4 r ok reusable hphase =>
    obtain ⟨rfl, rfl⟩ := Prod.mk.inj (Option.some.inj h)
    have hsame : ({ s with
        phase := .releasing r.leased reusable
        answers := (r.id, ok) :: s.answers
        completed := if ok && r.sql.ends then r.owner.toList ++ s.completed else s.completed } :
          Shared).lent = s.lent := by
      rw [Shared.lent, Shared.lent, hphase]
      rfl
    refine ⟨.answers hgood r ok ?_ rfl rfl rfl rfl rfl rfl hgood.unheld (Nat.le_of_eq hsame) ?_ nofun,
      nofun⟩
    · rw [Shared.pending, hphase]
      rfl
    · rw [hsame]
      rfl
  case h_5 leased hphase =>
    obtain ⟨rfl, rfl⟩ := Prod.mk.inj (Option.some.inj h)
    exact ⟨.frees hgood hlocked (by rw [hphase]; rfl) (by rw [hphase]; rfl) rfl rfl nofun, nofun⟩
  case h_6 leased reusable hphase =>
    obtain ⟨rfl, rfl⟩ := Prod.mk.inj (Option.some.inj h)
    exact ⟨.frees hgood hlocked (by rw [hphase]; rfl) (by rw [hphase]; rfl) rfl rfl nofun, nofun⟩
  case h_7 reusable hphase =>
    obtain ⟨rfl, rfl⟩ := Prod.mk.inj (Option.some.inj h)
    refine ⟨.same hgood ?_ ?_ rfl rfl rfl rfl rfl rfl ?_, nofun⟩
    · rw [Shared.pending, Shared.pending, hphase]
      cases reusable <;> rfl
    · rw [Shared.lent, Shared.lent, hphase]
      cases reusable <;> rfl
    · cases reusable <;> exact nofun
  case h_8 hphase =>
    obtain ⟨rfl, rfl⟩ := Prod.mk.inj (Option.some.inj h)
    refine ⟨.same hgood ?_ ?_ rfl rfl rfl rfl rfl rfl nofun, nofun⟩
    · rw [Shared.pending, Shared.pending, hphase]
      rfl
    · rw [Shared.lent, Shared.lent, hphase]
      rfl
  case h_9 hphase =>
    split at h
    · obtain ⟨rfl, rfl⟩ := Prod.mk.inj (Option.some.inj h)
      refine ⟨.same hgood ?_ ?_ rfl rfl rfl rfl rfl rfl nofun, nofun⟩
      · rw [Shared.pending, Shared.pending, hphase]
        rfl
      · rw [Shared.lent, Shared.lent, hphase]
        rfl
    case h_2 r tail hqueue =>
      obtain ⟨rfl, rfl⟩ := Prod.mk.inj (Option.some.inj h)
      exact ⟨drops_steps hgood hlocked hphase hqueue, nofun⟩
  case h_10 => exact operationAct_steps rfl h hgood

theorem backendAct_steps (h : backendAct s signal = some (s', ts)) (hgood : s.Good) :
    DriverSteps s s' ∧ ts = [] := by
  unfold backendAct at h
  repeat' split at h
  all_goals first
    | cases h; done
    | obtain ⟨rfl, rfl⟩ := Prod.mk.inj (Option.some.inj h)
      exact ⟨.same hgood rfl rfl rfl rfl rfl rfl rfl rfl hgood.tested, rfl⟩

theorem packetAct_steps {id : Nat} (h : packetAct s id signal = some (s', ts)) (hgood : s.Good) :
    DriverSteps s s' ∧ ts = [] := by
  unfold packetAct at h
  repeat' split at h
  all_goals first
    | cases h; done
    | obtain ⟨rfl, rfl⟩ := Prod.mk.inj (Option.some.inj h)
      exact ⟨.same hgood rfl rfl rfl rfl rfl rfl rfl rfl hgood.tested, rfl⟩

/-- A step of the driver, the backend or a packet, seen from the clients. -/
theorem DriverSteps.steps (h : DriverSteps s s') (hts : ∀ u ∈ ts, u.guard = 0)
    (hguards : rest + s.lent = s.lockCount) : Steps s s' ts rest := by
  have hzero : weigh Task.guard ts = 0 := (weigh_eq_zero_iff Task.guard ts).mpr hts
  have hkept := h.guards
  refine ⟨h.good, fun u hu => fits_of_guard_zero (hts u hu), ?_, .inr h.fits⟩
  omega

theorem act_steps (h : act s t signal = some (s', ts)) (hgood : s.Good) (hfits : Fits s t)
    (hguards : t.guard + rest + s.lent = s.lockCount)
    (hstop : stops t signal = true → s.phase ≠ .tested) : Steps s s' ts rest := by
  unfold act at h
  split at h
  case h_1 => exact clientAct_steps h hgood hfits hguards
  case h_2 => exact clientAct_steps h hgood hfits hguards
  case h_3 => exact clientAct_steps h hgood hfits hguards
  case h_4 => exact controlAct_steps h hgood hguards hstop
  case h_5 => exact controlAct_steps h hgood hguards hstop
  case h_6 => exact controlAct_steps h hgood hguards hstop
  case h_7 =>
    split at h
    · cases h
    case h_2 hdriver =>
      obtain ⟨rfl, rfl⟩ := Prod.mk.inj (Option.some.inj h)
      have hbooks := without hguards rfl
      obtain ⟨hsteps, hts⟩ := driverAct_steps hdriver hgood (by omega)
      refine hsteps.steps ?_ hbooks
      intro u hu
      rcases List.mem_cons.mp hu with rfl | hrest
      · rfl
      · exact hts u hrest
  case h_8 =>
    split at h
    · cases h
    case h_2 hbackend =>
      obtain ⟨rfl, rfl⟩ := Prod.mk.inj (Option.some.inj h)
      obtain ⟨hsteps, rfl⟩ := backendAct_steps hbackend hgood
      refine hsteps.steps ?_ (without hguards rfl)
      intro u hu
      obtain rfl := List.mem_singleton.mp hu
      rfl
  case h_9 =>
    obtain ⟨hsteps, rfl⟩ := packetAct_steps h hgood
    exact hsteps.steps nofun (without hguards rfl)
  case h_10 => exact transactionAct_steps h hgood hfits hguards hstop

end Steps

/-! ## Every run -/

def Phase.isTested : Phase → Bool
  | .tested => true
  | _ => false

/-- `closing` is not set between the driver's test of it and its poll of the queue. -/
def pollsWhole (s : Soup) : Move → Bool
  | .spawn _ => true
  | .run i signal => s.tasks[i]?.all fun t => !(stops t signal && s.shared.phase.isTested)

/-- The driver's next poll of the queue takes this request and executes it. -/
def Takes (s : Soup) (r : Request) : Prop :=
  s.shared.phase = .tested ∧ s.shared.queue.head? = some r

structure Inv (s : Soup) : Prop where
  good : s.shared.Good
  fits : ∀ t ∈ s.tasks, Fits s.shared t
  guards : weigh Task.guard s.tasks + s.shared.lent = s.shared.lockCount

theorem starts_guard {t : Task} (h : starts t = true) : t.guard = 0 := by
  cases t with
  | locking kind sql | txLocking | cancelling | closing => rfl
  | _ => cases h

theorem inv_step {s s' : Soup} {a : Move} (hs : Inv s) (hpoll : pollsWhole s a = true)
    (hstep : program.step s a = some s') : Inv s' := by
  cases a with
  | spawn t =>
      obtain ⟨hstart, rfl⟩ := Program.step_spawn hstep
      have hzero := starts_guard hstart
      refine ⟨hs.good, ?_, ?_⟩
      · intro u hu
        rcases List.mem_append.mp hu with hold | hnew
        · exact hs.fits u hold
        · obtain rfl := List.mem_singleton.mp hnew
          exact fits_of_guard_zero hzero
      · have hguards := hs.guards
        simpa [hzero] using hguards
  | run i signal =>
      obtain ⟨pre, t, post, shared, ts, htasks, hget, hact, rfl⟩ := Program.step_run hstep
      have hguards := hs.guards
      have hfits := hs.fits
      rw [htasks, weigh_append, weigh_cons] at hguards
      rw [htasks] at hfits
      have hstop : stops t signal = true → s.shared.phase ≠ .tested := by
        intro hstops htested
        simp [pollsWhole, hget, hstops, htested, Phase.isTested] at hpoll
      have hlocked : t.guard + (weigh Task.guard pre + weigh Task.guard post) + s.shared.lent =
          s.shared.lockCount := by
        omega
      have hsteps := act_steps hact hs.good
        (hfits t (List.mem_append_right _ List.mem_cons_self)) hlocked hstop
      have hother : ∀ u ∈ pre ++ post, Fits shared u := by
        intro u hu
        rcases hsteps.others with hzero | hkept
        · have hnone : weigh Task.guard (pre ++ post) = 0 := by
            rw [weigh_append]
            exact hzero
          exact fits_of_guard_zero ((weigh_eq_zero_iff _ _).mp hnone u hu)
        · refine hkept u (hfits u ?_)
          rcases List.mem_append.mp hu with hpre | hpost
          · exact List.mem_append_left _ hpre
          · exact List.mem_append_right _ (List.mem_cons_of_mem _ hpost)
      refine ⟨hsteps.good, ?_, ?_⟩
      · intro u hu
        rcases List.mem_append.mp hu with hpre | hrest
        · exact hother u (List.mem_append_left _ hpre)
        · rcases List.mem_append.mp hrest with hts | hpost
          · exact hsteps.fits u hts
          · exact hother u (List.mem_append_right _ hpost)
      · have hkept := hsteps.guards
        rw [weigh_middle]
        omega

theorem inv_start : Inv start := by
  refine ⟨⟨List.Pairwise.nil, nofun, nofun, nofun, fun _ => nofun, fun _ => rfl, fun _ => rfl,
    nofun⟩, ?_, rfl⟩
  intro t ht
  simp only [start, List.mem_cons, List.not_mem_nil, or_false] at ht
  rcases ht with rfl | rfl
  · exact fits_of_guard_zero rfl
  · exact fits_of_guard_zero rfl

/-! ## Transactions -/

/-- A task holds the session guard for this transaction. -/
def Holds (s : Soup) (tx : Nat) : Prop :=
  ∃ t ∈ s.tasks, t.tx = some tx

section Transactions

variable {s s' : Shared} {t : Task} {signal : Signal} {ts : List Task} {tx : Nat}

theorem Task.guard_of_tx (h : t.tx = some tx) : t.guard = 1 := by
  cases t with
  | txSending _ | txBeginning _ _ | txOpen _ _ | txEnding _ _ | txFinal _ _ | rbSending _
  | rbWaiting _ _ | rbStopping _ | rbReleasing _ => rfl
  | _ => cases h

theorem Inv.holder {s : Soup} (hs : Inv s) (h : Holds s tx) : s.shared.holder = some tx := by
  obtain ⟨t, ht, htx⟩ := h
  rw [(hs.fits t ht).1 (Task.guard_of_tx htx), htx]

/-- What the driver is about to take belongs to the holder. -/
theorem Inv.takes {s : Soup} {r : Request} (hs : Inv s) (h : Takes s r) :
    s.shared.control.closing = false ∧ r.owner = s.shared.holder := by
  have hopen := hs.good.tested h.1
  refine ⟨hopen, hs.good.owned hopen r ?_⟩
  exact List.mem_append_right _ (List.mem_of_head? h.2)

theorem operationAct_current {phase : Phase} (hphase : s.phase = phase)
    (h : operationAct s phase signal = some (s', ts)) :
    s'.phase.current = s.phase.current := by
  unfold operationAct at h
  repeat' split at h
  all_goals first
    | cases h; done
    | obtain ⟨rfl, rfl⟩ := Prod.mk.inj (Option.some.inj h)
      rw [hphase]
      rfl

/-- The driver works on the request it had, on none, or on the one it takes now. -/
theorem driverAct_current (h : driverAct s signal = some (s', ts)) :
    s'.phase.current = s.phase.current ∨ s'.phase.current = none ∨
      s.phase = .tested ∧ s.queue.head? = s'.phase.current := by
  unfold driverAct at h
  split at h
  case h_1 =>
    obtain ⟨rfl, rfl⟩ := Prod.mk.inj (Option.some.inj h)
    refine .inr (.inl ?_)
    cases s.control.closing <;> rfl
  case h_2 hphase =>
    split at h
    · obtain ⟨rfl, rfl⟩ := Prod.mk.inj (Option.some.inj h)
      exact .inr (.inl rfl)
    case h_2 r tail hqueue =>
      obtain ⟨rfl, rfl⟩ := Prod.mk.inj (Option.some.inj h)
      rw [hqueue]
      unfold take
      split
      · exact .inr (.inr ⟨hphase, rfl⟩)
      split
      · exact .inr (.inl rfl)
      · exact .inr (.inr ⟨hphase, rfl⟩)
  case h_3 r healthy hphase =>
    obtain ⟨rfl, rfl⟩ := Prod.mk.inj (Option.some.inj h)
    rw [hphase]
    exact .inl rfl
  case h_7 reusable hphase =>
    obtain ⟨rfl, rfl⟩ := Prod.mk.inj (Option.some.inj h)
    refine .inr (.inl ?_)
    cases reusable <;> rfl
  case h_9 hphase =>
    split at h
    · obtain ⟨rfl, rfl⟩ := Prod.mk.inj (Option.some.inj h)
      exact .inr (.inl rfl)
    · obtain ⟨rfl, rfl⟩ := Prod.mk.inj (Option.some.inj h)
      refine .inl ?_
      split <;> rfl
  case h_10 => exact .inl (operationAct_current rfl h)
  all_goals
    obtain ⟨rfl, rfl⟩ := Prod.mk.inj (Option.some.inj h)
    exact .inr (.inl rfl)

theorem driverAct_closing (h : driverAct s signal = some (s', ts)) :
    s'.control.closing = s.control.closing := by
  unfold driverAct take operationAct at h
  repeat' split at h
  all_goals first
    | cases h; done
    | obtain ⟨rfl, rfl⟩ := Prod.mk.inj (Option.some.inj h)
      rfl

theorem backendAct_control (h : backendAct s signal = some (s', ts)) :
    s'.control = s.control ∧ s'.phase = s.phase ∧ ts = [] := by
  unfold backendAct at h
  repeat' split at h
  all_goals first
    | cases h; done
    | obtain ⟨rfl, rfl⟩ := Prod.mk.inj (Option.some.inj h)
      exact ⟨rfl, rfl, rfl⟩

theorem packetAct_control {id : Nat} (h : packetAct s id signal = some (s', ts)) :
    s'.control = s.control ∧ s'.phase = s.phase ∧ ts = [] := by
  unfold packetAct at h
  repeat' split at h
  all_goals first
    | cases h; done
    | obtain ⟨rfl, rfl⟩ := Prod.mk.inj (Option.some.inj h)
      exact ⟨rfl, rfl, rfl⟩

/-- A stop is not taken back. -/
theorem act_closing (h : act s t signal = some (s', ts)) (hc : s.control.closing = true) :
    s'.control.closing = true := by
  rcases act_cases h with ⟨-, us, hdriver, -⟩ | ⟨-, us, hbackend, -⟩ | ⟨id, -, hpacket⟩ | ⟨-, hapart⟩
  · rw [driverAct_closing hdriver]
    exact hc
  · rw [(backendAct_control hbackend).1]
    exact hc
  · rw [(packetAct_control hpacket).1]
    exact hc
  · exact hapart.closing hc

theorem act_current (h : act s t signal = some (s', ts)) :
    s'.phase.current = s.phase.current ∨ s'.phase.current = none ∨
      s.phase = .tested ∧ s.queue.head? = s'.phase.current := by
  rcases act_cases h with ⟨-, us, hdriver, -⟩ | ⟨-, us, hbackend, -⟩ | ⟨id, -, hpacket⟩ | ⟨-, hapart⟩
  · exact driverAct_current hdriver
  · rw [(backendAct_control hbackend).2.1]
    exact .inl rfl
  · rw [(packetAct_control hpacket).2.1]
    exact .inl rfl
  · rw [hapart.phase]
    exact .inl rfl

/-- A transaction hands its guard on, or lets go of it after its end or a stop. -/
theorem transactionAct_releases (h : transactionAct s t signal = some (s', ts))
    (hfits : Fits s t) (htx : t.tx = some tx) :
    (∃ u ∈ ts, u.tx = some tx) ∨ tx ∈ s'.completed ∨ s'.control.closing = true := by
  unfold transactionAct at h
  split at h
  case h_14 tx' id =>
    split at h
    · cases h
    case h_2 hanswer =>
      obtain ⟨rfl, rfl⟩ := Prod.mk.inj (Option.some.inj h)
      cases htx
      exact .inr (.inl (hfits.2.done hanswer))
    · obtain ⟨rfl, rfl⟩ := Prod.mk.inj (Option.some.inj h)
      cases htx
      exact .inl ⟨_, List.mem_singleton.mpr rfl, dropTransaction_tx tx true⟩
  case h_21 tx' =>
    obtain ⟨rfl, rfl⟩ := Prod.mk.inj (Option.some.inj h)
    cases htx
    rcases hfits.2 with hclosing | ⟨hdone, -⟩
    · exact .inr (.inr hclosing)
    · exact .inr (.inl hdone)
  -- Everywhere else there is a successor with the same guard.
  all_goals
    repeat' split at h
    all_goals first
      | cases h; done
      | cases htx; done
      | obtain ⟨rfl, rfl⟩ := Prod.mk.inj (Option.some.inj h)
        cases htx
        refine .inl ⟨_, List.mem_singleton.mpr rfl, ?_⟩
        first
          | rfl
          | exact dropTransaction_tx _ _

theorem act_releases (h : act s t signal = some (s', ts)) (hfits : Fits s t)
    (htx : t.tx = some tx) :
    (∃ u ∈ ts, u.tx = some tx) ∨ tx ∈ s'.completed ∨ s'.control.closing = true := by
  have htransaction : transactionAct s t signal = some (s', ts) := by
    cases t with
    | txSending _ | txBeginning _ _ | txOpen _ _ | txEnding _ _ | txFinal _ _ | rbSending _
    | rbWaiting _ _ | rbStopping _ | rbReleasing _ => exact h
    | _ => cases htx
  exact transactionAct_releases htransaction hfits htx

end Transactions

/-- Sessions whose driver polls the queue in one piece with its test of `closing`. -/
def pollingWhole : Transition.System Soup Move :=
  session.guarded fun s a => pollsWhole s a = true

/-- The same, for as long as the transaction has the guard. -/
def pollingWithin (tx : Nat) : Transition.System Soup Move :=
  session.guarded fun s a => pollsWhole s a = true ∧ Holds s tx

section Runs

variable {s s' : Soup} {tx : Nat}

theorem inv_of_reachable (h : pollingWhole.Reachable s) : Inv s := by
  refine h.invariant ?_ ?_
  · rintro s rfl
    exact inv_start
  · intro s a s' hs hstep
    exact inv_step hs hstep.1 hstep.2

theorem step_closing {a : Move} (h : session.step s a s')
    (hc : s.shared.control.closing = true) : s'.shared.control.closing = true := by
  cases a with
  | spawn t =>
      obtain ⟨-, rfl⟩ := Program.step_spawn h
      exact hc
  | run i signal =>
      obtain ⟨pre, t, post, shared, ts, -, -, hact, rfl⟩ := Program.step_run h
      exact act_closing hact hc

theorem run_closing {as : List Move} (h : pollingWhole.Run s as s')
    (hc : s.shared.control.closing = true) : s'.shared.control.closing = true := by
  induction h with
  | nil => exact hc
  | cons hstep _ ih => exact ih (step_closing hstep.2 hc)

/-- Once the driver has taken a request of the transaction, it works on no other's. -/
theorem step_current {a : Move} (hs : Inv s) (h : session.step s a s') (hholds : Holds s tx)
    (hown : ∀ r, s.shared.phase.current = some r → r.owner = some tx) :
    ∀ r, s'.shared.phase.current = some r → r.owner = some tx := by
  cases a with
  | spawn t =>
      obtain ⟨-, rfl⟩ := Program.step_spawn h
      exact hown
  | run i signal =>
      obtain ⟨pre, t, post, shared, ts, -, -, hact, rfl⟩ := Program.step_run h
      intro r hr
      rcases act_current hact with hsame | hnone | ⟨hphase, hhead⟩
      · exact hown r (hsame ▸ hr)
      · rw [hnone] at hr
        cases hr
      · have htakes : Takes s r := ⟨hphase, hhead.trans hr⟩
        rw [(hs.takes htakes).2]
        exact hs.holder hholds

theorem run_current {as : List Move} (h : (pollingWithin tx).Run s as s') (hs : Inv s)
    (hown : ∀ r, s.shared.phase.current = some r → r.owner = some tx) :
    ∀ r, s'.shared.phase.current = some r → r.owner = some tx := by
  induction h with
  | nil => exact hown
  | cons hstep _ ih =>
      exact ih (inv_step hs hstep.1.1 hstep.2) (step_current hs hstep.2 hstep.1.2 hown)

/-- The guard of a transaction is let go only after its end or a stop. -/
theorem step_releases {a : Move} (hs : Inv s) (h : session.step s a s') (hholds : Holds s tx)
    (hfreed : ¬Holds s' tx) :
    tx ∈ s'.shared.completed ∨ s'.shared.control.closing = true := by
  obtain ⟨u, hu, hutx⟩ := hholds
  cases a with
  | spawn t =>
      obtain ⟨-, rfl⟩ := Program.step_spawn h
      exact absurd ⟨u, List.mem_append_left _ hu, hutx⟩ hfreed
  | run i signal =>
      obtain ⟨pre, t, post, shared, ts, htasks, -, hact, rfl⟩ := Program.step_run h
      have hfits := hs.fits
      rw [htasks] at hu hfits
      rcases List.mem_append.mp hu with hpre | hrest
      · exact absurd ⟨u, List.mem_append_left _ hpre, hutx⟩ hfreed
      rcases List.mem_cons.mp hrest with rfl | hpost
      · have hu' := hfits u (List.mem_append_right _ List.mem_cons_self)
        rcases act_releases hact hu' hutx with ⟨v, hv, hvtx⟩ | hgone
        · refine absurd ⟨v, ?_, hvtx⟩ hfreed
          exact List.mem_append_right _ (List.mem_append_left _ hv)
        · exact hgone
      · refine absurd ⟨u, ?_, hutx⟩ hfreed
        exact List.mem_append_right _ (List.mem_append_right _ hpost)

end Runs

/-- From the first request of a transaction that the driver takes until the transaction lets go
of the guard, the driver works on that transaction's requests only. The guard goes back after
its `COMMIT` or `ROLLBACK` succeeded, or with the driver stopped and taking nothing more. -/
theorem transaction_exclusive {s : Soup} (h : pollingWhole.Reachable s) (tx : Nat) :
    (∀ b, Takes s b → b.owner = some tx →
      ∀ as s', (pollingWithin tx).Run s as s' →
        ∀ r, s'.shared.phase.current = some r → r.owner = some tx) ∧
    (∀ a s', pollingWhole.step s a s' → Holds s tx → ¬Holds s' tx →
      tx ∈ s'.shared.completed ∨
        s'.shared.control.closing = true ∧
          ∀ as s'', pollingWhole.Run s' as s'' → ∀ r, ¬Takes s'' r) := by
  have hs := inv_of_reachable h
  refine ⟨?_, ?_⟩
  · intro b htakes _ as s' hrun
    refine run_current hrun hs ?_
    intro r hr
    rw [htakes.1] at hr
    cases hr
  · intro a s' hstep hholds hfreed
    rcases step_releases hs hstep.2 hholds hfreed with hdone | hclosing
    · exact .inl hdone
    · refine .inr ⟨hclosing, ?_⟩
      intro as s'' hrun r htakes
      have hlater := inv_of_reachable (hrun.reachable (h.move hstep))
      have hstill := run_closing hrun hclosing
      rw [(hlater.takes htakes).1] at hstill
      cases hstill

/-- A transaction takes the guard and queues its `BEGIN`. -/
def queueBegin : List Move :=
  [.spawn .txLocking, .run 2 (.outcome false), .run 2 .proceed, .run 0 .proceed]

/-- A `BEGIN` about to be taken, with the guard at its transaction. -/
theorem first_begin_exclusive :
    ∃ s, pollingWhole.Reachable s ∧ Takes s ⟨1, .query, .begin, false, some 0⟩ ∧
      ∀ as s', (pollingWithin 0).Run s as s' →
        ∀ r, s'.shared.phase.current = some r → r.owner = some 0 := by
  have hreach := exec_session pollsWhole queueBegin _ rfl
  have hexclusive := transaction_exclusive hreach 0
  exact ⟨_, hreach, ⟨rfl, rfl⟩, hexclusive.1 _ ⟨rfl, rfl⟩ rfl⟩

/-- The `BEGIN` goes through, the transaction is dropped and its `ROLLBACK` fails. The driver is
back at its poll when the rollback task calls `stop`. -/
def failRollback : List Move :=
  [.run 0 .proceed, .run 0 .proceed, .run 1 .proceed, .run 1 (.outcome true),
    .run 0 .proceed, .run 0 .proceed, .run 0 .proceed, .run 0 .proceed,
    .run 2 .proceed, .run 2 (.drop true), .run 2 .proceed,
    .run 0 .proceed, .run 0 .proceed, .run 0 .proceed, .run 1 .proceed, .run 1 (.outcome false),
    .run 0 .proceed, .run 0 .proceed, .run 0 .proceed, .run 0 .proceed, .run 0 .proceed,
    .run 2 .proceed, .run 2 .proceed]

/-- What is left then: the guard about to be dropped, with no `ROLLBACK` that went through. -/
def stoppedLate : Shared where
  control := { next := 2, closing := true }
  locked := true
  phase := .tested
  nextId := 3
  answers := [(2, false), (1, true)]
  holder := some 0

theorem stoppedLate_reachable :
    session.Reachable ⟨stoppedLate, [.driver, .backend, .rbReleasing 0]⟩ :=
  (exec_session (fun _ _ => true) (queueBegin ++ failRollback) _ rfl).of_guarded

/-- The next client's statement is still taken, inside the transaction that is left open. -/
theorem late_stop_takes_another :
    ¬ ∀ s, session.Reachable s → ∀ tx a s', session.step s a s' → Holds s tx → ¬Holds s' tx →
      tx ∈ s'.shared.completed ∨
        s'.shared.control.closing = true ∧
          ∀ as s'', session.Run s' as s'' → ∀ r, ¬Takes s'' r := by
  intro h
  have hfreed : ¬Holds ⟨stoppedLate.unlock, [.driver, .backend]⟩ 0 := by
    rintro ⟨t, ht, htx⟩
    rcases List.mem_cons.mp ht with rfl | hrest
    · cases htx
    · cases List.mem_singleton.mp hrest
      cases htx
  rcases h _ stoppedLate_reachable 0 (.run 2 .proceed) _ rfl
    ⟨.rbReleasing 0, by simp, rfl⟩ hfreed with hdone | ⟨-, hnone⟩
  · cases hdone
  · exact hnone [.spawn (.locking .query (.user [])), .run 2 .proceed, .run 2 .proceed] _
      (.cons rfl (.cons rfl (.cons rfl (.nil _)))) ⟨3, .query, .user [], true, none⟩ ⟨rfl, rfl⟩

end NzRust.Driver
