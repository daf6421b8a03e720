import NzRust.Pool.Async

/-!
# The books of the async pool

What a task of the pool holds: a registered reservation, a connection taken
from the idle list, a permit, a client handle. One lemma says what a step does
to all of them; the bookkeeping of `total`, the capacity and the end of
checkouts after a close are read off from it for every run.
-/

namespace NzRust

open Tasks

namespace Pool

variable {Client : Type}

/-! ## What a task holds -/

/-- A registered reservation. -/
def Task.registered : Task Client → Nat
  | .connecting | .connected _ _ | .granted _ | .leased _ | .finishing _ | .rollingBack _
  | .settling _ _ | .closing _ | .dropping true _ => 1
  | _ => 0

/-- A connection taken from the idle list and neither handed out nor retired. -/
def Task.taken : Task Client → Nat
  | .judging _ | .probing _ | .retiring _ _ => 1
  | _ => 0

/-- A client handle: probed, retired, being established, leased, or swept by `end`. -/
def Task.handles : Task Client → Nat
  | .judging _ | .probing _ | .retiring _ _ | .connecting | .connected _ _ | .granted _
  | .leased _ | .finishing _ | .rollingBack _ | .settling _ _ | .closing _ => 1
  | .closingIdle idle => idle.length
  | _ => 0

/-- A permit with a handle behind it, or one whose task has decided to open a connection. -/
def Task.occupied : Task Client → Nat
  | .judging _ | .probing _ | .retiring _ _ | .opening | .connecting | .connected _ _
  | .granted _ | .leased _ | .finishing _ | .rollingBack _ | .settling _ _ | .closing _ => 1
  | _ => 0

/-- A permit with nothing behind it. -/
def Task.spare : Task Client → Nat
  | .looking | .retired _ | .dropping _ _ | .yielding _ => 1
  | _ => 0

/-- The handles that `end` has swept and not closed yet. -/
def Task.swept : Task Client → Nat
  | .closingIdle idle => idle.length
  | _ => 0

/-- An `acquire` past its last test of `closed`. -/
def Task.committed : Task Client → Nat
  | .judging _ | .probing _ | .granted _ => 1
  | _ => 0

/-- What a task is about to subtract from `total`. -/
def Task.deducts (s : Shared Client) : Task Client → Nat
  | .retiring _ _ | .dropping true _ => 1
  | .sweeping _ => s.state.idle.length
  | _ => 0

/-- An `end` or the drop of the pool. -/
def Task.shutsDown : Task Client → Bool
  | .ending _ | .sweeping _ | .closingIdle _ => true
  | _ => false

/-- What counts in `total` besides the idle entries. -/
def Task.booked (t : Task Client) : Nat :=
  t.registered + t.taken

/-- The future is dropped while it probes the connection it has popped. -/
def leaks : Task Client → Signal Client → Bool
  | .probing _, .abandoned _ => true
  | _, _ => false

/-- The lock section that closes the pool. -/
def closes : Task Client → Signal Client → Bool
  | .sweeping _, .proceed => true
  | _, _ => false

theorem Task.handles_le (t : Task Client) : t.handles ≤ t.occupied + t.swept := by
  cases t <;> simp [handles, occupied, swept]

/-- Permits behind a handle, permits with nothing behind them, swept handles. -/
def Task.held (t : Task Client) : Nat × Nat × Nat :=
  (t.occupied, t.spare, t.swept)

/-- A task that has just been started holds nothing. -/
theorem starts_empty {t : Task Client} (h : starts t = true) :
    t.booked = 0 ∧ t.held = 0 ∧ t.committed = 0 := by
  cases t with
  | waiting => exact ⟨rfl, rfl, rfl⟩
  | ending byDrop => exact ⟨rfl, rfl, rfl⟩
  | _ => cases h

/-! ## One step -/

variable {config : AsyncNzPoolConfig} {s s' : Shared Client} {t : Task Client}
  {signal : Signal Client} {ts : List (Task Client)}

/-- What one task does to the books: `total` follows what is booked unless a
popped connection is dropped, permits are kept, handles are added only against
an idle list seen empty in an open pool, and no lease is promised once the pool
is closed. -/
structure Accounts (s : Shared Client) (t : Task Client) (signal : Signal Client)
    (s' : Shared Client) (ts : List (Task Client)) : Prop where
  total : leaks t signal = false → ∀ rest,
    s.state.total = s.state.idle.length + (t.booked + rest) →
      s'.state.total = s'.state.idle.length + (weigh Task.booked ts + rest)
  permits : s'.permits + weigh Task.occupied ts + weigh Task.spare ts =
    s.permits + t.occupied + t.spare
  handles : s'.state.idle.length + weigh Task.occupied ts + weigh Task.swept ts ≤
      s.state.idle.length + t.occupied + t.swept ∨
    s.state.closed = false ∧ s'.state.idle = [] ∧ t.swept = 0 ∧ weigh Task.swept ts = 0
  swept : s'.state.closed = false → s.state.closed = false ∧ weigh Task.swept ts ≤ t.swept
  committed : s'.state.closed = true →
    closes t signal = true ∧ weigh Task.committed ts = 0 ∨
      s.state.closed = true ∧ weigh Task.committed ts ≤ t.committed

theorem weigh_rejected (weight : Task Client → Nat) (outcome : Option NzError)
    (hzero : ∀ e, weight (.rejected e) = 0) :
    weigh weight (outcome.toList.map .rejected) = 0 := by
  cases outcome with
  | none => rfl
  | some e => simp [hzero]

/-- The errors that `get` returns weigh nothing. -/
@[simp] theorem weigh_outcome (outcome : Option NzError) :
    weigh Task.booked (outcome.toList.map (Task.rejected : NzError → Task Client)) = 0 ∧
      weigh Task.occupied (outcome.toList.map (Task.rejected : NzError → Task Client)) = 0 ∧
      weigh Task.spare (outcome.toList.map (Task.rejected : NzError → Task Client)) = 0 ∧
      weigh Task.swept (outcome.toList.map (Task.rejected : NzError → Task Client)) = 0 ∧
      weigh Task.committed (outcome.toList.map (Task.rejected : NzError → Task Client)) = 0 := by
  refine ⟨?_, ?_, ?_, ?_, ?_⟩ <;> exact weigh_rejected _ outcome fun _ => rfl

/-- The successors of a step, one transition at a time. -/
theorem act_accounts (h : act config s t signal = some (s', ts)) : Accounts s t signal s' ts := by
  unfold act giveBack shutDown acquire at h
  repeat' split at h
  all_goals first
    | cases h; done
    | obtain ⟨rfl, rfl⟩ := Prod.mk.inj (Option.some.inj h)
  -- What is left is a goal for each transition and field, over a fixed task and its successors.
  all_goals constructor <;>
    simp [Task.booked, Task.registered, Task.taken, Task.occupied, Task.spare, Task.swept,
      Task.committed, leaks, closes, Shared.deduct] <;>
    grind [List.getLast?_eq_none_iff]

/-! ## Every run -/

/-- The checked-out pool, with the tasks that run over it. -/
abbrev Soup (Client : Type) : Type :=
  Tasks.Soup (Shared Client) (Task Client)

abbrev Move (Client : Type) : Type :=
  Action (Task Client) (Signal Client)

/-- The step does not drop an `acquire` that probes a popped connection. -/
def keepsPopped (s : Soup Client) : Move Client → Bool
  | .spawn _ => true
  | .run i signal => s.tasks[i]?.all fun t => !leaks t signal

/-- The step does not close the pool over an `acquire` past its last test of `closed`. -/
def closesIdleOnly (s : Soup Client) : Move Client → Bool
  | .spawn _ => true
  | .run i signal =>
      s.tasks[i]?.all fun t => !closes t signal || s.tasks.all fun t => t.committed == 0

/-- A `get` returns `Ok` with its lease in this step. -/
def ReturnsOk (s : Soup Client) (a : Move Client) : Prop :=
  ∃ i lease, a = .run i .proceed ∧ s.tasks[i]? = some (.granted lease)

/-- `total` is the idle entries, the registered reservations and the taken connections. -/
def Booked (s : Soup Client) : Prop :=
  s.shared.state.total = s.shared.state.idle.length +
    (weigh Task.registered s.tasks + weigh Task.taken s.tasks)

/-- The handles of the pool: its idle entries and those its tasks hold. -/
def handleCount (s : Soup Client) : Nat :=
  s.shared.state.idle.length + weigh Task.handles s.tasks

theorem weigh_booked (ts : List (Task Client)) :
    weigh Task.booked ts = weigh Task.registered ts + weigh Task.taken ts :=
  weigh_add Task.registered Task.taken ts

theorem new_eq {config : AsyncNzPoolConfig} {s : Soup Client} (h : new config = .ok s) :
    s = ⟨{ permits := config.max }, []⟩ := by
  unfold new at h
  split at h
  · cases h
  · exact (Except.ok.inj h).symm

theorem booked_step {s s' : Soup Client} {a : Move Client}
    (hstep : (program config).step s a = some s') (hkept : keepsPopped s a = true)
    (hs : Booked s) : Booked s' := by
  unfold Booked at hs ⊢
  rw [← weigh_booked] at hs ⊢
  refine Program.step_weighed Task.booked
    (I := fun shared n => shared.state.total = shared.state.idle.length + n) hstep ?_ ?_ hs
  · intro t _ hstart hs
    rw [(starts_empty hstart).1, Nat.zero_add]
    exact hs
  · intro i signal t shared ts rest ha hget _ hact hs
    subst ha
    have hleak : leaks t signal = false := by
      simpa [keepsPopped, hget] using hkept
    exact (act_accounts hact).total hleak rest hs

/-- Every permit is free or held, and what is idle, swept or behind a permit stays within
`max`. Nothing is swept while the pool is open. -/
def Fits (max : Nat) (shared : Shared Client) (held : Nat × Nat × Nat) : Prop :=
  shared.permits + held.1 + held.2.1 = max ∧
    shared.state.idle.length + held.1 + held.2.2 ≤ max ∧
    (shared.state.closed = false → held.2.2 = 0)

theorem weigh_held (ts : List (Task Client)) :
    weigh Task.held ts = (weigh Task.occupied ts, weigh Task.spare ts, weigh Task.swept ts) := by
  unfold Task.held
  rw [weigh_pair, weigh_pair]

theorem Accounts.fits {max : Nat} {rest : Nat × Nat × Nat} (h : Accounts s t signal s' ts)
    (hs : Fits max s (t.held + rest)) : Fits max s' (weigh Task.held ts + rest) := by
  obtain ⟨occupied, spare, swept⟩ := rest
  obtain ⟨hpermits, hfit, hopen⟩ := hs
  rw [weigh_held]
  simp only [Fits, Task.held, Prod.mk_add_mk] at hpermits hfit hopen ⊢
  have hkept := h.permits
  refine ⟨by omega, ?_, ?_⟩
  · rcases h.handles with hle | ⟨hclosed, hidle, hnone, hzero⟩
    · omega
    · -- The idle list was seen empty in an open pool: the permits alone bound the handles.
      have hswept := hopen hclosed
      rw [hidle, List.length_nil]
      omega
  · intro hclosed
    have hbefore := h.swept hclosed
    have hswept := hopen hbefore.1
    omega

theorem fits_step {max : Nat} {s s' : Soup Client} {a : Move Client}
    (hstep : (program config).step s a = some s')
    (hs : Fits max s.shared (weigh Task.held s.tasks)) :
    Fits max s'.shared (weigh Task.held s'.tasks) := by
  refine Program.step_weighed Task.held hstep ?_ ?_ hs
  · intro t _ hstart hs
    rw [(starts_empty hstart).2.1, zero_add]
    exact hs
  · intro i signal t shared ts rest _ _ _ hact hs
    exact (act_accounts hact).fits hs

theorem uncommitted_step {s s' : Soup Client} {a : Move Client}
    (hstep : (program config).step s a = some s') (hidle : closesIdleOnly s a = true)
    (hs : s.shared.state.closed = true → weigh Task.committed s.tasks = 0) :
    s'.shared.state.closed = true → weigh Task.committed s'.tasks = 0 := by
  refine Program.step_weighed Task.committed
    (I := fun shared n => shared.state.closed = true → n = 0) hstep ?_ ?_ hs
  · intro t _ hstart hs hclosed
    rw [(starts_empty hstart).2.2, Nat.zero_add]
    exact hs hclosed
  · intro i signal t shared ts rest ha hget hsplit hact hs hclosed
    subst ha
    rcases (act_accounts hact).committed hclosed with ⟨hcloses, hnone⟩ | ⟨hbefore, hle⟩
    · have hall : ∀ t ∈ s.tasks, t.committed = 0 := by
        simpa [closesIdleOnly, hget, hcloses] using hidle
      have hzero := (weigh_eq_zero_iff Task.committed s.tasks).mpr hall
      omega
    · have hzero := hs hbefore
      omega

theorem booked_of_reachable {s : Soup Client}
    (h : ((pool Client config).guarded fun s a => keepsPopped s a = true).Reachable s) :
    Booked s := by
  refine h.invariant ?_ ?_
  · intro s hs
    cases new_eq hs
    rfl
  · intro s a s' hs hstep
    exact booked_step hstep.2 hstep.1 hs

/-! ## Results -/

/-- One connection opened, leased, rolled back and put on the idle list. -/
def firstCheckout : List (Move Unit) :=
  [.spawn .waiting, .run 0 .proceed, .run 0 .proceed, .run 0 .proceed,
    .run 0 (.established () 0), .run 0 .proceed, .run 0 .proceed, .run 0 (.givenBack true),
    .run 0 (.observed 4 false), .run 0 (.answered true), .run 0 (.observed 5 false),
    .run 0 .proceed, .run 0 .proceed]

/-- A second `get` that has popped that connection and probes it. -/
def secondProbe : List (Move Unit) :=
  [.spawn .waiting, .run 0 .proceed, .run 0 .proceed, .run 0 (.observed 6 false)]

theorem exec_pool (config : AsyncNzPoolConfig) (ok : Soup Client → Move Client → Bool)
    (as : List (Move Client)) (s' : Soup Client) {s : Soup Client} (hs : new config = .ok s)
    (h : (program config).exec ok s as = some s') :
    ((pool Client config).guarded fun s a => ok s a = true).Reachable s' :=
  Program.exec_reachable (.start hs) h

/-- In every run the pool owns at most `max` handles. -/
theorem handles_within_max (s : Soup Client) (h : (pool Client config).Reachable s) :
    handleCount s ≤ config.max := by
  have hfits : Fits config.max s.shared (weigh Task.held s.tasks) := by
    refine h.invariant (P := fun s => Fits config.max s.shared (weigh Task.held s.tasks)) ?_ ?_
    · intro s hs
      cases new_eq hs
      exact ⟨rfl, Nat.zero_le _, fun _ => rfl⟩
    · intro s a s' hs hstep
      exact fits_step hstep hs
  have hle := weigh_le_weigh Task.handles_le s.tasks
  rw [weigh_add] at hle
  rw [weigh_held] at hfits
  have hfit := hfits.2.1
  simp only at hfit
  unfold handleCount
  omega

/-- A pool of one connection that is leased owns one handle. -/
theorem leased_within_max :
    ∃ s : Soup Unit, (pool Unit { max := 1 }).Reachable s ∧ handleCount s = 1 ∧
      handleCount s ≤ 1 := by
  have hreach := exec_pool { max := 1 } (fun _ _ => true) (firstCheckout.take 7)
    ⟨⟨{ total := 1 }, 0, false⟩, [.leased ⟨(), 1, 0⟩]⟩ rfl rfl
  exact ⟨_, hreach.of_guarded, rfl, handles_within_max _ hreach.of_guarded⟩

/-- In every run that closes the pool over no `acquire` past its last test, no
`get` returns a lease of a closed pool. -/
theorem no_checkout_after_close (s : Soup Client)
    (h : ((pool Client config).guarded fun s a => closesIdleOnly s a = true).Reachable s)
    (hclosed : s.shared.state.closed = true) (a : Move Client) : ¬ ReturnsOk s a := by
  have hnone : s.shared.state.closed = true → weigh Task.committed s.tasks = 0 := by
    refine h.invariant (P := fun s => s.shared.state.closed = true →
      weigh Task.committed s.tasks = 0) ?_ ?_
    · intro s hs
      cases new_eq hs
      exact fun _ => rfl
    · intro s a s' hs hstep
      exact uncommitted_step hstep.2 hstep.1 hs
  rintro ⟨i, lease, rfl, hget⟩
  have hzero := (weigh_eq_zero_iff Task.committed s.tasks).mp (hnone hclosed) _
    (List.mem_of_getElem? hget)
  cases hzero

/-- A pool that is closed with its connection idle hands out nothing more. -/
theorem idle_close_checks_out_nothing :
    ∃ s : Soup Unit,
      ((pool Unit {}).guarded fun s a => closesIdleOnly s a = true).Reachable s ∧
        s.shared.state.closed = true ∧ ¬ ReturnsOk s (.run 0 .proceed) := by
  have hreach := exec_pool {} closesIdleOnly
    (firstCheckout ++ [.spawn (.ending false), .run 0 .proceed, .run 0 .proceed])
    ⟨⟨{ closed := true }, 10, true⟩, [.closingIdle [⟨(), 5, 1, 0⟩]]⟩ rfl rfl
  exact ⟨_, hreach, rfl, no_checkout_after_close _ hreach rfl _⟩

/-- A probe that answers after `end` has swept the pool still turns into a lease. -/
theorem late_probe_checks_out :
    ¬ ∀ s : Soup Unit, (pool Unit {}).Reachable s → s.shared.state.closed = true →
      ∀ a, ¬ ReturnsOk s a := by
  intro h
  have hreach := exec_pool {} (fun _ _ => true)
    (firstCheckout ++ secondProbe ++
      [.spawn (.ending false), .run 1 .proceed, .run 1 .proceed, .run 0 (.answered true)])
    ⟨⟨{ total := 1, closed := true }, 9, true⟩, [.granted ⟨(), 2, 0⟩, .closingIdle []]⟩ rfl rfl
  exact h _ hreach.of_guarded rfl (.run 0 .proceed) ⟨0, _, rfl, rfl⟩

end Pool

end NzRust
