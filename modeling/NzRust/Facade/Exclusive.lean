import NzRust.Facade.Control

/-!
# Who holds what in the async facade

One thread at a time holds the connection, and `active` names its operation from
`begin` to the drop of the guard. So a packet is delivered while the operation it
names is the latest to have begun and is not over. `closing` lets at most the one
operation through that has passed its test already, and a connection that is
taken out is never used again.
-/

namespace NzRust.Facade

open Tasks

/-! ## What a task holds -/

/-- The lock of the connection, outside an operation and before the test of `closing`. -/
def Task.idle : Task → Nat
  | .entered | .testing | .leaving _ => 1
  | _ => 0

/-- The same past that test. -/
def Task.passed : Task → Nat
  | .testingClosed | .numbering | .registering _ => 1
  | _ => 0

def Task.generation? : Task → Option Nat
  | .running generation | .finishing generation _ => some generation
  | _ => none

/-- The same with an operation in `active`. -/
def Task.owns (t : Task) : Nat :=
  t.generation?.isSome.toNat

/-- The control lock. -/
def Task.sends : Task → Nat
  | .sending _ => 1
  | _ => 0

/-- A task that has seen the connection, up to the drop of its guard. -/
def Task.uses : Task → Bool
  | .testing | .testingClosed | .numbering | .registering _ | .running _ | .finishing _ _ => true
  | _ => false

/-- The two locks against the tasks that hold them, and how many operations may still begin. -/
structure Locks (s : Shared) (idle passed owns sends : Nat) : Prop where
  inner : idle + passed + owns = s.innerLocked.toNat
  active : owns = s.control.active.isSome.toNat
  control : sends = s.control.activeLocked.toNat
  early : s.control.closing = false → s.late = 0
  late : s.control.closing = true → s.late + passed ≤ 1

/-- What a task may rely on. -/
structure Fits (s : Shared) (t : Task) : Prop where
  own : ∀ generation, t.generation? = some generation → s.control.active = some generation
  present : t.uses = true → s.connection = true
  numbered : ∀ generation, t = .registering generation →
    (∀ earlier ∈ s.begun, earlier < generation) ∧ generation ≤ s.control.nextGeneration

/-- A packet left while its operation was the latest to have begun, and not over. -/
def Packet.Timely (p : Packet) : Prop :=
  p.begun.head? = some p.generation ∧ p.generation ∉ p.finished

structure History (s : Shared) : Prop where
  bounded : ∀ generation ∈ s.begun, generation ≤ s.control.nextGeneration
  overBegun : ∀ generation ∈ s.finished, generation ∈ s.begun
  latest : ∀ generation, s.control.active = some generation →
    s.begun.head? = some generation ∧ generation ∉ s.finished
  packets : ∀ p ∈ s.packets, p.Timely

section Steps

variable {s s' : Shared} {t : Task} {signal : Signal} {ts : List Task}

theorem starts_spec (h : starts t = true) :
    (t.idle = 0 ∧ t.passed = 0 ∧ t.owns = 0 ∧ t.sends = 0) ∧ t.uses = false := by
  cases t with
  | calling | cancelling closes | closing => exact ⟨⟨rfl, rfl, rfl, rfl⟩, rfl⟩
  | _ => cases h

/-- A step of an operation keeps the locks, when `active` names the operation of its guard. -/
theorem operationAct_locks (h : operationAct s t signal = some (s', ts))
    (hown : ∀ generation, t.generation? = some generation → s.control.active = some generation)
    {a b c d : Nat} (hs : Locks s (t.idle + a) (t.passed + b) (t.owns + c) (t.sends + d)) :
    Locks s' (weigh Task.idle ts + a) (weigh Task.passed ts + b) (weigh Task.owns ts + c)
      (weigh Task.sends ts + d) := by
  obtain ⟨hinner, hactive, hcontrol, hearly, hlate⟩ := hs
  have hone : s.innerLocked.toNat ≤ 1 := Bool.toNat_le _
  unfold operationAct at h
  split at h
  case h_1 =>
    split_ifs at h with hlocked hpoisoned
    · cases h
      exact ⟨hinner, hactive, hcontrol, hearly, hlate⟩
    · cases h
      rw [Bool.not_eq_true] at hlocked
      simp only [hlocked, Task.idle, Task.passed, Task.owns, Task.generation?] at hinner
      refine ⟨?_, hactive, hcontrol, hearly, hlate⟩
      simp [Task.idle, Task.passed, Task.owns, Task.generation?] at hinner ⊢
      omega
  case h_2 => split_ifs at h <;> cases h <;> exact ⟨hinner, hactive, hcontrol, hearly, hlate⟩
  case h_3 =>
    split_ifs at h with hclosing
    · cases h
      exact ⟨hinner, hactive, hcontrol, hearly, hlate⟩
    · cases h
      refine ⟨?_, hactive, hcontrol, hearly, fun hset => absurd hset hclosing⟩
      simp [Task.idle, Task.passed, Task.owns, Task.generation?] at hinner ⊢
      omega
  case h_4 =>
    split_ifs at h with hclosed
    · cases h
      refine ⟨?_, hactive, hcontrol, hearly, fun hset => ?_⟩
      · simp [Task.idle, Task.passed, Task.owns, Task.generation?] at hinner ⊢
        omega
      · have hfew := hlate hset
        simp [Task.passed] at hfew ⊢
        omega
    · cases h
      exact ⟨hinner, hactive, hcontrol, hearly, hlate⟩
  case h_5 =>
    cases h
    exact ⟨hinner, hactive, hcontrol, hearly, hlate⟩
  case h_6 generation =>
    split_ifs at h with hlocked
    cases h
    simp [Task.idle, Task.passed, Task.owns, Task.generation?] at hinner hactive hlate
    refine ⟨?_, ?_, hcontrol, fun hset => ?_, fun hset => ?_⟩
    · simp [Task.idle, Task.passed, Task.owns, Task.generation?]
      omega
    · simp [Task.owns, Task.generation?]
      omega
    · simp only at hset
      simp [hset, hearly hset]
    · simp only at hset
      have hfew := hlate hset
      simp [hset, Task.passed]
      omega
  case h_7 =>
    cases h
    exact ⟨hinner, hactive, hcontrol, hearly, hlate⟩
  case h_8 generation panicked =>
    have hsome := hown generation rfl
    split_ifs at h with hlocked
    cases h
    simp [hsome, Task.idle, Task.passed, Task.owns, Task.generation?] at hinner hactive
    refine ⟨?_, ?_, hcontrol, hearly, hlate⟩
    · simp [Task.idle, Task.passed, Task.owns, Task.generation?]
      omega
    · simp [Task.owns, Task.generation?]
      omega
  case h_9 =>
    cases h
    simp [Task.idle, Task.passed, Task.owns, Task.generation?] at hinner hactive
    refine ⟨?_, ?_, hcontrol, hearly, hlate⟩
    · simp
      omega
    · simpa using hactive
  case h_10 => cases h

/-- Neither `cancel` nor `close` touches the lock of the connection for longer than its step. -/
theorem controlAct_locks (h : controlAct s t signal = some (s', ts)) {a b c d : Nat}
    (hs : Locks s (t.idle + a) (t.passed + b) (t.owns + c) (t.sends + d)) :
    Locks s' (weigh Task.idle ts + a) (weigh Task.passed ts + b) (weigh Task.owns ts + c)
      (weigh Task.sends ts + d) := by
  obtain ⟨hinner, hactive, hcontrol, hearly, hlate⟩ := hs
  have hone : s.innerLocked.toNat ≤ 1 := Bool.toNat_le _
  have hfree : s.control.activeLocked.toNat ≤ 1 := Bool.toNat_le _
  unfold controlAct at h
  split at h
  case h_1 =>
    split_ifs at h with hlocked
    cases h
    rw [Bool.not_eq_true] at hlocked
    simp [hlocked, Task.sends] at hcontrol
    refine ⟨hinner, hactive, ?_, hearly, hlate⟩
    simp [Task.sends, Shared.setControl]
    omega
  case h_2 =>
    cases h
    exact ⟨hinner, hactive, hcontrol, hearly, hlate⟩
  case h_3 closes =>
    simp [Task.sends] at hcontrol
    have hunlocked : d = 0 := by omega
    subst hunlocked
    cases hsome : s.control.active with
    | none =>
        rw [hsome] at h
        cases h
        cases closes <;> exact ⟨hinner, hactive, rfl, hearly, hlate⟩
    | some generation =>
        rw [hsome] at h
        cases h
        cases closes <;> exact ⟨hinner, hactive, rfl, hearly, hlate⟩
  case h_4 closes =>
    cases h
    simp [Task.sends] at hcontrol
    have hunlocked : d = 0 := by omega
    subst hunlocked
    cases closes <;> exact ⟨hinner, hactive, rfl, hearly, hlate⟩
  case h_5 =>
    cases h
    exact ⟨hinner, hactive, hcontrol, hearly, hlate⟩
  case h_6 =>
    cases h
    refine ⟨hinner, hactive, hcontrol, nofun, fun _ => ?_⟩
    simp [Task.idle, Task.passed, Task.owns, Task.generation?] at hinner
    have hfew : s.late + b ≤ 1 := by
      cases hset : s.control.closing with
      | false =>
          rw [hearly hset]
          omega
      | true => simpa [Task.passed] using hlate hset
    simpa [Shared.setControl, Task.passed] using hfew
  case h_7 =>
    split_ifs at h <;> cases h <;> exact ⟨hinner, hactive, hcontrol, hearly, hlate⟩
  case h_8 =>
    cases h
    exact ⟨hinner, hactive, hcontrol, hearly, hlate⟩
  case h_9 => cases h

theorem Fits.of_unused (h : t.uses = false) : Fits s t := by
  cases t with
  | calling | entered | leaving | cancelling | sending | closing | closeLocking | closeStoring =>
      exact ⟨nofun, nofun, nofun⟩
  | _ => cases h

theorem Fits.of_same (h : Fits s t) (hactive : s'.control.active = s.control.active)
    (hconnection : s'.connection = s.connection) (hbegun : s'.begun = s.begun)
    (hnext : s.control.nextGeneration ≤ s'.control.nextGeneration) : Fits s' t where
  own generation hgeneration := hactive.trans (h.own generation hgeneration)
  present huses := hconnection.trans (h.present huses)
  numbered generation ht := by
    obtain ⟨hearlier, hle⟩ := h.numbered generation ht
    rw [hbegun]
    exact ⟨hearlier, hle.trans hnext⟩

theorem History.of_same (h : History s) (hactive : s'.control.active = s.control.active)
    (hbegun : s'.begun = s.begun) (hfinished : s'.finished = s.finished)
    (hpackets : ∀ p ∈ s'.packets, p.Timely)
    (hnext : s.control.nextGeneration ≤ s'.control.nextGeneration) : History s' where
  bounded generation hmem := (h.bounded generation (hbegun ▸ hmem)).trans hnext
  overBegun generation hmem := hbegun ▸ h.overBegun generation (hfinished ▸ hmem)
  latest generation hgeneration := by
    rw [hbegun, hfinished]
    exact h.latest generation (hactive.symm.trans hgeneration)
  packets := hpackets

/-- The operation begins, and no other task uses the connection. -/
theorem History.begins (h : History s) {generation : Nat}
    (hearlier : ∀ earlier ∈ s.begun, earlier < generation)
    (hle : generation ≤ s.control.nextGeneration) (hactive : s'.control.active = some generation)
    (hbegun : s'.begun = generation :: s.begun) (hfinished : s'.finished = s.finished)
    (hpackets : s'.packets = s.packets)
    (hnext : s'.control.nextGeneration = s.control.nextGeneration) : History s' where
  bounded g hmem := by
    rw [hnext]
    rw [hbegun, List.mem_cons] at hmem
    rcases hmem with rfl | hold
    · exact hle
    · exact h.bounded g hold
  overBegun g hmem := by
    rw [hbegun]
    exact List.mem_cons_of_mem _ (h.overBegun g (hfinished ▸ hmem))
  latest g hg := by
    obtain rfl := Option.some.inj (hactive.symm.trans hg)
    rw [hbegun, hfinished]
    refine ⟨rfl, fun hmem => ?_⟩
    exact Nat.lt_irrefl _ (hearlier _ (h.overBegun _ hmem))
  packets := by
    rw [hpackets]
    exact h.packets

theorem History.ends (h : History s) {generation : Nat}
    (hactive : s.control.active = some generation) (hnone : s'.control.active = none)
    (hbegun : s'.begun = s.begun) (hfinished : s'.finished = generation :: s.finished)
    (hpackets : s'.packets = s.packets)
    (hnext : s'.control.nextGeneration = s.control.nextGeneration) : History s' where
  bounded g hmem := by
    rw [hnext]
    exact h.bounded g (hbegun ▸ hmem)
  overBegun g hmem := by
    rw [hbegun]
    rw [hfinished, List.mem_cons] at hmem
    rcases hmem with rfl | hold
    · exact List.mem_of_head? (h.latest g hactive).1
    · exact h.overBegun g hold
  latest g hg := by
    rw [hnone] at hg
    cases hg
  packets := by
    rw [hpackets]
    exact h.packets

/-- One step of an operation. Only its holder changes what the others rely on. -/
theorem operationAct_fits (h : operationAct s t signal = some (s', ts)) (ht : Fits s t)
    (hs : History s) : History s' ∧ (∀ u ∈ ts, Fits s' u) ∧
      (t.uses = true ∨ ∀ u, Fits s u → Fits s' u) := by
  have hsame : ∀ u, Fits s u → Fits s u := fun _ hu => hu
  unfold operationAct at h
  split at h
  case h_1 =>
    split_ifs at h
    · cases h
      exact ⟨hs, nofun, .inr hsame⟩
    · cases h
      refine ⟨hs.of_same rfl rfl rfl hs.packets (Nat.le_refl _), ?_, .inr ?_⟩
      · exact List.forall_mem_singleton.mpr (.of_unused rfl)
      · exact fun u hu => hu.of_same rfl rfl rfl (Nat.le_refl _)
  case h_2 =>
    split_ifs at h with hconnection
    · cases h
      refine ⟨hs, List.forall_mem_singleton.mpr ?_, .inr hsame⟩
      exact ⟨nofun, fun _ => hconnection, nofun⟩
    · cases h
      exact ⟨hs, List.forall_mem_singleton.mpr (.of_unused rfl), .inr hsame⟩
  case h_3 =>
    split_ifs at h
    · cases h
      exact ⟨hs, List.forall_mem_singleton.mpr (.of_unused rfl), .inl rfl⟩
    · cases h
      refine ⟨hs, List.forall_mem_singleton.mpr ?_, .inl rfl⟩
      exact ⟨nofun, fun _ => ht.present rfl, nofun⟩
  case h_4 =>
    split_ifs at h
    · cases h
      exact ⟨hs, List.forall_mem_singleton.mpr (.of_unused rfl), .inl rfl⟩
    · cases h
      refine ⟨hs, List.forall_mem_singleton.mpr ?_, .inl rfl⟩
      exact ⟨nofun, fun _ => ht.present rfl, nofun⟩
  case h_5 =>
    cases h
    refine ⟨hs.of_same rfl rfl rfl hs.packets (Nat.le_succ _), ?_, .inl rfl⟩
    refine List.forall_mem_singleton.mpr ⟨nofun, fun _ => ht.present rfl, ?_⟩
    intro generation hgeneration
    cases hgeneration
    exact ⟨fun earlier hmem => Nat.lt_succ_of_le (hs.bounded earlier hmem), Nat.le_refl _⟩
  case h_6 generation =>
    split_ifs at h
    cases h
    obtain ⟨hearlier, hle⟩ := ht.numbered generation rfl
    refine ⟨hs.begins hearlier hle rfl rfl rfl rfl rfl, ?_, .inl rfl⟩
    exact List.forall_mem_singleton.mpr ⟨fun _ hg => hg, fun _ => ht.present rfl, nofun⟩
  case h_7 =>
    cases h
    refine ⟨hs, ?_, .inl rfl⟩
    exact List.forall_mem_singleton.mpr ⟨ht.own, fun _ => ht.present rfl, nofun⟩
  case h_8 generation panicked =>
    have hactive := ht.own generation rfl
    split_ifs at h
    cases h
    refine ⟨hs.ends hactive rfl rfl rfl rfl rfl, ?_, .inl rfl⟩
    exact List.forall_mem_singleton.mpr (.of_unused rfl)
  case h_9 =>
    cases h
    refine ⟨hs.of_same rfl rfl rfl hs.packets (Nat.le_refl _), nofun, .inr ?_⟩
    exact fun u hu => hu.of_same rfl rfl rfl (Nat.le_refl _)
  case h_10 => cases h

theorem afterCancel_fits (closes : Bool) : ∀ u ∈ afterCancel closes, Fits s u := by
  cases closes with
  | false => nofun
  | true => exact List.forall_mem_singleton.mpr (.of_unused rfl)

/-- One step of `cancel` or `close`. The connection is taken out under its lock. -/
theorem controlAct_fits (h : controlAct s t signal = some (s', ts)) (hs : History s) :
    History s' ∧ (∀ u ∈ ts, Fits s' u) ∧
      (t = .closeLocking ∧ s.innerLocked = false ∨ ∀ u, Fits s u → Fits s' u) := by
  unfold controlAct at h
  split at h
  case h_1 =>
    split_ifs at h
    cases h
    refine ⟨hs.of_same rfl rfl rfl hs.packets (Nat.le_refl _), ?_, .inr ?_⟩
    · exact List.forall_mem_singleton.mpr (.of_unused rfl)
    · exact fun u hu => hu.of_same rfl rfl rfl (Nat.le_refl _)
  case h_2 =>
    cases h
    exact ⟨hs, List.forall_mem_singleton.mpr (.of_unused rfl), .inr fun u hu => hu⟩
  case h_3 closes =>
    cases hactive : s.control.active with
    | none =>
        rw [hactive] at h
        cases h
        refine ⟨hs.of_same rfl rfl rfl hs.packets (Nat.le_refl _), afterCancel_fits closes, ?_⟩
        exact .inr fun u hu => hu.of_same rfl rfl rfl (Nat.le_refl _)
    | some generation =>
        rw [hactive] at h
        cases h
        refine ⟨hs.of_same rfl rfl rfl ?_ (Nat.le_refl _), afterCancel_fits closes, ?_⟩
        · exact List.forall_mem_cons.mpr ⟨hs.latest generation hactive, hs.packets⟩
        · exact .inr fun u hu => hu.of_same rfl rfl rfl (Nat.le_refl _)
  case h_4 closes =>
    cases h
    refine ⟨hs.of_same rfl rfl rfl hs.packets (Nat.le_refl _), afterCancel_fits closes, .inr ?_⟩
    exact fun u hu => hu.of_same rfl rfl rfl (Nat.le_refl _)
  case h_5 =>
    cases h
    exact ⟨hs, List.forall_mem_singleton.mpr (.of_unused rfl), .inr fun u hu => hu⟩
  case h_6 =>
    cases h
    refine ⟨hs.of_same rfl rfl rfl hs.packets (Nat.le_refl _), ?_, .inr ?_⟩
    · exact List.forall_mem_singleton.mpr (.of_unused rfl)
    · exact fun u hu => hu.of_same rfl rfl rfl (Nat.le_refl _)
  case h_7 =>
    split_ifs at h with hlocked hpoisoned
    · cases h
      exact ⟨hs, List.forall_mem_singleton.mpr (.of_unused rfl), .inr fun u hu => hu⟩
    · cases h
      refine ⟨hs.of_same rfl rfl rfl hs.packets (Nat.le_refl _), ?_, .inl ?_⟩
      · exact List.forall_mem_singleton.mpr (.of_unused rfl)
      · exact ⟨rfl, Bool.eq_false_iff.mpr hlocked⟩
  case h_8 =>
    cases h
    refine ⟨hs.of_same rfl rfl rfl hs.packets (Nat.le_refl _), nofun, .inr ?_⟩
    exact fun u hu => hu.of_same rfl rfl rfl (Nat.le_refl _)
  case h_9 => cases h

end Steps

/-! ## Every run -/

structure Sound (s : Soup) : Prop where
  locks : Locks s.shared (weigh Task.idle s.tasks) (weigh Task.passed s.tasks)
    (weigh Task.owns s.tasks) (weigh Task.sends s.tasks)
  fits : ∀ t ∈ s.tasks, Fits s.shared t
  history : History s.shared

/-- The lock of the connection. -/
def Task.holds (t : Task) : Nat :=
  t.idle + t.passed + t.owns

theorem Task.holds_of_uses {t : Task} (h : t.uses = true) : t.holds = 1 := by
  cases t with
  | testing | testingClosed | numbering | registering | running | finishing => rfl
  | _ => cases h

theorem weigh_holds (ts : List Task) :
    weigh Task.holds ts = weigh Task.idle ts + weigh Task.passed ts + weigh Task.owns ts := by
  rw [← weigh_add, ← weigh_add]
  rfl

theorem Sound.weigh_holds_eq {s : Soup} (hs : Sound s) :
    weigh Task.holds s.tasks = s.shared.innerLocked.toNat := by
  rw [weigh_holds, hs.locks.inner]

/-- Beside a task that uses the connection there is none that does. -/
theorem Sound.alone {s : Soup} (hs : Sound s) {pre post : List Task} {t u : Task}
    (htasks : s.tasks = pre ++ t :: post) (ht : t.uses = true) (hu : u ∈ pre ++ post) :
    u.uses = false := by
  by_contra huses
  rw [Bool.not_eq_false] at huses
  have hle := le_weigh_of_mem Task.holds hu
  have htotal := hs.weigh_holds_eq
  rw [htasks, weigh_append, weigh_cons, Task.holds_of_uses ht] at htotal
  rw [weigh_append, Task.holds_of_uses huses] at hle
  have hone : s.shared.innerLocked.toNat ≤ 1 := Bool.toNat_le _
  omega

theorem Sound.unused {s : Soup} (hs : Sound s) (hfree : s.shared.innerLocked = false) {u : Task}
    (hu : u ∈ s.tasks) : u.uses = false := by
  by_contra huses
  rw [Bool.not_eq_false] at huses
  have hle := le_weigh_of_mem Task.holds hu
  rw [hs.weigh_holds_eq, hfree, Task.holds_of_uses huses] at hle
  exact absurd hle (by decide)

theorem act_cases {s s' : Shared} {t : Task} {signal : Signal} {ts : List Task}
    (h : act s t signal = some (s', ts)) :
    operationAct s t signal = some (s', ts) ∨ controlAct s t signal = some (s', ts) := by
  cases t with
  | cancelling | sending | closing | closeLocking | closeStoring => exact .inr h
  | _ => exact .inl h

theorem weigh_split (weight : Task → Nat) {tasks pre post : List Task} {t : Task}
    (h : tasks = pre ++ t :: post) :
    weigh weight tasks = weight t + (weigh weight pre + weigh weight post) := by
  rw [h, weigh_append, weigh_cons, Nat.add_left_comm]

theorem act_locks {s s' : Shared} {t : Task} {signal : Signal} {ts pre post : List Task}
    (h : act s t signal = some (s', ts)) (ht : Fits s t)
    (hs : Locks s (weigh Task.idle (pre ++ t :: post)) (weigh Task.passed (pre ++ t :: post))
      (weigh Task.owns (pre ++ t :: post)) (weigh Task.sends (pre ++ t :: post))) :
    Locks s' (weigh Task.idle (pre ++ (ts ++ post))) (weigh Task.passed (pre ++ (ts ++ post)))
      (weigh Task.owns (pre ++ (ts ++ post))) (weigh Task.sends (pre ++ (ts ++ post))) := by
  rw [weigh_split Task.idle rfl, weigh_split Task.passed rfl, weigh_split Task.owns rfl,
    weigh_split Task.sends rfl] at hs
  rw [weigh_middle, weigh_middle, weigh_middle, weigh_middle]
  rcases act_cases h with hoperation | hcontrol
  · exact operationAct_locks hoperation ht.own hs
  · exact controlAct_locks hcontrol hs

theorem sound_step {s s' : Soup} {a : Move} (hs : Sound s) (hstep : program.step s a = some s') :
    Sound s' := by
  cases a with
  | spawn t =>
      obtain ⟨hstart, rfl⟩ := Program.step_spawn hstep
      obtain ⟨hbare, hunused⟩ := starts_spec hstart
      refine ⟨?_, ?_, hs.history⟩
      · have hzero : ∀ weight : Task → Nat, weight t = 0 →
            weigh weight (s.tasks ++ [t]) = weigh weight s.tasks := by
          intro weight hweight
          rw [weigh_append, weigh_cons, hweight, weigh_nil]
          rfl
        rw [hzero _ hbare.1, hzero _ hbare.2.1, hzero _ hbare.2.2.1, hzero _ hbare.2.2.2]
        exact hs.locks
      · intro u hu
        rcases List.mem_append.mp hu with hold | hnew
        · exact hs.fits u hold
        · obtain rfl := List.mem_singleton.mp hnew
          exact .of_unused hunused
  | run i signal =>
      obtain ⟨pre, t, post, shared, ts, htasks, hget, hact, rfl⟩ := Program.step_run hstep
      have ht := hs.fits t (List.mem_of_getElem? hget)
      have hothers : ∀ u ∈ pre ++ post, Fits s.shared u := by
        intro u hu
        apply hs.fits
        rw [htasks]
        exact List.mem_append.mpr ((List.mem_append.mp hu).imp id (List.mem_cons_of_mem _))
      obtain ⟨hhistory, hnew, hkept⟩ : History shared ∧ (∀ u ∈ ts, Fits shared u) ∧
          ∀ u ∈ pre ++ post, Fits shared u := by
        rcases act_cases hact with hoperation | hcontrol
        · obtain ⟨hhistory, hnew, huses | hall⟩ := operationAct_fits hoperation ht hs.history
          · exact ⟨hhistory, hnew, fun u hu => .of_unused (hs.alone htasks huses hu)⟩
          · exact ⟨hhistory, hnew, fun u hu => hall u (hothers u hu)⟩
        · obtain ⟨hhistory, hnew, ⟨-, hfree⟩ | hall⟩ := controlAct_fits hcontrol hs.history
          · refine ⟨hhistory, hnew, fun u hu => .of_unused (hs.unused hfree ?_)⟩
            rw [htasks]
            exact List.mem_append.mpr ((List.mem_append.mp hu).imp id (List.mem_cons_of_mem _))
          · exact ⟨hhistory, hnew, fun u hu => hall u (hothers u hu)⟩
      refine ⟨act_locks hact ht (htasks ▸ hs.locks), ?_, hhistory⟩
      intro u hu
      rcases List.mem_append.mp hu with hpre | hrest
      · exact hkept u (List.mem_append_left _ hpre)
      · rcases List.mem_append.mp hrest with hts | hpost
        · exact hnew u hts
        · exact hkept u (List.mem_append_right _ hpost)

theorem sound_start : Sound ⟨{}, []⟩ where
  locks := ⟨rfl, rfl, rfl, fun _ => rfl, nofun⟩
  fits := nofun
  history := ⟨nofun, nofun, nofun, nofun⟩

theorem sound_of_reachable {s : Soup} (h : facade.Reachable s) : Sound s := by
  refine h.invariant ?_ ?_
  · rintro s rfl
    exact sound_start
  · intro s a s' hs hstep
    exact sound_step hs hstep

theorem length_generations (ts : List Task) :
    (ts.filterMap Task.generation?).length = weigh Task.owns ts := by
  induction ts with
  | nil => rfl
  | cons t ts ih =>
      rw [weigh_cons, ← ih, Task.owns]
      cases hgeneration : t.generation? with
      | none =>
          rw [List.filterMap_cons_none hgeneration]
          exact (Nat.zero_add _).symm
      | some generation =>
          rw [List.filterMap_cons_some hgeneration, List.length_cons, Nat.add_comm]
          rfl

/-- A call has passed both tests when `close` sets its flag; it begins all the same, and the packet
of `close` names it. -/
def overtakenMoves : List Move :=
  [.spawn .calling, .run 0 .proceed, .run 0 .proceed, .run 0 .proceed, .run 0 .proceed,
    .spawn .closing, .run 1 .proceed, .run 0 .proceed, .run 0 .proceed, .run 1 .proceed,
    .run 1 .proceed]

def overtaken : Soup where
  shared := {
    control := { active := some 1, nextGeneration := 1, closing := true }
    innerLocked := true
    begun := [1]
    late := 1
    packets := [⟨1, [1], []⟩] }
  tasks := [.running 1, .closeLocking]

theorem facade_run {moves : List Move} {s s' : Soup}
    (h : Transition.System.follow program.step s moves = some s') : facade.Run s moves s' :=
  Transition.System.Run.of_follow (fun _ _ _ hstep => hstep) h

theorem overtaken_reachable : facade.Reachable overtaken := by
  have hrun : facade.Run ⟨{}, []⟩ overtakenMoves overtaken := facade_run rfl
  exact hrun.reachable (.start rfl)

/-- Without the connection no operation begins. -/
theorem act_gone {s s' : Shared} {t : Task} {signal : Signal} {ts : List Task}
    (h : act s t signal = some (s', ts)) (ht : Fits s t) (hgone : s.connection = false) :
    s'.connection = false ∧ s'.begun = s.begun := by
  rcases act_cases h with hoperation | hcontrol
  · unfold operationAct at hoperation
    split at hoperation
    case h_6 =>
      -- `begin` runs under the lock of the connection and after the look for it
      have hpresent := ht.present rfl
      rw [hgone] at hpresent
      cases hpresent
    case h_5 | h_7 | h_9 =>
      cases hoperation
      exact ⟨hgone, rfl⟩
    case h_10 => cases hoperation
    all_goals
      split_ifs at hoperation <;> cases hoperation <;> exact ⟨hgone, rfl⟩
  · unfold controlAct at hcontrol
    split at hcontrol
    case h_3 =>
      cases hactive : s.control.active <;> rw [hactive] at hcontrol <;> cases hcontrol <;>
        exact ⟨hgone, rfl⟩
    case h_7 =>
      split_ifs at hcontrol with hlocked hpoisoned
      · cases hcontrol
        exact ⟨hgone, rfl⟩
      · cases hcontrol
        exact ⟨rfl, rfl⟩
    case h_1 =>
      split_ifs at hcontrol
      cases hcontrol
      exact ⟨hgone, rfl⟩
    case h_9 => cases hcontrol
    all_goals
      cases hcontrol
      exact ⟨hgone, rfl⟩

theorem step_gone {s s' : Soup} {a : Move} (hs : Sound s) (hstep : program.step s a = some s')
    (hgone : s.shared.connection = false) :
    s'.shared.connection = false ∧ s'.shared.begun = s.shared.begun := by
  cases a with
  | spawn t =>
      obtain ⟨-, rfl⟩ := Program.step_spawn hstep
      exact ⟨hgone, rfl⟩
  | run i signal =>
      obtain ⟨pre, t, post, shared, ts, -, hget, hact, rfl⟩ := Program.step_run hstep
      exact act_gone hact (hs.fits t (List.mem_of_getElem? hget)) hgone

theorem run_gone {s s' : Soup} {moves : List Move} (hrun : facade.Run s moves s') (hs : Sound s)
    (hgone : s.shared.connection = false) : s'.shared.begun = s.shared.begun := by
  induction hrun with
  | nil => rfl
  | cons hstep _ ih =>
      obtain ⟨hstill, hbegun⟩ := step_gone hs hstep hgone
      exact (ih (sound_step hs hstep) hstill).trans hbegun

/-- Once `closing` is set at most one operation begins, and none once the connection is taken
out. -/
theorem close_is_final {s s' : Soup} {moves : List Move} (h : facade.Reachable s)
    (hrun : facade.Run s moves s') :
    s.shared.late ≤ 1 ∧ (s.shared.connection = false → s'.shared.begun = s.shared.begun) := by
  have hs := sound_of_reachable h
  refine ⟨?_, run_gone hrun hs⟩
  cases hclosing : s.shared.control.closing with
  | false =>
      rw [hs.locks.early hclosing]
      exact Nat.zero_le 1
  | true => exact (Nat.le_add_right _ _).trans (hs.locks.late hclosing)

/-- The call is over, and `close` has taken the connection out. -/
def takenOut : Soup where
  shared := {
    control := { nextGeneration := 1, closing := true }
    connection := false
    begun := [1]
    finished := [1]
    late := 1
    packets := [⟨1, [1], []⟩] }
  tasks := [.closeStoring]

theorem takenOut_reachable : facade.Reachable takenOut := by
  have hrun : facade.Run overtaken
      [.run 0 (.ends false), .run 0 .proceed, .run 0 .proceed, .run 0 .proceed] takenOut :=
    facade_run rfl
  exact hrun.reachable overtaken_reachable

/-- The next call comes before `closed` is set. -/
def turnedAway : Soup where
  shared := { takenOut.shared with
    control := { takenOut.shared.control with closed := true }
    innerLocked := true }
  tasks := [.leaving false]

theorem takenOut_is_final :
    takenOut.shared.late ≤ 1 ∧
      (takenOut.shared.connection = false → turnedAway.shared.begun = takenOut.shared.begun) := by
  have hrun : facade.Run takenOut
      [.spawn .calling, .run 1 .proceed, .run 1 .proceed, .run 0 .proceed] turnedAway :=
    facade_run rfl
  exact close_is_final takenOut_reachable hrun

end NzRust.Facade
