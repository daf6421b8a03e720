import NzRust.Driver.Session

/-!
# Cancel generations

`Control` at the grain of its atomics. A request is numbered, its number is
published in `active`, and the consumer is looked at, in three steps; a cancel
loads `active` and raises `cancelled` in two. What a request asks for and what
the backend does are left to the signals. The waits of the parser that watch for
an interruption load `active` by themselves.

The history beside the state is only looked at by the proofs: what the cancels
have loaded, whose deadline has passed, whose consumer has gone, and what came
of it.
-/

namespace NzRust.Driver.Generations

open Tasks

/-- Why the first `select!` of `drive_operation` left the operation. -/
inductive Cause where
  | deadline
  | control
  | consumer
  deriving DecidableEq, Repr

inductive Phase where
  /-- At the top of the loop, before the test of `closing`. -/
  | testing
  /-- `closing` was not set; the queue is polled next. -/
  | tested
  /-- `next` has been raised, `active` is stored next. -/
  | numbered (kind : Kind) (generation : Nat)
  /-- `active` is stored; a probe begins, or the consumer is looked at. -/
  | published (kind : Kind) (generation : Nat)
  /-- The consumer has gone; `active` is reset next. -/
  | skipping
  | probing
  /-- The first `select!` of `drive_operation`. -/
  | racing (generation : Nat)
  /-- In its interrupted branch, before `cancelled` is raised. -/
  | raising (generation : Nat)
  /-- At `cancel_backend(..).await`. -/
  | cancelling (generation : Nat)
  /-- The operation is driven on to its end. -/
  | draining (generation : Nat)
  /-- The request is over; `active` is reset next. -/
  | resetting (reusable : Bool)
  | stopping
  | exited

/-- The request that is on. -/
def Phase.generation : Phase → Option Nat
  | .numbered _ g | .published _ g | .racing g | .raising g | .cancelling g | .draining g => some g
  | _ => none

/-- The operation whose future exists and is not over. -/
def Phase.operation : Phase → Option Nat
  | .racing g | .raising g | .cancelling g | .draining g => some g
  | _ => none

structure History where
  /-- What the cancel calls have read from `active`. -/
  loads : List Nat := []
  deadlines : List Nat := []
  departures : List Nat := []
  /-- The interrupted branches taken, and the packets sent in them. -/
  branches : List (Nat × Cause) := []
  packets : List Nat := []
  /-- Waits that returned early: the operation, and what the wait had read from `active`. -/
  early : List (Nat × Nat) := []

structure Shared where
  control : Control := {}
  phase : Phase := .testing
  /-- The consumer of the request that is on has gone. -/
  gone : Bool := false
  /-- The deadline of the operation that is on has passed. -/
  expired : Bool := false
  /-- A wait inside the parser, with what it has read from `active`. -/
  wait : Option Nat := none
  history : History := {}

inductive Task where
  | driver
  /-- `Control::cancel`, before and after it has loaded `active`. -/
  | cancelling
  | cancelLoaded (generation : Nat)
  /-- `Client::close` or `Client::stop`. -/
  | closing
  /-- A consumer that goes away, and a deadline that passes. -/
  | departing
  | expiring

inductive Signal where
  | proceed
  /-- The next request of the queue, whose consumer may have gone already. -/
  | take (kind : Kind) (gone : Bool)
  | interrupt (cause : Cause)
  /-- The parser begins a wait, and the wait ends early or otherwise. -/
  | wait
  | early
  | done
  /-- The operation fails, or no packet could be sent. -/
  | lost
  /-- The 5 s of the cleanup are over, with or without the packet sent. -/
  | timeout (sent : Bool)

/-- `interrupted(generation)` returns. -/
def interrupted (control : Control) (generation : Nat) : Bool :=
  control.closing || control.cancelled == generation

/-- The three branches of the `select!` beside the operation itself. -/
def Shared.ready (s : Shared) (generation : Nat) : Cause → Bool
  | .deadline => s.expired
  | .control => interrupted s.control generation
  | .consumer => s.gone

def Shared.setActive (s : Shared) (generation : Nat) : Shared :=
  { s with control := { s.control with active := generation } }

def Shared.send (s : Shared) (generation : Nat) : Shared :=
  { s with history := { s.history with packets := generation :: s.history.packets } }

/-- The waits of the parser while the future is polled. -/
def waitAct (s : Shared) (generation : Nat) : Signal → Option Shared
  | .wait => if s.wait.isNone then some { s with wait := some s.control.active } else none
  | .early =>
      match s.wait with
      | none => none
      | some read =>
          if interrupted s.control read then
            some { s with
              wait := none
              history := { s.history with early := (generation, read) :: s.history.early } }
          else none
  | .done => if s.wait.isSome then some { s with wait := none } else none
  | _ => none

/-- `drive_operation`. -/
def operationAct (s : Shared) : Phase → Signal → Option Shared
  | .racing _, .proceed =>
      if s.wait.isNone then some { s with phase := .resetting true } else none
  | .racing _, .lost => some { s with phase := .resetting false, wait := none }
  | .racing g, .interrupt cause =>
      if s.ready g cause then
        some { s with
          phase := .raising g
          history := { s.history with branches := (g, cause) :: s.history.branches } }
      else none
  | .raising g, .proceed =>
      some { s with
        phase := .cancelling g
        control := { s.control with cancelled := max s.control.cancelled g } }
  | .cancelling g, .proceed => some { s.send g with phase := .draining g }
  | .cancelling g, .lost => some { s with phase := .draining g }
  | .cancelling g, .timeout sent =>
      some { (if sent then s.send g else s) with phase := .resetting false, wait := none }
  | .draining _, .proceed =>
      if s.wait.isNone then some { s with phase := .resetting true } else none
  | .draining _, .lost => some { s with phase := .resetting false, wait := none }
  | .draining _, .timeout _ => some { s with phase := .resetting false, wait := none }
  | .racing g, signal => waitAct s g signal
  | .draining g, signal => waitAct s g signal
  | _, _ => none

/-- The largest generation there is, which the idle driver waits with. -/
def idleGeneration : Nat := 2 ^ 64 - 1

/-- `run_connection`. -/
def driverAct (s : Shared) (signal : Signal) : Option Shared :=
  match s.phase, signal with
  | .testing, .proceed =>
      if interrupted s.control idleGeneration then some { s with phase := .stopping }
      else some { s with phase := .tested }
  | .tested, .proceed => some { s with phase := .testing }
  | .tested, .take kind gone =>
      some { s with
        phase := .numbered kind (s.control.next + 1)
        control := { s.control with next := s.control.next + 1 }
        gone := gone
        history := if gone
          then { s.history with departures := (s.control.next + 1) :: s.history.departures }
          else s.history }
  | .numbered kind g, .proceed => some { s.setActive g with phase := .published kind g }
  | .published kind g, .proceed =>
      if kind = .probe then some { s with phase := .probing }
      else if s.gone then some { s with phase := .skipping }
      else some { s with phase := .racing g, expired := false }
  | .skipping, .proceed => some { s.setActive 0 with phase := .testing }
  | .probing, .proceed => some { s with phase := .resetting true }
  | .probing, .lost => some { s with phase := .resetting false }
  | .resetting reusable, .proceed =>
      some { s.setActive 0 with phase := if reusable then .testing else .stopping }
  | .stopping, .proceed =>
      some { s with phase := .exited, control := { s.control with active := 0, closed := true } }
  | phase, signal => operationAct s phase signal

/-- The calls of the clients, and what befalls the request that is on. -/
def clientAct (s : Shared) : Task → Option (Shared × List Task)
  | .cancelling =>
      if s.control.active = 0 then some (s, [])
      else
        some ({ s with history := { s.history with loads := s.control.active :: s.history.loads } },
          [.cancelLoaded s.control.active])
  | .cancelLoaded g =>
      some ({ s with control := { s.control with cancelled := max s.control.cancelled g } }, [])
  | .closing => some ({ s with control := { s.control with closing := true } }, [])
  | .departing =>
      match s.phase.generation with
      | none => none
      | some g =>
          some ({ s with
            gone := true
            history := { s.history with departures := g :: s.history.departures } }, [])
  | .expiring =>
      match s.phase.operation with
      | none => none
      | some g =>
          some ({ s with
            expired := true
            history := { s.history with deadlines := g :: s.history.deadlines } }, [])
  | .driver => none

def act (s : Shared) (t : Task) (signal : Signal) : Option (Shared × List Task) :=
  match t with
  | .driver =>
      match driverAct s signal with
      | none => none
      | some s' => some (s', [.driver])
  | _ => clientAct s t

def starts : Task → Bool
  | .cancelling | .closing | .departing | .expiring => true
  | .driver | .cancelLoaded _ => false

abbrev program : Program Shared Task Signal where
  starts := starts
  act := act

def start : Tasks.Soup Shared Task :=
  ⟨{}, [.driver]⟩

/-- The driver and any number of clones, under every interleaving. -/
def generations : Transition.System (Tasks.Soup Shared Task) (Action Task Signal) :=
  program.system fun s => s = start

theorem exec_generations (as : List (Action Task Signal)) (s : Tasks.Soup Shared Task)
    (h : program.exec (fun _ _ => true) start as = some s) : generations.Reachable s := by
  have hstart : (generations.guarded fun _ _ => true = true).Reachable start := .start rfl
  exact (Program.exec_reachable hstart h).of_guarded

/-! ## What the history says -/

/-- The operation has taken its interrupted branch. -/
def History.broke (hist : History) (g : Nat) : Prop :=
  ∃ cause, (g, cause) ∈ hist.branches

/-- A branch has the cause it was taken for: its own deadline, its own consumer, or a close or a
cancel that had read its own generation. -/
def Excused (control : Control) (hist : History) : Nat × Cause → Prop
  | (g, .deadline) => g ∈ hist.deadlines
  | (g, .consumer) => g ∈ hist.departures
  | (g, .control) => control.closing = true ∨ g ∈ hist.loads

/-- A wait watched its own operation, which was closed, was cancelled by a call that had read its
generation, or had left its `select!` already. -/
def Watched (control : Control) (hist : History) (e : Nat × Nat) : Prop :=
  e.2 = e.1 ∧ (control.closing = true ∨ e.1 ∈ hist.loads ∨ hist.broke e.1)

structure Ledger (control : Control) (hist : History) : Prop where
  branches_le : ∀ g, hist.broke g → g ≤ control.next
  cancelled : control.cancelled = 0 ∨ control.cancelled ∈ hist.loads ∨ hist.broke control.cancelled
  excused : ∀ branch ∈ hist.branches, Excused control hist branch
  packets_once : hist.packets.Nodup
  packets_broke : ∀ g ∈ hist.packets, hist.broke g
  early : ∀ e ∈ hist.early, Watched control hist e

/-- The number of the request that is on: the last one given out, and not broken off yet. -/
structure Fresh (s : Shared) (g : Nat) : Prop where
  pos : 0 < g
  last : g = s.control.next
  whole : ¬ s.history.broke g
  gone : s.gone = true → g ∈ s.history.departures

/-- What an operation relies on while its future exists. -/
structure Live (s : Shared) (g : Nat) : Prop where
  pos : 0 < g
  active : s.control.active = g
  wait : ∀ read, s.wait = some read → read = g

/-- What holds where the driver stands. -/
def Stands (s : Shared) : Phase → Prop
  | .numbered _ g => Fresh s g ∧ s.wait = none
  | .published _ g => Fresh s g ∧ s.control.active = g ∧ s.wait = none
  | .racing g => Fresh s g ∧ Live s g ∧ (s.expired = true → g ∈ s.history.deadlines)
  | .raising g | .cancelling g => Live s g ∧ s.history.broke g ∧ g ∉ s.history.packets
  | .draining g => Live s g ∧ s.history.broke g
  | _ => s.wait = none

structure Sound (s : Shared) : Prop where
  ledger : Ledger s.control s.history
  stands : Stands s s.phase

/-- A cancel that has loaded a generation is in the history. -/
def Loaded (s : Shared) : Task → Prop
  | .cancelLoaded g => g ∈ s.history.loads
  | _ => True

section Steps

variable {control : Control} {hist : History} {s s' : Shared} {signal : Signal} {g : Nat}

/-- An interruption of a live generation has an origin. -/
theorem interrupted_origin (h : Ledger control hist) (hpos : 0 < g)
    (hint : interrupted control g = true) :
    control.closing = true ∨ g ∈ hist.loads ∨ hist.broke g := by
  rcases Bool.or_eq_true_iff.mp hint with hclosing | hcancelled
  · exact .inl hclosing
  · rw [beq_iff_eq] at hcancelled
    rcases h.cancelled with hzero | horigin
    · omega
    · rw [hcancelled] at horigin
      exact .inr horigin

theorem Fresh.not_sent (h : Fresh s g) (hledger : Ledger s.control s.history) :
    g ∉ s.history.packets :=
  fun hmem => h.whole (hledger.packets_broke g hmem)

/-- What the driver relies on survives every step that leaves its own variables alone. -/
theorem Stands.mono {p : Phase} (h : Stands s p) (hnext : s'.control.next = s.control.next)
    (hactive : s'.control.active = s.control.active)
    (hwait : s'.wait = s.wait ∨ ∃ g, p.operation = some g ∧ ∀ read, s'.wait = some read → read = g)
    (hbranches : s'.history.branches = s.history.branches)
    (hpackets : s'.history.packets = s.history.packets)
    (hgone : ∀ g, p.generation = some g → (s.gone = true → g ∈ s.history.departures) →
      s'.gone = true → g ∈ s'.history.departures)
    (hexpired : ∀ g, p.operation = some g → (s.expired = true → g ∈ s.history.deadlines) →
      s'.expired = true → g ∈ s'.history.deadlines) : Stands s' p := by
  have hfresh : ∀ g, p.generation = some g → Fresh s g → Fresh s' g := by
    intro g hg h
    refine ⟨h.pos, hnext ▸ h.last, ?_, hgone g hg h.gone⟩
    unfold History.broke
    rw [hbranches]
    exact h.whole
  have hlive : ∀ g, p.operation = some g → Live s g → Live s' g := by
    intro g hg h
    refine ⟨h.pos, hactive ▸ h.active, ?_⟩
    rcases hwait with hsame | ⟨g', hg', hread⟩
    · rw [hsame]
      exact h.wait
    · cases hg.symm.trans hg'
      exact hread
  have hbroke : ∀ g, s.history.broke g → s'.history.broke g := by
    intro g hg
    unfold History.broke
    rw [hbranches]
    exact hg
  have hidle : p.operation = none → s.wait = none → s'.wait = none := by
    intro hp hnone
    rcases hwait with hsame | ⟨g, hg, -⟩
    · exact hsame.trans hnone
    · cases hp.symm.trans hg
  cases p with
  | numbered kind g => exact ⟨hfresh g rfl h.1, hidle rfl h.2⟩
  | published kind g => exact ⟨hfresh g rfl h.1, hactive ▸ h.2.1, hidle rfl h.2.2⟩
  | racing g => exact ⟨hfresh g rfl h.1, hlive g rfl h.2.1, hexpired g rfl h.2.2⟩
  | raising g => exact ⟨hlive g rfl h.1, hbroke g h.2.1, hpackets ▸ h.2.2⟩
  | cancelling g => exact ⟨hlive g rfl h.1, hbroke g h.2.1, hpackets ▸ h.2.2⟩
  | draining g => exact ⟨hlive g rfl h.1, hbroke g h.2⟩
  | testing => exact hidle rfl h
  | tested => exact hidle rfl h
  | skipping => exact hidle rfl h
  | probing => exact hidle rfl h
  | resetting reusable => exact hidle rfl h
  | stopping => exact hidle rfl h
  | exited => exact hidle rfl h

/-! ## The clients -/

theorem Ledger.load (h : Ledger control hist) (g : Nat) :
    Ledger control { hist with loads := g :: hist.loads } where
  branches_le := h.branches_le
  cancelled := h.cancelled.imp_right (Or.imp_left (List.mem_cons_of_mem g))
  excused := by
    rintro ⟨g', cause⟩ hmem
    have hcause := h.excused _ hmem
    cases cause with
    | deadline => exact hcause
    | consumer => exact hcause
    | control => exact hcause.imp_right (List.mem_cons_of_mem g)
  packets_once := h.packets_once
  packets_broke := h.packets_broke
  early e hmem := by
    obtain ⟨hown, hwhy⟩ := h.early e hmem
    exact ⟨hown, hwhy.imp_right (Or.imp_left (List.mem_cons_of_mem g))⟩

/-- Raising `cancelled` to a generation that has a reason to be there. -/
theorem Ledger.raise (h : Ledger control hist)
    (hg : g ∈ hist.loads ∨ hist.broke g) :
    Ledger { control with cancelled := max control.cancelled g } hist where
  branches_le := h.branches_le
  cancelled := by
    show max control.cancelled g = 0 ∨ _
    rcases Nat.le_total control.cancelled g with hle | hle
    · rw [Nat.max_eq_right hle]
      exact .inr hg
    · rw [Nat.max_eq_left hle]
      exact h.cancelled
  excused := h.excused
  packets_once := h.packets_once
  packets_broke := h.packets_broke
  early := h.early

/-- Numbers given out, `active` and a close do not touch what has happened. -/
theorem Ledger.keeps (h : Ledger control hist) {control' : Control}
    (hnext : control.next ≤ control'.next) (hcancelled : control'.cancelled = control.cancelled)
    (hclosing : control.closing = true → control'.closing = true) : Ledger control' hist where
  branches_le g hg := Nat.le_trans (h.branches_le g hg) hnext
  cancelled := hcancelled ▸ h.cancelled
  excused := by
    rintro ⟨g, cause⟩ hmem
    have hcause := h.excused _ hmem
    cases cause with
    | deadline => exact hcause
    | consumer => exact hcause
    | control => exact hcause.imp_left hclosing
  packets_once := h.packets_once
  packets_broke := h.packets_broke
  early e hmem := ⟨(h.early e hmem).1, (h.early e hmem).2.imp_left hclosing⟩

/-- More deadlines passed and more consumers gone. -/
theorem Ledger.befall (h : Ledger control hist) {departures deadlines : List Nat}
    (hdepartures : ∀ g ∈ hist.departures, g ∈ departures)
    (hdeadlines : ∀ g ∈ hist.deadlines, g ∈ deadlines) :
    Ledger control { hist with departures := departures, deadlines := deadlines } where
  branches_le := h.branches_le
  cancelled := h.cancelled
  excused := by
    rintro ⟨g, cause⟩ hmem
    have hcause := h.excused _ hmem
    cases cause with
    | deadline => exact hdeadlines g hcause
    | consumer => exact hdepartures g hcause
    | control => exact hcause
  packets_once := h.packets_once
  packets_broke := h.packets_broke
  early := h.early

/-- A call of a client, or what befalls a request, keeps everything. -/
theorem clientAct_sound {t : Task} {ts : List Task} (hs : Sound s) (hloaded : Loaded s t)
    (h : clientAct s t = some (s', ts)) :
    Sound s' ∧ (∀ u ∈ ts, Loaded s' u) ∧ ∀ g ∈ s.history.loads, g ∈ s'.history.loads := by
  cases t with
  | driver => cases h
  | cancelling =>
      by_cases hidle : s.control.active = 0
      · rw [clientAct, if_pos hidle] at h
        cases h
        exact ⟨hs, fun _ hu => absurd hu List.not_mem_nil, fun _ hg => hg⟩
      · rw [clientAct, if_neg hidle] at h
        cases h
        refine ⟨⟨hs.ledger.load _, ?_⟩, ?_, fun _ hg => List.mem_cons_of_mem _ hg⟩
        · exact hs.stands.mono rfl rfl (.inl rfl) rfl rfl (fun _ _ h => h) fun _ _ h => h
        · intro u hu
          cases List.mem_singleton.mp hu
          exact List.mem_cons_self
  | cancelLoaded g =>
      cases h
      refine ⟨⟨hs.ledger.raise (.inl hloaded), ?_⟩, fun _ hu => absurd hu List.not_mem_nil,
        fun _ hg => hg⟩
      exact hs.stands.mono rfl rfl (.inl rfl) rfl rfl (fun _ _ h => h) fun _ _ h => h
  | closing =>
      cases h
      have hledger : Ledger { s.control with closing := true } s.history :=
        hs.ledger.keeps (Nat.le_refl _) rfl fun _ => rfl
      refine ⟨⟨hledger, ?_⟩, fun _ hu => absurd hu List.not_mem_nil, fun _ hg => hg⟩
      exact hs.stands.mono rfl rfl (.inl rfl) rfl rfl (fun _ _ h => h) fun _ _ h => h
  | departing =>
      cases hphase : s.phase.generation with
      | none => simp [clientAct, hphase] at h
      | some g =>
          simp only [clientAct, hphase, Option.some.injEq, Prod.mk.injEq] at h
          obtain ⟨rfl, rfl⟩ := h
          refine ⟨⟨hs.ledger.befall (fun _ => List.mem_cons_of_mem g) fun _ h => h, ?_⟩,
            fun _ hu => absurd hu List.not_mem_nil, fun _ hg => hg⟩
          refine hs.stands.mono rfl rfl (.inl rfl) rfl rfl ?_ fun _ _ h => h
          intro g' hg' _ _
          cases hphase.symm.trans hg'
          exact List.mem_cons_self
  | expiring =>
      cases hphase : s.phase.operation with
      | none => simp [clientAct, hphase] at h
      | some g =>
          simp only [clientAct, hphase, Option.some.injEq, Prod.mk.injEq] at h
          obtain ⟨rfl, rfl⟩ := h
          refine ⟨⟨hs.ledger.befall (fun _ h => h) fun _ => List.mem_cons_of_mem g, ?_⟩,
            fun _ hu => absurd hu List.not_mem_nil, fun _ hg => hg⟩
          refine hs.stands.mono rfl rfl (.inl rfl) rfl rfl (fun _ _ h => h) ?_
          intro g' hg' _ _
          cases hphase.symm.trans hg'
          exact List.mem_cons_self

/-! ## The driver -/

theorem broke_cons {hist : History} {cause : Cause} {g' : Nat} (hg : hist.broke g') :
    { hist with branches := (g, cause) :: hist.branches }.broke g' :=
  hg.imp fun _ hmem => List.mem_cons_of_mem _ hmem

/-- The branch that an operation takes is its own. -/
theorem Ledger.branch (h : Ledger control hist) (hlast : g = control.next) {cause : Cause}
    (hcause : Excused control hist (g, cause)) :
    Ledger control { hist with branches := (g, cause) :: hist.branches } where
  branches_le := by
    rintro g' ⟨cause', hmem⟩
    rcases List.mem_cons.mp hmem with heq | hold
    · cases heq
      exact Nat.le_of_eq hlast
    · exact h.branches_le g' ⟨cause', hold⟩
  cancelled := h.cancelled.imp_right (Or.imp_right broke_cons)
  excused := by
    intro branch hmem
    have hold : Excused control hist branch := by
      rcases List.mem_cons.mp hmem with rfl | hold
      · exact hcause
      · exact h.excused branch hold
    rcases branch with ⟨g', _ | _ | _⟩ <;> exact hold
  packets_once := h.packets_once
  packets_broke g' hmem := broke_cons (h.packets_broke g' hmem)
  early e hmem := by
    obtain ⟨hown, hwhy⟩ := h.early e hmem
    exact ⟨hown, hwhy.imp_right (Or.imp_right broke_cons)⟩

theorem Ledger.send (h : Ledger control hist) (hbroke : hist.broke g)
    (hunsent : g ∉ hist.packets) :
    Ledger control { hist with packets := g :: hist.packets } where
  branches_le := h.branches_le
  cancelled := h.cancelled
  excused := by
    rintro ⟨g', _ | _ | _⟩ hmem <;> exact h.excused _ hmem
  packets_once := List.nodup_cons.mpr ⟨hunsent, h.packets_once⟩
  packets_broke := List.forall_mem_cons.mpr ⟨hbroke, h.packets_broke⟩
  early := h.early

theorem Ledger.watch (h : Ledger control hist) {e : Nat × Nat}
    (he : Watched control hist e) :
    Ledger control { hist with early := e :: hist.early } where
  branches_le := h.branches_le
  cancelled := h.cancelled
  excused := by
    rintro ⟨g', _ | _ | _⟩ hmem <;> exact h.excused _ hmem
  packets_once := h.packets_once
  packets_broke := h.packets_broke
  early := List.forall_mem_cons.mpr ⟨he, h.early⟩

/-- A wait reads the generation of its own operation and is interrupted for it alone. -/
theorem waitAct_sound (hs : Sound s) (hop : s.phase.operation = some g) (hlive : Live s g)
    (h : waitAct s g signal = some s') : Sound s' := by
  have hended : ∀ e : List (Nat × Nat), Stands
      { s with wait := none, history := { s.history with early := e } } s.phase := by
    intro e
    refine hs.stands.mono rfl rfl (.inr ⟨g, hop, ?_⟩) rfl rfl (fun _ _ h => h) fun _ _ h => h
    intro read hread
    cases hread
  unfold waitAct at h
  split at h
  case h_1 =>
    split at h
    case isTrue =>
      cases h
      refine ⟨hs.ledger, ?_⟩
      refine hs.stands.mono rfl rfl (.inr ⟨g, hop, ?_⟩) rfl rfl (fun _ _ h => h) fun _ _ h => h
      intro read hread
      cases hread
      exact hlive.active
    case isFalse => cases h
  case h_2 =>
    split at h
    · cases h
    case h_2 read hread =>
      split at h
      case isTrue hint =>
        cases h
        obtain rfl := hlive.wait read hread
        exact ⟨hs.ledger.watch ⟨rfl, interrupted_origin hs.ledger hlive.pos hint⟩, hended _⟩
      case isFalse => cases h
  case h_3 =>
    split at h
    case isTrue =>
      cases h
      exact ⟨hs.ledger, hended s.history.early⟩
    case isFalse => cases h
  case h_4 => cases h

/-- A branch that is ready has its cause. -/
theorem ready_excused (hs : Sound s) (hphase : s.phase = .racing g) {cause : Cause}
    (hready : s.ready g cause = true) : Excused s.control s.history (g, cause) := by
  have hstands := hs.stands
  rw [hphase] at hstands
  obtain ⟨hfresh, hlive, hexpired⟩ := hstands
  cases cause with
  | deadline => exact hexpired hready
  | consumer => exact hfresh.gone hready
  | control =>
      rcases interrupted_origin hs.ledger hlive.pos hready with hclosing | hloaded | hbroke
      · exact .inl hclosing
      · exact .inr hloaded
      · exact absurd hbroke hfresh.whole

theorem operationAct_sound (hs : Sound s) (h : operationAct s s.phase signal = some s') :
    Sound s' := by
  have hstands := hs.stands
  generalize hphase : s.phase = p at h hstands
  unfold operationAct at h
  split at h
  case h_1 g =>
    split at h
    case isTrue hidle =>
      cases h
      exact ⟨hs.ledger, Option.isNone_iff_eq_none.mp hidle⟩
    case isFalse => cases h
  case h_2 g =>
    cases h
    exact ⟨hs.ledger, rfl⟩
  case h_3 g cause =>
    split at h
    case isTrue hready =>
      cases h
      obtain ⟨hfresh, hlive, -⟩ := hstands
      refine ⟨hs.ledger.branch hfresh.last (ready_excused hs hphase hready), ?_, ?_, ?_⟩
      · exact ⟨hlive.pos, hlive.active, hlive.wait⟩
      · exact ⟨cause, List.mem_cons_self⟩
      · exact hfresh.not_sent hs.ledger
    case isFalse => cases h
  case h_4 g =>
    cases h
    obtain ⟨hlive, hbroke, hunsent⟩ := hstands
    exact ⟨hs.ledger.raise (.inr hbroke), ⟨hlive.pos, hlive.active, hlive.wait⟩, hbroke, hunsent⟩
  case h_5 g =>
    cases h
    obtain ⟨hlive, hbroke, hunsent⟩ := hstands
    exact ⟨hs.ledger.send hbroke hunsent, ⟨hlive.pos, hlive.active, hlive.wait⟩, hbroke⟩
  case h_6 g =>
    cases h
    obtain ⟨hlive, hbroke, -⟩ := hstands
    exact ⟨hs.ledger, ⟨hlive.pos, hlive.active, hlive.wait⟩, hbroke⟩
  case h_7 g sent =>
    cases h
    obtain ⟨hlive, hbroke, hunsent⟩ := hstands
    cases sent with
    | false => exact ⟨hs.ledger, rfl⟩
    | true => exact ⟨hs.ledger.send hbroke hunsent, rfl⟩
  case h_8 g =>
    split at h
    case isTrue hidle =>
      cases h
      exact ⟨hs.ledger, Option.isNone_iff_eq_none.mp hidle⟩
    case isFalse => cases h
  case h_9 g =>
    cases h
    exact ⟨hs.ledger, rfl⟩
  case h_10 g sent =>
    cases h
    exact ⟨hs.ledger, rfl⟩
  case h_11 g _ _ _ => exact waitAct_sound hs (hphase ▸ rfl) hstands.2.1 h
  case h_12 g _ _ _ => exact waitAct_sound hs (hphase ▸ rfl) hstands.1 h
  case h_13 => cases h

theorem driverAct_sound (hs : Sound s) (h : driverAct s signal = some s') : Sound s' := by
  have hstands := hs.stands
  unfold driverAct at h
  split at h
  case h_1 hphase =>
    rw [hphase] at hstands
    split at h <;> cases h <;> exact ⟨hs.ledger, hstands⟩
  case h_2 hphase =>
    rw [hphase] at hstands
    cases h
    exact ⟨hs.ledger, hstands⟩
  case h_3 kind gone hphase =>
    rw [hphase] at hstands
    cases h
    have hwhole : ¬ s.history.broke (s.control.next + 1) := by
      intro hbroke
      have hle := hs.ledger.branches_le _ hbroke
      omega
    have hnumbered : Ledger { s.control with next := s.control.next + 1 } s.history :=
      hs.ledger.keeps (Nat.le_succ _) rfl id
    cases gone with
    | false =>
        refine ⟨hnumbered, ⟨Nat.succ_pos _, rfl, hwhole, ?_⟩, hstands⟩
        intro hfalse
        cases hfalse
    | true =>
        refine ⟨?_, ⟨Nat.succ_pos _, rfl, hwhole, fun _ => List.mem_cons_self⟩, hstands⟩
        exact hnumbered.befall (fun _ hg => List.mem_cons_of_mem _ hg) fun _ h => h
  case h_4 kind g hphase =>
    rw [hphase] at hstands
    cases h
    obtain ⟨hfresh, hwait⟩ := hstands
    exact ⟨hs.ledger.keeps (Nat.le_refl _) rfl id,
      ⟨hfresh.pos, hfresh.last, hfresh.whole, hfresh.gone⟩, rfl, hwait⟩
  case h_5 kind g hphase =>
    rw [hphase] at hstands
    obtain ⟨hfresh, hactive, hwait⟩ := hstands
    split at h
    case isTrue =>
      cases h
      exact ⟨hs.ledger, hwait⟩
    case isFalse =>
      split at h
      case isTrue =>
        cases h
        exact ⟨hs.ledger, hwait⟩
      case isFalse =>
        cases h
        refine ⟨hs.ledger, ⟨hfresh.pos, hfresh.last, hfresh.whole, hfresh.gone⟩,
          ⟨hfresh.pos, hactive, ?_⟩, ?_⟩
        · intro read hread
          cases hwait.symm.trans hread
        · intro hfalse
          cases hfalse
  case h_6 hphase =>
    rw [hphase] at hstands
    cases h
    exact ⟨hs.ledger.keeps (Nat.le_refl _) rfl id, hstands⟩
  case h_7 hphase =>
    rw [hphase] at hstands
    cases h
    exact ⟨hs.ledger, hstands⟩
  case h_8 hphase =>
    rw [hphase] at hstands
    cases h
    exact ⟨hs.ledger, hstands⟩
  case h_9 reusable hphase =>
    rw [hphase] at hstands
    cases h
    cases reusable with
    | false => exact ⟨hs.ledger.keeps (Nat.le_refl _) rfl id, hstands⟩
    | true => exact ⟨hs.ledger.keeps (Nat.le_refl _) rfl id, hstands⟩
  case h_10 hphase =>
    rw [hphase] at hstands
    cases h
    exact ⟨hs.ledger.keeps (Nat.le_refl _) rfl id, hstands⟩
  case h_11 => exact operationAct_sound hs h

theorem waitAct_loads (h : waitAct s g signal = some s') :
    s'.history.loads = s.history.loads := by
  unfold waitAct at h
  repeat' split at h
  all_goals cases h
  all_goals rfl

theorem operationAct_loads {p : Phase} (h : operationAct s p signal = some s') :
    s'.history.loads = s.history.loads := by
  unfold operationAct at h
  split at h
  case h_7 g sent =>
    cases h
    cases sent <;> rfl
  case h_11 => exact waitAct_loads h
  case h_12 => exact waitAct_loads h
  all_goals
    repeat' split at h
    all_goals cases h
    all_goals rfl

/-- The driver reads no generation but its own. -/
theorem driverAct_loads (h : driverAct s signal = some s') :
    s'.history.loads = s.history.loads := by
  unfold driverAct at h
  split at h
  case h_3 kind gone _ =>
    cases h
    cases gone <;> rfl
  case h_11 => exact operationAct_loads h
  all_goals
    repeat' split at h
    all_goals cases h
    all_goals rfl

end Steps

/-! ## Every run -/

structure Kept (s : Tasks.Soup Shared Task) : Prop where
  sound : Sound s.shared
  loaded : ∀ t ∈ s.tasks, Loaded s.shared t

theorem Loaded.of_subset {s s' : Shared} {t : Task} (h : Loaded s t)
    (hloads : ∀ g ∈ s.history.loads, g ∈ s'.history.loads) : Loaded s' t := by
  cases t with
  | cancelLoaded g => exact hloads g h
  | _ => trivial

theorem act_sound {s s' : Shared} {t : Task} {signal : Signal} {ts : List Task} (hs : Sound s)
    (ht : Loaded s t) (h : act s t signal = some (s', ts)) :
    Sound s' ∧ (∀ u ∈ ts, Loaded s' u) ∧ ∀ g ∈ s.history.loads, g ∈ s'.history.loads := by
  unfold act at h
  split at h
  case h_1 =>
    split at h
    · cases h
    case h_2 s'' hdriver =>
      cases h
      refine ⟨driverAct_sound hs hdriver, ?_, ?_⟩
      · intro u hu
        cases List.mem_singleton.mp hu
        trivial
      · rw [driverAct_loads hdriver]
        exact fun _ hg => hg
  case h_2 => exact clientAct_sound hs ht h

theorem Kept.step {s s' : Tasks.Soup Shared Task} {a : Action Task Signal} (hs : Kept s)
    (hstep : program.step s a = some s') : Kept s' := by
  cases a with
  | spawn t =>
      obtain ⟨hstart, rfl⟩ := Program.step_spawn hstep
      refine ⟨hs.sound, List.forall_mem_append.mpr ⟨hs.loaded, List.forall_mem_singleton.mpr ?_⟩⟩
      cases t with
      | cancelLoaded g => cases hstart
      | _ => trivial
  | run i signal =>
      obtain ⟨pre, t, post, shared, ts, htasks, hget, hact, rfl⟩ := Program.step_run hstep
      have ht := hs.loaded t (List.mem_of_getElem? hget)
      obtain ⟨hsound, hnew, hloads⟩ := act_sound hs.sound ht hact
      refine ⟨hsound, ?_⟩
      intro u hu
      rcases List.mem_append.mp hu with hpre | hrest
      · exact (hs.loaded u (htasks ▸ List.mem_append_left _ hpre)).of_subset hloads
      rcases List.mem_append.mp hrest with hts | hpost
      · exact hnew u hts
      · exact (hs.loaded u (htasks ▸ List.mem_append_right _
          (List.mem_cons_of_mem _ hpost))).of_subset hloads

theorem Kept.start : Kept start where
  sound :=
    ⟨⟨fun _ ⟨_, h⟩ => absurd h List.not_mem_nil, .inl rfl, fun _ h => absurd h List.not_mem_nil,
      List.nodup_nil, fun _ h => absurd h List.not_mem_nil, fun _ h => absurd h List.not_mem_nil⟩,
      rfl⟩
  loaded := List.forall_mem_singleton.mpr trivial

/-- In every interleaving an operation is broken off for its own deadline, its own consumer, a close
or a cancel that had read its own generation; at most one packet is sent for it; and no wait inside
it ends early for anything else. -/
theorem interruptions_excused {s : Tasks.Soup Shared Task} (h : generations.Reachable s) :
    (∀ branch ∈ s.shared.history.branches, Excused s.shared.control s.shared.history branch) ∧
      s.shared.history.packets.Nodup ∧
      (∀ g ∈ s.shared.history.packets, s.shared.history.broke g) ∧
      ∀ e ∈ s.shared.history.early, Watched s.shared.control s.shared.history e := by
  have hkept : Kept s := by
    refine h.invariant ?_ fun s a s' => Kept.step
    rintro s rfl
    exact .start
  have hledger := hkept.sound.ledger
  exact ⟨hledger.excused, hledger.packets_once, hledger.packets_broke, hledger.early⟩

/-- A cancel reads the generation of a stream and breaks it off; the next cancel finds none. -/
def cancelledStream : List (Action Task Signal) :=
  [.run 0 .proceed, .run 0 (.take .stream false), .run 0 .proceed, .run 0 .proceed,
    .spawn .cancelling, .run 1 .proceed, .run 1 .proceed, .run 0 (.interrupt .control),
    .run 0 .proceed, .run 0 .proceed, .run 0 .lost, .run 0 .proceed, .spawn .cancelling,
    .run 1 .proceed]

theorem cancelled_stream_excused : ∃ s, generations.Reachable s ∧
    s.shared.history.branches = [(1, .control)] ∧ s.shared.history.loads = [1] ∧
    s.shared.history.packets = [1] ∧
    (∀ branch ∈ s.shared.history.branches, Excused s.shared.control s.shared.history branch) ∧
    s.shared.history.packets.Nodup ∧
    (∀ g ∈ s.shared.history.packets, s.shared.history.broke g) ∧
    ∀ e ∈ s.shared.history.early, Watched s.shared.control s.shared.history e := by
  have hreach := exec_generations cancelledStream _ rfl
  exact ⟨_, hreach, rfl, rfl, rfl, interruptions_excused hreach⟩

end NzRust.Driver.Generations
