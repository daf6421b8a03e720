import NzRust.Driver.Session

/-!
# Whom a cancel packet hits

Between two operations nothing of the session is under way at the backend, and
during one nothing but its own statement. So a packet finds its own statement
or none when it is sent. Nothing holds it back after that: the driver goes on
to the next request as soon as it has seen ReadyForQuery, and a packet that is
still travelling meets whatever the backend has begun by then.
-/

namespace NzRust.Driver

open Tasks

/-! ## What is under way at the backend -/

/-- Statements sent and not answered, or answered and not read. -/
def Shared.ids (s : Shared) : List Nat :=
  s.wire ++ (s.running.toList ++ s.responses.map Prod.fst)

def outstanding (r : Request) (sent : Bool) : List Nat :=
  if sent then [r.id] else []

/-- What the driver has under way; nothing is known once it gives the session up. -/
def Phase.outstanding : Phase → Option (List Nat)
  | .racing r _ sent | .cancelling r sent | .draining r sent => some (Driver.outstanding r sent)
  | .testing | .tested | .probing _ | .skipping _ => some []
  | .answering _ _ reusable | .releasing _ reusable | .resetting reusable =>
      if reusable then some [] else none
  | .stopping | .emptying | .exited => none

/-- The driver and the backend agree on what is under way. -/
def Aligned (s : Shared) : Prop :=
  ∀ ids, s.phase.outstanding = some ids → s.ids.Perm ids

/-- A packet in flight finds its own statement or none. -/
def Aims (s : Shared) (t : Task) : Prop :=
  ∀ id, t.packet? = some id → ∀ victim, s.running = some victim → id = victim

section Steps

variable {s s' : Shared} {t : Task} {signal : Signal} {ts : List Task}

theorem aims_of_no_packet (h : t.packet? = none) : Aims s t := by
  intro id hid
  rw [h] at hid
  cases hid

/-- The driver moves on with the same under way, or gives the session up. -/
theorem Aligned.moves (h : Aligned s) (hids : s'.ids = s.ids)
    (hphase : s'.phase.outstanding = s.phase.outstanding ∨ s'.phase.outstanding = none) :
    Aligned s' := by
  intro ids hout
  rw [hids]
  rcases hphase with hsame | hnone
  · exact h ids (hsame.symm.trans hout)
  · rw [hnone] at hout
    cases hout

/-- While an operation is on, the backend runs its statement or none. -/
theorem Aligned.running_eq (h : Aligned s) {r : Request} {sent : Bool}
    (hphase : s.phase.outstanding = some (outstanding r sent)) {victim : Nat}
    (hrunning : s.running = some victim) : victim = r.id := by
  have hmem : victim ∈ s.ids := by simp [Shared.ids, hrunning]
  have hout := (h _ hphase).subset hmem
  cases sent with
  | false => cases hout
  | true => exact List.mem_singleton.mp hout

/-- The statement goes out on an idle session. -/
theorem Aligned.write (h : Aligned s) {r : Request} {next : Phase}
    (hphase : s.phase.outstanding = some []) (hnext : next.outstanding = some [r.id]) :
    Aligned { s.write r.id with phase := next } := by
  intro ids hids
  cases hnext.symm.trans hids
  have hnil := List.perm_nil.mp (h _ hphase)
  simp only [Shared.ids, List.append_eq_nil_iff] at hnil
  show ((s.wire ++ [r.id]) ++ (s.running.toList ++ s.responses.map Prod.fst)).Perm [r.id]
  rw [hnil.1, hnil.2.1, hnil.2.2]
  exact .refl _

/-- Its response is read, and the session is idle again. -/
theorem Aligned.consume (h : Aligned s) {r : Request} {ok : Bool} {next : Phase}
    (hphase : s.phase.outstanding = some [r.id]) (hresponse : s.response r.id = some ok)
    (hnext : next.outstanding = some []) : Aligned { s.consume r.id with phase := next } := by
  intro ids hids
  cases hnext.symm.trans hids
  obtain ⟨before, after, hsplit, -⟩ := List.lookup_eq_some_iff.mp hresponse
  -- One statement is under way and it is answered, so there is nothing beside its response.
  have hlength := (h _ hphase).length_eq
  simp only [Shared.ids, hsplit, List.length_append, List.length_map, List.length_cons,
    List.length_nil] at hlength
  have hwire := List.eq_nil_of_length_eq_zero (l := s.wire) (by omega)
  have hrunning := List.eq_nil_of_length_eq_zero (l := s.running.toList) (by omega)
  have hbefore := List.eq_nil_of_length_eq_zero (l := before) (by omega)
  have hafter := List.eq_nil_of_length_eq_zero (l := after) (by omega)
  show (s.wire ++ (s.running.toList ++
    (s.responses.filter (·.1 != r.id)).map Prod.fst)).Perm []
  rw [hsplit, hwire, hrunning, hbefore, hafter]
  simp

/-- An operation that is given up, with or without a packet behind it. -/
theorem Aligned.gives_up {r : Request} :
    Aligned { s with phase := .answering r false false } :=
  nofun

theorem Aligned.interrupts (hs : Aligned s) {r : Request} {generation : Nat} {sent : Bool}
    (hphase : s.phase = .racing r generation sent) (control : Control) :
    Aligned { s with phase := .cancelling r sent, control := control } := by
  refine hs.moves rfl (.inl ?_)
  rw [hphase]
  rfl

theorem Aligned.drains (hs : Aligned s) {r : Request} {sent : Bool}
    (hphase : s.phase = .cancelling r sent) : Aligned { s with phase := .draining r sent } := by
  refine hs.moves rfl (.inl ?_)
  rw [hphase]
  rfl

/-- A packet is sent while its own statement runs, or none. -/
theorem Aligned.aims (hs : Aligned s) {r : Request} {sent : Bool}
    (hphase : s.phase = .cancelling r sent) (hrunning : s'.running = s.running) :
    ∀ u ∈ [Task.packet r.id], Aims s' u := by
  intro u hu id hid victim hvictim
  obtain rfl := List.mem_singleton.mp hu
  rw [← Option.some.inj hid]
  exact (hs.running_eq (by rw [hphase]; rfl) (hrunning ▸ hvictim)).symm

theorem operationAct_aligned {phase : Phase} (hphase : s.phase = phase)
    (h : operationAct s phase signal = some (s', ts)) (hs : Aligned s) :
    Aligned s' ∧ s'.running = s.running ∧ s'.hits = s.hits ∧ ∀ u ∈ ts, Aims s' u := by
  unfold operationAct at h
  split at h
  case h_1 r generation sent =>
    split at h
    case isTrue hsent =>
      subst hsent
      split at h
      · cases h
      case h_2 ok hresponse =>
        obtain ⟨rfl, rfl⟩ := Prod.mk.inj (Option.some.inj h)
        exact ⟨hs.consume (by rw [hphase]; rfl) hresponse rfl, rfl, rfl, nofun⟩
    case isFalse hsent =>
      obtain ⟨rfl, rfl⟩ := Prod.mk.inj (Option.some.inj h)
      rw [Bool.not_eq_true] at hsent
      subst hsent
      exact ⟨hs.write (by rw [hphase]; rfl) rfl, rfl, rfl, nofun⟩
  case h_2 =>
    obtain ⟨rfl, rfl⟩ := Prod.mk.inj (Option.some.inj h)
    exact ⟨.gives_up, rfl, rfl, nofun⟩
  case h_3 =>
    obtain ⟨rfl, rfl⟩ := Prod.mk.inj (Option.some.inj h)
    exact ⟨hs.interrupts hphase _, rfl, rfl, nofun⟩
  case h_4 =>
    split at h
    · obtain ⟨rfl, rfl⟩ := Prod.mk.inj (Option.some.inj h)
      exact ⟨hs.interrupts hphase _, rfl, rfl, nofun⟩
    · cases h
  case h_5 =>
    obtain ⟨rfl, rfl⟩ := Prod.mk.inj (Option.some.inj h)
    exact ⟨hs.drains hphase, rfl, rfl, hs.aims hphase rfl⟩
  case h_6 =>
    obtain ⟨rfl, rfl⟩ := Prod.mk.inj (Option.some.inj h)
    exact ⟨hs.drains hphase, rfl, rfl, nofun⟩
  case h_7 =>
    obtain ⟨rfl, rfl⟩ := Prod.mk.inj (Option.some.inj h)
    exact ⟨.gives_up, rfl, rfl, nofun⟩
  case h_8 =>
    obtain ⟨rfl, rfl⟩ := Prod.mk.inj (Option.some.inj h)
    exact ⟨.gives_up, rfl, rfl, hs.aims hphase rfl⟩
  case h_9 r sent =>
    split at h
    case isTrue hsent =>
      subst hsent
      split at h
      · cases h
      case h_2 ok hresponse =>
        obtain ⟨rfl, rfl⟩ := Prod.mk.inj (Option.some.inj h)
        exact ⟨hs.consume (by rw [hphase]; rfl) hresponse rfl, rfl, rfl, nofun⟩
    case isFalse hsent =>
      obtain ⟨rfl, rfl⟩ := Prod.mk.inj (Option.some.inj h)
      rw [Bool.not_eq_true] at hsent
      subst hsent
      exact ⟨hs.write (by rw [hphase]; rfl) rfl, rfl, rfl, nofun⟩
  case h_10 =>
    obtain ⟨rfl, rfl⟩ := Prod.mk.inj (Option.some.inj h)
    exact ⟨.gives_up, rfl, rfl, nofun⟩
  case h_11 =>
    obtain ⟨rfl, rfl⟩ := Prod.mk.inj (Option.some.inj h)
    exact ⟨.gives_up, rfl, rfl, nofun⟩
  case h_12 => cases h

/-- Outside an operation the driver leaves the backend alone. -/
theorem driverAct_aligned (h : driverAct s signal = some (s', ts)) (hs : Aligned s) :
    Aligned s' ∧ s'.running = s.running ∧ s'.hits = s.hits ∧ ∀ u ∈ ts, Aims s' u := by
  unfold driverAct at h
  split at h
  case h_1 hphase =>
    obtain ⟨rfl, rfl⟩ := Prod.mk.inj (Option.some.inj h)
    refine ⟨hs.moves rfl ?_, rfl, rfl, nofun⟩
    rw [hphase]
    cases s.control.closing with
    | false => exact .inl rfl
    | true => exact .inr rfl
  case h_2 hphase =>
    split at h
    · obtain ⟨rfl, rfl⟩ := Prod.mk.inj (Option.some.inj h)
      exact ⟨hs.moves rfl (.inl (by rw [hphase]; rfl)), rfl, rfl, nofun⟩
    case h_2 r rest hqueue =>
      obtain ⟨rfl, rfl⟩ := Prod.mk.inj (Option.some.inj h)
      unfold take
      repeat' split
      all_goals exact ⟨hs.moves rfl (.inl (by rw [hphase]; rfl)), rfl, rfl, nofun⟩
  case h_3 r healthy hphase =>
    obtain ⟨rfl, rfl⟩ := Prod.mk.inj (Option.some.inj h)
    refine ⟨hs.moves rfl ?_, rfl, rfl, nofun⟩
    rw [hphase]
    cases healthy with
    | false => exact .inr rfl
    | true => exact .inl rfl
  case h_4 r ok reusable hphase =>
    obtain ⟨rfl, rfl⟩ := Prod.mk.inj (Option.some.inj h)
    exact ⟨hs.moves rfl (.inl (by rw [hphase]; rfl)), rfl, rfl, nofun⟩
  case h_5 leased hphase =>
    obtain ⟨rfl, rfl⟩ := Prod.mk.inj (Option.some.inj h)
    cases leased with
    | false => exact ⟨hs.moves rfl (.inl (by rw [hphase]; rfl)), rfl, rfl, nofun⟩
    | true => exact ⟨hs.moves rfl (.inl (by rw [hphase]; rfl)), rfl, rfl, nofun⟩
  case h_6 leased reusable hphase =>
    obtain ⟨rfl, rfl⟩ := Prod.mk.inj (Option.some.inj h)
    cases leased with
    | false => exact ⟨hs.moves rfl (.inl (by rw [hphase]; rfl)), rfl, rfl, nofun⟩
    | true => exact ⟨hs.moves rfl (.inl (by rw [hphase]; rfl)), rfl, rfl, nofun⟩
  case h_7 reusable hphase =>
    obtain ⟨rfl, rfl⟩ := Prod.mk.inj (Option.some.inj h)
    refine ⟨hs.moves rfl ?_, rfl, rfl, nofun⟩
    rw [hphase]
    cases reusable with
    | false => exact .inr rfl
    | true => exact .inl rfl
  case h_8 =>
    obtain ⟨rfl, rfl⟩ := Prod.mk.inj (Option.some.inj h)
    exact ⟨hs.moves rfl (.inr rfl), rfl, rfl, nofun⟩
  case h_9 hphase =>
    split at h
    · obtain ⟨rfl, rfl⟩ := Prod.mk.inj (Option.some.inj h)
      exact ⟨hs.moves rfl (.inr rfl), rfl, rfl, nofun⟩
    · obtain ⟨rfl, rfl⟩ := Prod.mk.inj (Option.some.inj h)
      split
      · exact ⟨hs.moves rfl (.inl rfl), rfl, rfl, nofun⟩
      · exact ⟨hs.moves rfl (.inl rfl), rfl, rfl, nofun⟩
  case h_10 => exact operationAct_aligned rfl h hs

/-- The backend begins the oldest statement or answers the one it runs. -/
theorem backendAct_cases (h : backendAct s signal = some (s', ts)) :
    ts = [] ∧ s'.phase = s.phase ∧ s'.hits = s.hits ∧ s'.ids.Perm s.ids ∧
      (s'.running = none ∨
        signal = .proceed ∧ s.running = none ∧ s'.running = s.wire.head?) := by
  unfold backendAct at h
  split at h
  case h_1 =>
    split at h
    case h_1 id rest hrunning hwire =>
      obtain ⟨rfl, rfl⟩ := Prod.mk.inj (Option.some.inj h)
      refine ⟨rfl, rfl, rfl, ?_, .inr ⟨rfl, hrunning, by rw [hwire]; rfl⟩⟩
      rw [Shared.ids, Shared.ids, hrunning, hwire]
      exact List.perm_middle
    · cases h
  case h_2 ok =>
    split at h
    · cases h
    case h_2 id hrunning =>
      obtain ⟨rfl, rfl⟩ := Prod.mk.inj (Option.some.inj h)
      refine ⟨rfl, rfl, rfl, ?_, .inl rfl⟩
      rw [Shared.ids, Shared.ids, hrunning]
      exact .refl _
  case h_3 => cases h

end Steps

/-! ## Every run -/

/-- The backend begins no statement while a packet for another one is on its way. -/
def startsAlone (s : Soup) : Move → Bool
  | .run i .proceed =>
      match s.tasks[i]? with
      | some .backend =>
          s.tasks.all fun t => t.packet?.all fun id => s.shared.wire.head?.all (id == ·)
      | _ => true
  | _ => true

structure OnTarget (s : Soup) : Prop where
  aligned : Aligned s.shared
  aims : ∀ t ∈ s.tasks, Aims s.shared t
  hits : ∀ hit ∈ s.shared.hits, hit.1 = hit.2

theorem starts_packet {t : Task} (h : starts t = true) : t.packet? = none := by
  cases t with
  | locking kind sql | txLocking | cancelling | closing => rfl
  | _ => cases h

theorem Aims.of_same {s s' : Shared} {t : Task} (h : Aims s t) (hrunning : s'.running = s.running) :
    Aims s' t := by
  intro id hid victim hvictim
  exact h id hid victim (hrunning ▸ hvictim)

/-- After a step of one task nothing runs, the same runs, or a statement has begun that all
packets in flight are for. -/
theorem act_onTarget {s : Soup} {t : Task} {signal : Signal} {shared : Shared} {ts : List Task}
    (hs : OnTarget s) (ht : t ∈ s.tasks) (h : act s.shared t signal = some (shared, ts))
    (halone : t = .backend → signal = .proceed → ∀ u ∈ s.tasks, ∀ id, u.packet? = some id →
      ∀ next, s.shared.wire.head? = some next → id = next) :
    Aligned shared ∧ (∀ u ∈ ts, Aims shared u) ∧ (∀ u ∈ s.tasks, Aims shared u) ∧
      ∀ hit ∈ shared.hits, hit.1 = hit.2 := by
  rcases act_cases h with ⟨-, us, hdriver, rfl⟩ | ⟨rfl, us, hbackend, rfl⟩ | ⟨id, rfl, hpacket⟩ |
    ⟨-, hapart⟩
  · obtain ⟨haligned, hrunning, hhits, haims⟩ := driverAct_aligned hdriver hs.aligned
    refine ⟨haligned, ?_, fun u hu => (hs.aims u hu).of_same hrunning, ?_⟩
    · intro u hu
      rcases List.mem_cons.mp hu with rfl | hrest
      · exact aims_of_no_packet rfl
      · exact haims u hrest
    · rw [hhits]
      exact hs.hits
  · obtain ⟨rfl, hphase, hhits, hperm, hrunning⟩ := backendAct_cases hbackend
    refine ⟨?_, ?_, ?_, ?_⟩
    · intro ids hids
      rw [hphase] at hids
      exact hperm.trans (hs.aligned ids hids)
    · intro u hu
      obtain rfl := List.mem_singleton.mp hu
      exact aims_of_no_packet rfl
    · intro u hu id hid victim hvictim
      rcases hrunning with hnone | ⟨hproceed, -, hbegun⟩
      · rw [hnone] at hvictim
        cases hvictim
      · exact halone rfl hproceed u hu id hid victim (hbegun.symm.trans hvictim)
    · rw [hhits]
      exact hs.hits
  · have hown := hs.aims _ ht id rfl
    unfold packetAct at hpacket
    split at hpacket
    case h_1 =>
      split at hpacket
      · obtain ⟨rfl, rfl⟩ := Prod.mk.inj (Option.some.inj hpacket)
        exact ⟨hs.aligned, nofun, hs.aims, hs.hits⟩
      case h_2 victim hrunning =>
        obtain ⟨rfl, rfl⟩ := Prod.mk.inj (Option.some.inj hpacket)
        refine ⟨hs.aligned, nofun, hs.aims, ?_⟩
        intro hit hmem
        rcases List.mem_cons.mp hmem with rfl | hold
        · exact hown victim hrunning
        · exact hs.hits hit hold
    case h_2 =>
      obtain ⟨rfl, rfl⟩ := Prod.mk.inj (Option.some.inj hpacket)
      exact ⟨hs.aligned, nofun, hs.aims, hs.hits⟩
    case h_3 => cases hpacket
  · obtain ⟨hwire, hrest⟩ := Prod.mk.inj hapart.backend
    obtain ⟨hrunning, hresponses⟩ := Prod.mk.inj hrest
    refine ⟨?_, fun u hu => aims_of_no_packet (hapart.packets u hu),
      fun u hu => (hs.aims u hu).of_same hrunning, ?_⟩
    · refine hs.aligned.moves ?_ (.inl (by rw [hapart.phase]))
      rw [Shared.ids, Shared.ids, hwire, hrunning, hresponses]
    · rw [hapart.hits]
      exact hs.hits

theorem onTarget_step {s s' : Soup} {a : Move} (hs : OnTarget s) (halone : startsAlone s a = true)
    (hstep : program.step s a = some s') : OnTarget s' := by
  cases a with
  | spawn t =>
      obtain ⟨hstart, rfl⟩ := Program.step_spawn hstep
      refine ⟨hs.aligned, ?_, hs.hits⟩
      intro u hu
      rcases List.mem_append.mp hu with hold | hnew
      · exact hs.aims u hold
      · obtain rfl := List.mem_singleton.mp hnew
        exact aims_of_no_packet (starts_packet hstart)
  | run i signal =>
      obtain ⟨pre, t, post, shared, ts, htasks, hget, hact, rfl⟩ := Program.step_run hstep
      have ht : t ∈ s.tasks := List.mem_of_getElem? hget
      obtain ⟨haligned, hnew, hold, hhits⟩ := act_onTarget hs ht hact (by
        rintro rfl rfl u hu id hid next hnext
        have hall := halone
        simp only [startsAlone, hget, List.all_eq_true] at hall
        have hone := hall u hu
        rw [hid, hnext] at hone
        exact of_decide_eq_true hone)
      refine ⟨haligned, ?_, hhits⟩
      intro u hu
      rcases List.mem_append.mp hu with hpre | hrest
      · exact hold u (htasks ▸ List.mem_append_left _ hpre)
      · rcases List.mem_append.mp hrest with hts | hpost
        · exact hnew u hts
        · exact hold u (htasks ▸ List.mem_append_right _ (List.mem_cons_of_mem _ hpost))

theorem onTarget_start : OnTarget start := by
  refine ⟨?_, ?_, nofun⟩
  · intro ids hids
    cases hids
    exact .refl _
  · intro t ht
    rcases List.mem_cons.mp ht with rfl | hrest
    · exact aims_of_no_packet rfl
    · cases List.mem_singleton.mp hrest
      exact aims_of_no_packet rfl

/-- A cancel interrupts only the statement that it was sent for. -/
theorem cancel_hits_own {s : Soup}
    (h : (session.guarded fun s a => startsAlone s a = true).Reachable s) :
    ∀ hit ∈ s.shared.hits, hit.1 = hit.2 := by
  have hs : OnTarget s := by
    refine h.invariant ?_ ?_
    · rintro s rfl
      exact onTarget_start
    · intro s a s' hs hstep
      exact onTarget_step hs hstep.1 hstep.2
  exact hs.hits

/-- Statement 0 runs and is cancelled; its packet is on its way. -/
def cancelFirst : List Move :=
  [.spawn (.locking .query (.user [])), .run 2 .proceed, .run 2 .proceed,
    .run 0 .proceed, .run 0 .proceed, .run 0 .proceed, .run 1 .proceed,
    .run 0 .timeout, .run 0 .proceed]

/-- The packet arrives in time. -/
theorem timely_packet_hits_own :
    ∃ s, (session.guarded fun s a => startsAlone s a = true).Reachable s ∧
      s.shared.hits = [(0, 0)] ∧ ∀ hit ∈ s.shared.hits, hit.1 = hit.2 := by
  have hreach := exec_session startsAlone (cancelFirst ++ [.run 1 .proceed]) _ rfl
  exact ⟨_, hreach, rfl, cancel_hits_own hreach⟩

/-- Statement 0 is answered before the packet arrives, and the backend begins statement 1. -/
def beginSecond : List Move :=
  [.run 2 (.outcome true), .run 0 .proceed, .run 0 .proceed, .run 0 .proceed, .run 0 .proceed,
    .run 3 .proceed, .spawn (.locking .query (.user [])), .run 3 .proceed, .run 3 .proceed,
    .run 0 .proceed, .run 0 .proceed, .run 0 .proceed, .run 2 .proceed]

/-- The packet of statement 0 then interrupts statement 1. -/
theorem late_packet_hits_next :
    ¬ ∀ s, session.Reachable s → ∀ hit ∈ s.shared.hits, hit.1 = hit.2 := by
  intro h
  have hreach :=
    exec_session (fun _ _ => true) (cancelFirst ++ beginSecond ++ [.run 1 .proceed]) _ rfl
  have hsame := h _ hreach.of_guarded (0, 1) List.mem_cons_self
  cases hsame

end NzRust.Driver
