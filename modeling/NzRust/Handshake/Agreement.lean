import NzRust.Handshake.Exchange

/-!
# The two handshakes agree

Over any script of a server, cut into chunks in any way, the two engines send
the same bytes and end alike, unless the script leads to an ErrorResponse in one
of the legacy forms.
-/

namespace NzRust.Handshake

open Wire

/-! ## Sessions over a script -/

section Sessions

variable {β : Type} {R : Reader β} {retries : IoErrorKind → Bool} {closed : String}
  {check : Nat → NzResult Unit}

/-- What a session in plaintext has not handed out yet. -/
def Reader.unread (R : Reader β) (retries : IoErrorKind → Bool) (session : β × Transport) : View :=
  match session.2 with
  | .plain s _ => bytesView (R.window session.1) ++ s.items retries
  | .tls s => bytesView (R.window session.1) ++ s.items retries

/-- Without TLS a run is the run over the unread bytes. -/
theorem Reader.Serves.run_plain (h : R.Serves retries closed check) {α : Type} (prog : Step α)
    (b : β) (s : Stream) :
    let run := prog.run R.peer (b, .plain s (.error tlsDisabled))
    let viewRun := prog.run (plainPeer closed check) (bytesView (R.window b) ++ s.items retries)
    run.outcome = viewRun.outcome ∧ run.sent = viewRun.sent ∧
      viewRun.peer = R.unread retries run.peer := by
  have hsim := run_sim (P := R.peer) (Q := plainPeer closed check)
    (fun session view => (∃ stream, session.2 = .plain stream (.error tlsDisabled)) ∧
      view = R.unread retries session) ?_ ?_ prog
    (s := (b, .plain s (.error tlsDisabled))) ⟨⟨s, rfl⟩, rfl⟩
  · exact ⟨hsim.1, hsim.2.1, hsim.2.2.2⟩
  · rintro n ⟨b, transport⟩ view ⟨⟨stream, rfl⟩, rfl⟩
    cases hcheck : check n with
    | error e =>
        have hread := h.rejects n b stream e hcheck
        simp only [Reader.peer, plainPeer, viewPeer, hcheck, hread]
        exact ⟨trivial, ⟨stream, rfl⟩, trivial⟩
    | ok u =>
        have hread := h.reads n b stream hcheck
        simp only [Reader.peer, plainPeer, viewPeer, Reader.unread, hcheck, ← hread]
        exact ⟨trivial, ⟨_, rfl⟩, trivial⟩
  · rintro ⟨b, transport⟩ view ⟨⟨stream, rfl⟩, rfl⟩
    exact ⟨rfl, ⟨stream, rfl⟩, rfl⟩

theorem plainPeer_shrinks : Shrinks (plainPeer closed check) List.length where
  read_le n view := by
    simp only [plainPeer, viewPeer]
    cases check n with
    | error e => exact Nat.le_refl _
    | ok u => exact viewRead_length_le closed n view
  read_lt view bytes hread := by
    simp only [plainPeer, viewPeer] at hread ⊢
    cases hcheck : check 1 with
    | error e =>
        rw [hcheck] at hread
        cases hread
    | ok u =>
        rw [hcheck] at hread
        exact viewRead_length_lt hread
  upgrade_le view := Nat.le_refl _

end Sessions

/-- The server sends the script, cut into chunks in any way, and closes. -/
def Delivers (s : Stream) (script : Bytes) : Prop :=
  ∃ chunks : List Bytes, (∀ chunk ∈ chunks, chunk ≠ []) ∧ s = chunks.map .data ∧
    chunks.flatten = script

theorem Delivers.items {s : Stream} {script : Bytes} (h : Delivers s script)
    (retries : IoErrorKind → Bool) : s.items retries = bytesView script := by
  obtain ⟨chunks, hne, rfl, rfl⟩ := h
  induction chunks with
  | nil => rfl
  | cons chunk chunks ih =>
      rw [List.map_cons, Stream.items_data (hne chunk (.head _)), List.flatten_cons, bytesView_append,
        ih fun c hc => hne c (.tail _ hc)]

theorem sync_check (n : Nat) (hn : n ≤ maxProtocolPayload) :
    ReadBuffer.checkLen n "buffer read" = .ok () := by
  have hsmall : ¬2 ^ 31 ≤ n := by
    have hmax : maxProtocolPayload = 10000000 := rfl
    omega
  rw [ReadBuffer.checkLen, if_neg hsmall,
    validateProtocolLength_eq_ok.mpr ⟨rfl, hn, .inl rfl⟩]
  rfl

theorem native_check (n : Nat) (hn : n ≤ maxProtocolPayload) : asyncCheck n = .ok () := by
  have hmax : maxProtocolPayload = 10000000 := rfl
  have hframe : maxBufferedFrame = 134217728 := rfl
  rw [asyncCheck, if_neg (by omega)]

variable (platform : Platform) (config : NzConnectionConfig) (fuel : Nat)

/-- The handshakes of the two engines with a server that has no TLS to offer. -/
def Sync.session (s : Stream) : Finish NzError HandshakeResult (ReadBuffer × Transport) :=
  (Sync.handshake platform config fuel).run syncReader.peer
    (syncReader.fresh, .plain s (.error tlsDisabled))

def Native.session (s : Stream) : Finish NzError HandshakeResult (Bytes × Transport) :=
  (Native.handshake platform config fuel).run nativeReader.peer
    (nativeReader.fresh, .plain s (.error tlsDisabled))

/-- Both connected alike, or both failed alike, with the same bytes sent. -/
def SameEnd (f : Finish NzError HandshakeResult (ReadBuffer × Transport))
    (g : Finish NzError HandshakeResult (Bytes × Transport)) : Prop :=
  f.sent = g.sent ∧
    ((∃ r, f.outcome = .ok r ∧ g.outcome = .ok r ∧
        syncReader.unread ReadBuffer.retries f.peer = nativeReader.unread (fun _ => false) g.peer) ∨
      ∃ e e', f.outcome = .error e ∧ g.outcome = .error e' ∧ Alike e e')

/-- The server's answers lead to an ErrorResponse with this body. -/
def MeetsError (script body : Bytes) : Prop :=
  let run := (Exchange.handshake platform config fuel).run Exchange.server script
  run.outcome = .error .backendError ∧ run.peer = body

/-- A session over a script ends as the exchange does. -/
theorem Reader.Serves.like {β : Type} {R : Reader β} {retries : IoErrorKind → Bool}
    {closed : String} {check : Nat → NzResult Unit} (h : R.Serves retries closed check)
    (hfresh : R.window R.fresh = []) {ofBody : Bytes → NzError → Prop} {α : Type} {p : Step α}
    {q : Talk α} (hfollows : Follows closed check ofBody p q) {s : Stream} {script : Bytes}
    (hs : Delivers s script) :
    (p.run R.peer (R.fresh, .plain s (.error tlsDisabled))).Like
      (fun session rest => R.unread retries session = bytesView rest) (Reports ofBody)
      (q.run Exchange.server script) := by
  obtain ⟨hout, hsent, hpeer⟩ := h.run_plain p R.fresh s
  rw [hfresh, hs.items] at hout hsent hpeer
  have hlike := hfollows (bytesView script) script rfl
  refine ⟨hsent.trans hlike.sent, ?_, ?_, ?_⟩
  · intro a ha
    obtain ⟨hok, hshows⟩ := hlike.ok a ha
    exact ⟨hout.trans hok, hpeer.symm.trans hshows⟩
  · intro x hx
    obtain ⟨e, he, hK⟩ := hlike.error x hx
    exact ⟨e, hout.trans he, hK⟩
  · intro hu
    exact hout.trans (hlike.unfinished hu)

variable {fuel}

theorem exchange_finishes {script : Bytes} (hfuel : script.length < fuel) :
    ((Exchange.handshake platform config fuel).run Exchange.server script).outcome ≠
      .unfinished := by
  intro hu
  have hfollows : Follows asyncClosedMessage asyncCheck Native.ofBody
      (Native.handshake platform config fuel) (Exchange.handshake platform config fuel) :=
    Native.handshake_follows native_check platform config fuel
  have hshrinks : Shrinks (plainPeer asyncClosedMessage asyncCheck) List.length := plainPeer_shrinks
  have hlength : (bytesView script).length < fuel := by
    rw [bytesView, List.length_map]
    exact hfuel
  exact native_handshake_finishes hshrinks platform config hlength
    ((hfollows (bytesView script) script rfl).unfinished hu)

theorem alike_of_kind {e e' : NzError} {kind : ErrorKind} (h : e.kind = kind) (h' : e'.kind = kind)
    (hne : kind ≠ .database) : Alike e e' := by
  refine ⟨h.trans h'.symm, ?_⟩
  rintro d rfl
  exact absurd h.symm hne

/-- A legacy body is refused by the length-prefixed reading. -/
theorem legacy_refused {body : Bytes} (h : Legacy body) : framedVerdict body = .protocol "" := by
  obtain ⟨hbody, ⟨hall, -⟩ | ⟨hzero, -⟩⟩ := h
  · exact framedVerdict_refused hbody
      (.inr (printable_length (by rw [List.length_take]; omega) hall))
  · exact framedVerdict_refused hbody (.inl (by rw [hzero]; decide))

/-- The engines read a body alike exactly when it is not in a legacy form. -/
theorem alike_iff {body : Bytes} {e e' : NzError} (h : Sync.ofBody body e)
    (h' : Native.ofBody body e') : Alike e e' ↔ ¬Legacy body := by
  constructor
  · rintro ⟨hkind, -⟩ hlegacy
    have hprotocol : e'.kind = .protocol := by
      rw [← h'.1, legacy_refused hlegacy]
      rfl
    rw [hprotocol] at hkind
    obtain hsync | hsync := h.1 hlegacy <;> rw [hsync] at hkind <;> cases hkind
  · intro hlegacy
    obtain ⟨hkind, hdatabase⟩ := h.2 hlegacy
    refine ⟨hkind.symm.trans h'.1, ?_⟩
    rintro d rfl
    cases hverdict : framedVerdict body with
    | database d' =>
        rw [hverdict] at hdatabase
        have hsame := hdatabase d' rfl
        cases hsame
        exact h'.2 d hverdict
    | _ =>
        rw [hverdict] at hkind
        cases hkind

section Agreement

variable {script : Bytes} {s s' : Stream} (hs : Delivers s script) (hs' : Delivers s' script)

include hs hs'

/-- Two failures, for the same reason of the exchange. -/
theorem sameEnd_of_stop {x : Stop}
    (hx : ((Exchange.handshake platform config fuel).run Exchange.server script).outcome = .error x) :
    ∃ e e', Reports Sync.ofBody x
        ((Exchange.handshake platform config fuel).run Exchange.server script).peer e ∧
      Reports Native.ofBody x
        ((Exchange.handshake platform config fuel).run Exchange.server script).peer e' ∧
      (SameEnd (Sync.session platform config fuel s) (Native.session platform config fuel s') ↔
        Alike e e') := by
  have hsync := syncReader_serves.like rfl (Sync.handshake_follows sync_check platform config fuel) hs
  have hnative :=
    nativeReader_serves.like rfl (Native.handshake_follows native_check platform config fuel) hs'
  obtain ⟨e, he, hK⟩ := hsync.error x hx
  obtain ⟨e', he', hK'⟩ := hnative.error x hx
  refine ⟨e, e', hK, hK', ?_⟩
  constructor
  · rintro ⟨-, ⟨r, hr, -⟩ | ⟨d, d', hd, hd', halike⟩⟩
    · cases he.symm.trans hr
    · cases he.symm.trans hd
      cases he'.symm.trans hd'
      exact halike
  · intro halike
    exact ⟨hsync.sent.trans hnative.sent.symm, .inr ⟨e, e', he, he', halike⟩⟩

theorem sameEnd_iff_of_error {body : Bytes} (hmeets : MeetsError platform config fuel script body) :
    SameEnd (Sync.session platform config fuel s) (Native.session platform config fuel s') ↔
      ¬Legacy body := by
  obtain ⟨hout, rfl⟩ := hmeets
  obtain ⟨e, e', hK, hK', hend⟩ := sameEnd_of_stop platform config hs hs' hout
  rw [hend]
  exact alike_iff hK hK'

/-- Every other way to stop is reported alike. -/
theorem sameEnd_of_not_error (hfuel : script.length < fuel)
    (hnone : ((Exchange.handshake platform config fuel).run Exchange.server script).outcome ≠
      .error .backendError) :
    SameEnd (Sync.session platform config fuel s) (Native.session platform config fuel s') := by
  have hsync := syncReader_serves.like rfl (Sync.handshake_follows sync_check platform config fuel) hs
  have hnative :=
    nativeReader_serves.like rfl (Native.handshake_follows native_check platform config fuel) hs'
  cases hout : ((Exchange.handshake platform config fuel).run Exchange.server script).outcome with
  | unfinished => exact absurd hout (exchange_finishes platform config hfuel)
  | ok r =>
      obtain ⟨hok, hunread⟩ := hsync.ok r hout
      obtain ⟨hok', hunread'⟩ := hnative.ok r hout
      exact ⟨hsync.sent.trans hnative.sent.symm,
        .inl ⟨r, hok, hok', hunread.trans hunread'.symm⟩⟩
  | error x =>
      obtain ⟨e, e', hK, hK', hend⟩ := sameEnd_of_stop platform config hs hs' hout
      rw [hend]
      cases x with
      | closed => exact alike_of_kind hK hK' (by decide)
      | refused => exact alike_of_kind hK hK' (by decide)
      | noTls => exact alike_of_kind hK hK' (by decide)
      | backendError => exact absurd hout hnone

/-- The two handshakes end alike exactly when the server's answers do not lead to an ErrorResponse
in one of the legacy forms. -/
theorem handshakes_agree_iff (hfuel : script.length < fuel) :
    SameEnd (Sync.session platform config fuel s) (Native.session platform config fuel s') ↔
      ∀ body, MeetsError platform config fuel script body → ¬Legacy body := by
  constructor
  · intro hsame body hmeets
    exact (sameEnd_iff_of_error platform config hs hs' hmeets).mp hsame
  · intro hbodies
    by_cases hout : ((Exchange.handshake platform config fuel).run Exchange.server script).outcome =
        .error .backendError
    · exact (sameEnd_iff_of_error platform config hs hs' ⟨hout, rfl⟩).mpr (hbodies _ ⟨hout, rfl⟩)
    · exact sameEnd_of_not_error platform config hs hs' hfuel hout

end Agreement

/-- Every request is accepted and no password is asked for. -/
def acceptingScript : Bytes :=
  List.replicate 12 letterN ++ [letterR, 0, 0, 0, 0, letterZ, 0, 0, 0, 0]

/-- Whatever the chunks are in which the server's bytes arrive. -/
theorem accepting_script_agrees :
    SameEnd (Sync.session Engine.samplePlatform Engine.sampleConfig 23 [.data acceptingScript])
      (Native.session Engine.samplePlatform Engine.sampleConfig 23
        [.data (acceptingScript.take 5), .data (acceptingScript.drop 5)]) :=
  (handshakes_agree_iff Engine.samplePlatform Engine.sampleConfig ⟨[acceptingScript], by decide, rfl, rfl⟩
    ⟨[acceptingScript.take 5, acceptingScript.drop 5], by decide, rfl, rfl⟩ (by decide)).mpr
    (by
      rintro body ⟨hout, -⟩
      cases hout)

/-- A refusal as an old server reports it: a text, and no length in front of it. -/
def legacyScript : Bytes :=
  [letterE] ++ [0x6e, 0x6f, 0x20, 0x64, 0x62] ++ [0]

theorem legacyScript_legacy : Legacy (legacyScript.drop 1) := by
  refine ⟨by decide, .inl ⟨by decide, [0x62], [], rfl, ?_, by decide, by decide⟩⟩
  intro b hb
  rw [List.mem_singleton.mp hb]
  decide

theorem legacy_error_differs :
    ¬SameEnd (Sync.session Engine.samplePlatform Engine.sampleConfig 8 [.data legacyScript])
      (Native.session Engine.samplePlatform Engine.sampleConfig 8 [.data legacyScript]) := by
  have hdelivers : Delivers [.data legacyScript] legacyScript :=
    ⟨[legacyScript], by decide, rfl, rfl⟩
  intro hsame
  exact (sameEnd_iff_of_error Engine.samplePlatform Engine.sampleConfig hdelivers hdelivers ⟨rfl, rfl⟩).mp hsame
    legacyScript_legacy

end NzRust.Handshake
