import NzRust.Handshake.Native
import NzRust.Handshake.Peers
import NzRust.Handshake.Sync

/-!
# The TLS boundary of the handshake

Both engines answer the server's `S` with a plaintext frame, replace the
transport and wait for a letter over TLS. The buffer survives the replacement:
what was read together with the `S` is taken for TLS data. The module compares
the runs over two plaintext streams that agree up to the `S`.
-/

namespace NzRust.Handshake

open Wire

/-- The server's plaintext answers from the version request up to and including the `S`: any
number of downgrades, the accepted version, the accepted database. -/
inductive SecureAnswers : Nat → Bytes → Prop where
  | accept (version : Nat) : SecureAnswers version [letterN, letterN, letterS]
  | downgrade {version proposed : Nat} {c : UInt8} {answers : Bytes} :
      proposedVersion c = some proposed → proposed < version → SecureAnswers proposed answers →
        SecureAnswers version (letterM :: c :: answers)

theorem SecureAnswers.length_le {version : Nat} {p : Bytes} (h : SecureAnswers version p) :
    p.length ≤ 2 * version + 3 := by
  induction h with
  | accept version => simp
  | downgrade hc hlt hrest ih =>
      simp only [List.length_cons]
      omega

theorem SecureAnswers.ne_nil {version : Nat} {p : Bytes} (h : SecureAnswers version p) : p ≠ [] := by
  cases h <;> exact List.cons_ne_nil _ _

theorem two_le_of_proposedVersion {c : UInt8} {proposed : Nat}
    (h : proposedVersion c = some proposed) : 2 ≤ proposed := by
  unfold proposedVersion at h
  repeat' split at h
  all_goals
    cases h
    try omega

theorem validateVersionDowngrade_ok {version proposed : Nat} (hlt : proposed < version) :
    validateVersionDowngrade version proposed = .ok () := by
  simp only [validateVersionDowngrade]
  rw [if_neg (by omega)]

section Downgrade

variable {rounds version proposed agreed : Nat} {c : UInt8} {answers sent : Bytes}
  (hc : proposedVersion c = some proposed) (hlt : proposed < version)

include hc hlt

theorem sync_downgrade
    (hrest : (Sync.connHandshakeNegotiate rounds proposed).gives answers = some (sent, agreed)) :
    (Sync.connHandshakeNegotiate (rounds + 1) version).gives (letterM :: c :: answers) =
      some (frame hsv2ClientBegin (i16sPayload [version]) ++ sent, agreed) := by
  unfold Sync.connHandshakeNegotiate
  show Prog.gives _ ([] ++ letterM :: c :: answers) = _
  refine gives_bind rfl ?_
  show Prog.gives _ ([letterM] ++ ([c] ++ answers)) = some ([] ++ ([] ++ sent), agreed)
  refine gives_bind rfl ?_
  rw [List.headD_cons, if_neg (by decide), if_pos rfl]
  refine gives_bind rfl ?_
  simp only [List.headD_cons, hc, validateVersionDowngrade_ok hlt]
  exact hrest

theorem native_downgrade
    (hrest : (Native.negotiateVersion rounds proposed).gives answers = some (sent, agreed)) :
    (Native.negotiateVersion (rounds + 1) version).gives (letterM :: c :: answers) =
      some (frame hsv2ClientBegin (i16sPayload [version]) ++ sent, agreed) := by
  unfold Native.negotiateVersion
  show Prog.gives _ ([] ++ letterM :: c :: answers) = _
  refine gives_bind rfl ?_
  show Prog.gives _ ([letterM] ++ ([c] ++ answers)) = some ([] ++ ([] ++ sent), agreed)
  refine gives_bind rfl ?_
  rw [List.headD_cons, if_neg (by decide), if_pos rfl]
  refine gives_bind rfl ?_
  simp only [List.headD_cons, hc, validateVersionDowngrade_ok hlt]
  exact hrest

end Downgrade

/-- Both engines go through the negotiation with the same frames. -/
theorem negotiate_gives {version : Nat} {p : Bytes} (h : SecureAnswers version p) (rounds : Nat)
    (hrounds : version ≤ rounds + 1) :
    ∃ answers sent agreed, p = answers ++ [letterN, letterS] ∧
      (Sync.connHandshakeNegotiate (rounds + 1) version).gives answers = some (sent, agreed) ∧
      (Native.negotiateVersion (rounds + 1) version).gives answers = some (sent, agreed) := by
  induction h generalizing rounds with
  | accept version => exact ⟨[letterN], _, version, rfl, rfl, rfl⟩
  | @downgrade version proposed c answers hc hlt hrest ih =>
      have htwo := two_le_of_proposedVersion hc
      obtain ⟨rounds, rfl⟩ : ∃ r, rounds = r + 1 := ⟨rounds - 1, by omega⟩
      obtain ⟨answers', sent, agreed, rfl, hsync, hnative⟩ := ih rounds (by omega)
      exact ⟨letterM :: c :: answers', frame hsv2ClientBegin (i16sPayload [version]) ++ sent,
        agreed, rfl, sync_downgrade hc hlt hsync, native_downgrade hc hlt hnative⟩

/-! ## The confirmation over TLS -/

section Confirmation

variable (platform : Platform) (config : NzConnectionConfig) (fuel : Nat)

/-- What the synchronous handshake does once the transport is TLS. -/
def Sync.afterUpgrade (version : Nat) : Step HandshakeResult :=
  ((Sync.expectN platform "sslHandshake").mapError (Sync.stageError platform "ssl-confirm")).bind
    fun _ => Sync.connRest platform config fuel version

def Native.afterUpgrade (version : Nat) : Step HandshakeResult :=
  (Native.expectAck "sslHandshake").bind fun _ =>
    (Native.sendOptions (optionPlan platform config version)).bind fun _ =>
      (Native.authenticate platform config.password).bind fun _ =>
        Native.connectionComplete fuel ⟨0, 0⟩

theorem sync_feed {p : Bytes} (h : SecureAnswers 6 p) :
    ∃ sent next version, (Sync.handshake platform config fuel).feed p = some (sent, next) ∧
      next (.ok ()) = Sync.afterUpgrade platform config fuel version ∧
      ∀ e, next (.error e) = .fail (Sync.stageError platform "tls-upgrade" e) := by
  obtain ⟨answers, sent, version, rfl, hsync, -⟩ := negotiate_gives h 5 (by omega)
  refine ⟨_, _, version, feed_bind answers [letterN, letterS] (gives_mapError _ hsync)
    (feed_bind [letterN] _ rfl (feed_bind [letterS] _ rfl rfl)), rfl, fun _ => rfl⟩

theorem native_feed {p : Bytes} (h : SecureAnswers 6 p) :
    ∃ sent next version, (Native.handshake platform config fuel).feed p = some (sent, next) ∧
      next (.ok ()) = Native.afterUpgrade platform config fuel version ∧
      ∀ e, next (.error e) = .fail e := by
  obtain ⟨answers, sent, version, rfl, -, hnative⟩ := negotiate_gives h 5 (by omega)
  refine ⟨_, _, version, feed_bind answers [letterN, letterS] hnative
    (feed_bind [] _ rfl (feed_bind [letterN] _ rfl rfl)), rfl, fun _ => rfl⟩

/-! ### Error frames write nothing -/

theorem legacyByte_silent (minChars : Nat) (chars : Bytes) {more : Bytes → Step (Option Bytes)}
    (hmore : ∀ chars, Silent (more chars)) (r : NzResult Bytes) :
    Silent (Sync.legacyByte minChars chars more r) := by
  cases r with
  | error e => exact .ret _
  | ok bytes =>
      unfold Sync.legacyByte
      dsimp only
      split
      · exact .ret _
      split
      · exact hmore _
      · exact .ret _

theorem legacyLoop_silent (minChars room : Nat) (chars : Bytes) :
    Silent (Sync.legacyLoop minChars room chars) := by
  induction room generalizing chars with
  | zero => exact .read 1 _ (legacyByte_silent minChars chars fun _ => .ret _)
  | succ room ih => exact .read 1 _ (legacyByte_silent minChars chars ih)

theorem readLegacyErrorText_silent (minChars : Nat) (chars : Bytes) :
    Silent (Sync.readLegacyErrorText minChars chars) := by
  unfold Sync.readLegacyErrorText
  split
  · exact .ret _
  · exact legacyLoop_silent _ _ _

variable {α : Type}

theorem framedError_aborts (stage : String) (len : Int) :
    Aborts (Sync.framedError stage len : Step α) := by
  unfold Sync.framedError
  split
  · exact .fail _
  split
  · split
    · exact .fail _
    · exact Silent.aborts (.take _) fun _ => .fail _
  · exact .fail _

theorem textOr_aborts {fallback : Step α} (h : Aborts fallback) (text : Option Bytes) :
    Aborts (Sync.textOr fallback text) := by
  cases text with
  | none => exact h
  | some text => exact .fail _

theorem zeroLengthError_aborts (stage : String) (len : Int) (r : NzResult Bytes) :
    Aborts (Sync.zeroLengthError stage len r : Step α) := by
  cases r with
  | error e => exact .fail _
  | ok bytes =>
      unfold Sync.zeroLengthError
      dsimp only
      split
      · exact .fail _
      split
      · exact (readLegacyErrorText_silent _ _).aborts (textOr_aborts (framedError_aborts _ _))
      · exact framedError_aborts _ _

theorem throwBackendError_aborts (stage : String) :
    Aborts (Sync.throwBackendError stage : Step α) := by
  refine Silent.aborts (.take 4) fun lenBuf => ?_
  have hframed : Aborts (if ByteString.beInt lenBuf = 0 then
      .read 1 (Sync.zeroLengthError stage (ByteString.beInt lenBuf))
      else Sync.framedError stage (ByteString.beInt lenBuf) : Step α) := by
    split
    · exact .read 1 _ (zeroLengthError_aborts _ _)
    · exact framedError_aborts _ _
  dsimp only
  split
  · exact (readLegacyErrorText_silent _ _).aborts (textOr_aborts hframed)
  · exact hframed

theorem readBackendError_aborts (stage : String) :
    Aborts (Native.readBackendError stage : Step α) := by
  refine Silent.aborts (.bind (.take 4) fun _ => .ret _) fun length => ?_
  split
  · exact .fail _
  split
  · exact Silent.aborts (.bind (.ofExcept _) fun _ => .take _) fun _ => .fail _
  · exact .fail _

/-! ### The letter `N` -/

theorem sync_gated (version : Nat) :
    Gated letterN (Sync.afterUpgrade platform config fuel version) where
  gate := by
    refine ⟨_, rfl, fun e => .fail _, fun b hb => ?_, ⟨_, _, _, rfl⟩⟩
    show Aborts (((if b = letterN then _ else if b = letterE then _ else _ : Step Unit).mapError _).bind _)
    rw [if_neg hb]
    split
    · exact ((throwBackendError_aborts _).mapError _).bind _
    · exact .fail _

theorem native_gated (version : Nat) :
    Gated letterN (Native.afterUpgrade platform config fuel version) where
  gate := by
    refine ⟨_, rfl, fun e => .fail _, fun b hb => ?_, ⟨_, _, _, rfl⟩⟩
    show Aborts ((if b = letterN then _ else if b = letterE then _ else _ : Step Unit).bind _)
    rw [if_neg hb]
    split
    · exact (readBackendError_aborts _).bind _
    · exact .fail _

end Confirmation

/-! ## Two runs -/

inductive Engine where
  | sync
  | native
  deriving DecidableEq, Repr

namespace Engine

def retries : Engine → IoErrorKind → Bool
  | .sync => ReadBuffer.retries
  | .native => fun _ => false

/-- A session of the engine once its transport stays, as a sequence of bytes. -/
def viewPeer : Engine → Peer NzError View
  | .sync => Handshake.viewPeer ReadBuffer.closedMessage (ReadBuffer.checkLen · "buffer read")
  | .native => Handshake.viewPeer asyncClosedMessage asyncCheck

/-- The server's plaintext starts with the given answers. -/
def Begins (engine : Engine) (plain : Stream) (answers : Bytes) : Prop :=
  ∃ rest, plain.items engine.retries = bytesView answers ++ rest

variable (platform : Platform) (config : NzConnectionConfig) (fuel : Nat)

/-- How the handshake ends and what it sends, for the plaintext the server sends before the
upgrade and the stream that the upgrade yields. -/
def handshake (engine : Engine) (plain : Stream) (tls : NzResult Stream) :
    Outcome NzError HandshakeResult × Bytes :=
  match engine with
  | .sync =>
      let r := (Sync.handshake platform config fuel).run syncReader.peer
        (syncReader.fresh, .plain plain tls)
      (r.outcome, r.sent)
  | .native =>
      let r := (Native.handshake platform config fuel).run nativeReader.peer
        (nativeReader.fresh, .plain plain tls)
      (r.outcome, r.sent)

def afterUpgrade : Engine → Nat → Step HandshakeResult
  | .sync => Sync.afterUpgrade platform config fuel
  | .native => Native.afterUpgrade platform config fuel

theorem gated (engine : Engine) (version : Nat) :
    Gated letterN (engine.afterUpgrade platform config fuel version) := by
  cases engine with
  | sync => exact sync_gated platform config fuel version
  | native => exact native_gated platform config fuel version

/-- A run over given answers: the part up to the upgrade depends on them only, the part behind
it sees the window in front of the TLS stream. -/
structure Crosses (engine : Engine) (answers sent : Bytes) (version : Nat)
    (refused : NzError → NzError) (plain : Stream) (window : Bytes) : Prop where
  window_eq_nil_iff : window = [] ↔ plain.readAhead answers.length = []
  window_le : window <+: plain.readAhead answers.length
  failed : ∀ e, engine.handshake platform config fuel plain (.error e) = (.error (refused e), sent)
  secured : ∀ secure,
    engine.handshake platform config fuel plain (.ok secure) =
      (((engine.afterUpgrade platform config fuel version).run engine.viewPeer
          (bytesView window ++ secure.items engine.retries)).outcome,
        sent ++ ((engine.afterUpgrade platform config fuel version).run engine.viewPeer
          (bytesView window ++ secure.items engine.retries)).sent)

variable {platform config fuel}

theorem sync_crosses {answers : Bytes} (h : SecureAnswers 6 answers) :
    ∃ sent version refused, ∀ plain, Engine.sync.Begins plain answers →
      ∃ window, Crosses platform config fuel .sync answers sent version refused plain window := by
  obtain ⟨sent, next, version, hfeed, hok, herror⟩ := sync_feed platform config fuel h
  refine ⟨sent, version, Sync.stageError platform "tls-upgrade", fun plain hbegins => ?_⟩
  obtain ⟨rest, hitems⟩ := hbegins
  have hlen := h.length_le
  have hview : ReadBuffer.new.view plain = bytesView answers ++ rest := hitems
  have hstands : Stands ReadBuffer.new plain (plain.after 0) := by
    rw [Stream.after_zero]
    exact ⟨ReadBuffer.new_length, .inl ⟨rfl, rfl⟩⟩
  obtain ⟨b, s, htakes, hstands', hstart⟩ := sync_takes answers hstands rfl (by omega) hview
  rw [Nat.zero_add] at hstands' hstart
  refine ⟨b.slice, slice_eq_nil_iff hstands' (by omega), slice_le hstands', fun e => ?_,
    fun secure => ?_⟩
  · obtain ⟨hout, hsent⟩ := run_feed hfeed (htakes (.error e))
    simp only [Reader.peer, Transport.upgrade, herror, Prog.run, List.append_nil] at hout hsent
    exact Prod.ext hout hsent
  · obtain ⟨hout, hsent⟩ := run_feed hfeed (htakes (.ok secure))
    obtain ⟨hout', hsent'⟩ := syncReader_serves.run_tls (next (.ok ())) b secure
    rw [hok] at hout' hsent'
    refine Prod.ext (hout.trans ?_) (hsent.trans ?_)
    · simp only [Reader.peer, Transport.upgrade, hok]
      exact hout'
    · simp only [Reader.peer, Transport.upgrade, hok]
      exact congrArg (sent ++ ·) hsent'

theorem native_crosses {answers : Bytes} (h : SecureAnswers 6 answers) :
    ∃ sent version refused, ∀ plain, Engine.native.Begins plain answers →
      ∃ window, Crosses platform config fuel .native answers sent version refused plain window := by
  obtain ⟨sent, next, version, hfeed, hok, herror⟩ := native_feed platform config fuel h
  refine ⟨sent, version, id, fun plain hbegins => ?_⟩
  obtain ⟨rest, hitems⟩ := hbegins
  have hview : bytesView (plain.after 0).1 ++ (plain.after 0).2.items (fun _ => false) =
      bytesView answers ++ rest := by
    rw [Stream.after_zero]
    exact hitems
  have htakes (tls : NzResult Stream) := native_takes plain tls answers 0 hview
  simp only [Stream.after_zero, Nat.zero_add] at htakes
  refine ⟨plain.readAhead answers.length, Iff.rfl, List.prefix_rfl, fun e => ?_, fun secure => ?_⟩
  · obtain ⟨hout, hsent⟩ := run_feed hfeed (htakes (.error e))
    simp only [Reader.peer, Transport.upgrade, herror, Prog.run, List.append_nil] at hout hsent
    exact Prod.ext hout hsent
  · obtain ⟨hout, hsent⟩ := run_feed hfeed (htakes (.ok secure))
    obtain ⟨hout', hsent'⟩ :=
      nativeReader_serves.run_tls (next (.ok ())) (plain.readAhead answers.length) secure
    rw [hok] at hout' hsent'
    refine Prod.ext (hout.trans ?_) (hsent.trans ?_)
    · simp only [Reader.peer, Transport.upgrade, hok]
      exact hout'
    · simp only [Reader.peer, Transport.upgrade, hok]
      exact congrArg (sent ++ ·) hsent'

variable (platform config fuel) in
theorem crosses (engine : Engine) {answers : Bytes} (h : SecureAnswers 6 answers) :
    ∃ sent version refused, ∀ plain, engine.Begins plain answers →
      ∃ window, Crosses platform config fuel engine answers sent version refused plain window := by
  cases engine with
  | sync => exact sync_crosses h
  | native => exact native_crosses h

/-! ### Runs without read-ahead agree, and others can be told apart -/

theorem handshake_eq_of_no_readAhead (engine : Engine) {answers : Bytes}
    (h : SecureAnswers 6 answers) {plain plain' : Stream} (hplain : engine.Begins plain answers)
    (hplain' : engine.Begins plain' answers) (hnone : plain.readAhead answers.length = [])
    (hnone' : plain'.readAhead answers.length = []) (tls : NzResult Stream) :
    engine.handshake platform config fuel plain tls =
      engine.handshake platform config fuel plain' tls := by
  obtain ⟨sent, version, refused, hcross⟩ := crosses platform config fuel engine h
  obtain ⟨window, hrun⟩ := hcross plain hplain
  obtain ⟨window', hrun'⟩ := hcross plain' hplain'
  have hwindow : window = window' := by
    rw [hrun.window_eq_nil_iff.mpr hnone, hrun'.window_eq_nil_iff.mpr hnone']
  subst hwindow
  cases tls with
  | error e => rw [hrun.failed, hrun'.failed]
  | ok secure => rw [hrun.secured, hrun'.secured]

theorem viewPeer_read_byte (engine : Engine) (b : UInt8) (view : View) :
    (engine.viewPeer.read 1 (.byte b :: view)).1 = .ok [b] := by
  cases engine <;> rfl

theorem viewPeer_read_end (engine : Engine) : ∃ e, (engine.viewPeer.read 1 []).1 = .error e := by
  cases engine <;> exact ⟨_, rfl⟩

/-- The stream that brings the answers and nothing else. -/
theorem bare_begins (engine : Engine) (answers : Bytes) (hne : answers ≠ []) :
    engine.Begins [.data answers] answers ∧ Stream.readAhead [.data answers] answers.length = [] := by
  obtain ⟨b, bs, rfl⟩ := List.exists_cons_of_ne_nil hne
  refine ⟨⟨[], ?_⟩, ?_⟩
  · rw [Stream.items_data (List.cons_ne_nil b bs)]
    rfl
  · simp [Stream.readAhead, Stream.after]

/-- The TLS stream that tells a byte read ahead from TLS data: it withholds the confirmation
that the byte gives, or gives the one that the byte withholds. -/
def probe (b : UInt8) : NzResult Stream :=
  .ok (if b = letterN then [] else [.data [letterN]])

theorem probe_letterN : probe letterN = .ok [] := rfl

/-- Bytes read ahead are taken for the confirmation. -/
theorem probe_distinguishes (engine : Engine) {answers : Bytes} (h : SecureAnswers 6 answers)
    {plain : Stream} (hplain : engine.Begins plain answers) {b : UInt8} {bs : Bytes}
    (hahead : plain.readAhead answers.length = b :: bs) :
    engine.handshake platform config fuel plain (probe b) ≠
      engine.handshake platform config fuel [.data answers] (probe b) := by
  obtain ⟨sent, version, refused, hcross⟩ := crosses platform config fuel engine h
  obtain ⟨hbare, hnone⟩ := bare_begins engine answers h.ne_nil
  obtain ⟨window, hrun⟩ := hcross plain hplain
  obtain ⟨window', hrun'⟩ := hcross _ hbare
  have hgate := engine.gated platform config fuel version
  have hempty : window' = [] := hrun'.window_eq_nil_iff.mpr hnone
  subst hempty
  have hwindow : ∃ cs, window = b :: cs := by
    have hle := hrun.window_le
    rw [hahead] at hle
    rcases List.prefix_cons_iff.mp hle with hnil | ⟨cs, hcons, -⟩
    · have hahead' := hrun.window_eq_nil_iff.mp hnil
      rw [hahead] at hahead'
      cases hahead'
    · exact ⟨cs, hcons⟩
  obtain ⟨cs, rfl⟩ := hwindow
  intro heq
  unfold probe at heq
  rw [hrun.secured, hrun'.secured] at heq
  have hsent := List.append_cancel_left (congrArg Prod.snd heq)
  have hread := engine.viewPeer_read_byte b
  by_cases hb : b = letterN
  · -- an injected confirmation is accepted although TLS delivers nothing
    rw [if_pos hb] at hsent
    obtain ⟨e, hend⟩ := engine.viewPeer_read_end
    exact hgate.sent_ne_nil (by rw [← hb]; exact hread _)
      (hsent.trans (hgate.sent_eq_nil_of_error hend))
  · -- the confirmation that TLS delivers is not the byte that is read
    rw [if_neg hb] at hsent
    exact hgate.sent_ne_nil (engine.viewPeer_read_byte letterN [])
      (hsent.symm.trans (hgate.sent_eq_nil_of_byte (hread _) hb))

/-- The plaintext leaves no trace behind the upgrade exactly when the read that delivers the `S`
delivers nothing after it. -/
theorem plaintext_isolated_iff (engine : Engine) (platform : Platform) (config : NzConnectionConfig)
    (fuel : Nat) {answers : Bytes} (h : SecureAnswers 6 answers) {plain : Stream}
    (hplain : engine.Begins plain answers) :
    (∀ plain', engine.Begins plain' answers → plain'.readAhead answers.length = [] → ∀ tls,
      engine.handshake platform config fuel plain tls =
        engine.handshake platform config fuel plain' tls) ↔
      plain.readAhead answers.length = [] := by
  constructor
  · intro hsame
    by_contra hahead
    obtain ⟨b, bs, hcons⟩ := List.exists_cons_of_ne_nil hahead
    obtain ⟨hbare, hnone⟩ := bare_begins engine answers h.ne_nil
    exact probe_distinguishes engine h hplain hcons (hsame _ hbare hnone (probe b))
  · intro hnone plain' hplain' hnone' tls
    exact handshake_eq_of_no_readAhead engine h hplain hplain' hnone hnone' tls

/-- A configuration with empty names, and a platform whose digests are empty. -/
def sampleConfig : NzConnectionConfig :=
  ⟨[], [], [], .preferredSecuredSession, [], [], [], 3⟩

def samplePlatform : Platform :=
  ⟨[], 0, fun _ => [], fun _ => [], fun _ => ""⟩

/-- The `S` ends its chunk; the chunk behind it is never read in plaintext. -/
theorem chunk_end_isolated :
    Engine.sync.Begins [.data [letterN, letterN, letterS], .data [letterN]]
        [letterN, letterN, letterS] ∧
      Stream.readAhead [.data [letterN, letterN, letterS], .data [letterN]] 3 = [] ∧
      Engine.sync.handshake samplePlatform sampleConfig 8
          [.data [letterN, letterN, letterS], .data [letterN]] (.ok []) =
        Engine.sync.handshake samplePlatform sampleConfig 8
          [.data [letterN], .data [letterN, letterS]] (.ok []) :=
  have hbegins : Engine.sync.Begins [.data [letterN, letterN, letterS], .data [letterN]]
      [letterN, letterN, letterS] := ⟨[.byte letterN], rfl⟩
  ⟨hbegins, rfl, (plaintext_isolated_iff .sync samplePlatform sampleConfig 8 (.accept 6)
    hbegins).mpr rfl _ ⟨[], rfl⟩ rfl _⟩

/-- A plaintext `N` in the chunk of the `S` stands for the confirmation that never came. -/
theorem injected_confirmation_accepted :
    (Engine.sync.Begins [.data [letterN, letterN, letterS, letterN]] [letterN, letterN, letterS] ∧
      Engine.sync.handshake samplePlatform sampleConfig 8
          [.data [letterN, letterN, letterS, letterN]] (.ok []) ≠
        Engine.sync.handshake samplePlatform sampleConfig 8
          [.data [letterN, letterN, letterS]] (.ok [])) ∧
    (Engine.native.Begins [.data [letterN, letterN, letterS, letterN]] [letterN, letterN, letterS] ∧
      Engine.native.handshake samplePlatform sampleConfig 8
          [.data [letterN, letterN, letterS, letterN]] (.ok []) ≠
        Engine.native.handshake samplePlatform sampleConfig 8
          [.data [letterN, letterN, letterS]] (.ok [])) := by
  have hbegins (engine : Engine) : engine.Begins [.data [letterN, letterN, letterS, letterN]]
      [letterN, letterN, letterS] := ⟨[.byte letterN], by cases engine <;> rfl⟩
  have hdiffers (engine : Engine) :
      engine.handshake samplePlatform sampleConfig 8 [.data [letterN, letterN, letterS, letterN]]
          (probe letterN) ≠
        engine.handshake samplePlatform sampleConfig 8 [.data [letterN, letterN, letterS]]
          (probe letterN) :=
    probe_distinguishes engine (.accept 6) (hbegins engine) (show _ = [letterN] from rfl)
  simp only [probe_letterN] at hdiffers
  exact ⟨⟨hbegins .sync, hdiffers .sync⟩, ⟨hbegins .native, hdiffers .native⟩⟩

end Engine

end NzRust.Handshake
