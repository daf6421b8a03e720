import NzRust.Handshake.Boundary

/-!
# The handshake ends

The wait for ReadyForQuery uses one unit of fuel for each message, and every
message has at least one byte. As much fuel as the server has bytes therefore
never runs out, and neither do the six rounds of the version negotiation.
-/

namespace NzRust.Handshake

open Wire

variable {α σ : Type}

/-! ## Stages -/

theorem readByte_total : Total Sync.readByte :=
  .of_silent (.bind (.take 1) fun _ => .ret _)

theorem readI32_total : Total Sync.readI32 :=
  .of_silent (.bind (.take 4) fun _ => .ret _)

theorem readBytes_total (len : Nat) : Total (Native.readBytes len) :=
  .of_silent (.bind (.ofExcept _) fun _ => .take _)

theorem expectN_total (platform : Platform) (stage : String) :
    Total (Sync.expectN platform stage) := by
  refine .bind (.mapError _ readByte_total) fun b => ?_
  split
  · exact .ret _
  split
  · exact .of_aborts (throwBackendError_aborts _)
  · exact .fail _

theorem expectAck_total (stage : String) : Total (Native.expectAck stage) := by
  refine .bind readByte_total fun b => ?_
  split
  · exact .ret _
  split
  · exact .of_aborts (readBackendError_aborts _)
  · exact .fail _

/-- The rounds cover every strict downgrade. -/
theorem connHandshakeNegotiate_total {rounds version : Nat} (htwo : 2 ≤ version)
    (h : version ≤ rounds + 1) : Total (Sync.connHandshakeNegotiate rounds version) := by
  induction rounds generalizing version with
  | zero => omega
  | succ rounds ih =>
      refine .bind (.send _) fun _ => .bind readByte_total fun beresp => ?_
      split
      · exact .ret _
      split
      · refine .bind readByte_total fun c => ?_
        split
        · exact .fail _
        case h_2 proposed hc =>
          by_cases hlt : version ≤ proposed
          · rw [validateVersionDowngrade, if_pos hlt]
            exact .fail _
          · rw [validateVersionDowngrade, if_neg hlt]
            exact ih (two_le_of_proposedVersion hc) (by omega)
      split
      · exact .of_aborts (throwBackendError_aborts _)
      · exact .fail _

theorem negotiateVersion_total {rounds version : Nat} (htwo : 2 ≤ version)
    (h : version ≤ rounds + 1) : Total (Native.negotiateVersion rounds version) := by
  induction rounds generalizing version with
  | zero => omega
  | succ rounds ih =>
      refine .bind (.send _) fun _ => .bind readByte_total fun b => ?_
      split
      · exact .ret _
      split
      · refine .bind readByte_total fun c => ?_
        split
        · exact .fail _
        case h_2 proposed hc =>
          by_cases hlt : version ≤ proposed
          · rw [validateVersionDowngrade, if_pos hlt]
            exact .fail _
          · rw [validateVersionDowngrade, if_neg hlt]
            exact ih (two_le_of_proposedVersion hc) (by omega)
      split
      · exact .of_aborts (readBackendError_aborts _)
      · exact .fail _

theorem connSendDatabase_total (database : Bytes) : Total (Sync.connSendDatabase database) := by
  refine .bind (.send _) fun _ => .bind readByte_total fun beresp => ?_
  split
  · exact .ret _
  split
  · exact .of_aborts (throwBackendError_aborts _)
  · exact .fail _

theorem connSecureSession_total (level : SecurityLevel) : Total (Sync.connSecureSession level) := by
  refine .bind (.send _) fun _ => .bind readByte_total fun beresp => ?_
  split
  · split
    · exact .fail _
    · exact .ret _
  split
  · exact .ret _
  split
  · exact .of_aborts (throwBackendError_aborts _)
  · exact .fail _

theorem connUpgrade_total (platform : Platform) : Total (Sync.connUpgrade platform) :=
  .bind (.mapError _ (.send _)) fun _ => .bind (.mapError _ .switch) fun _ =>
    .mapError _ (expectN_total _ _)

theorem secureSession_total (level : SecurityLevel) : Total (Native.secureSession level) := by
  refine .bind (.send _) fun _ => .bind readByte_total fun b => ?_
  split
  · exact .ret _
  split
  · exact .bind (.send _) fun _ => .bind .switch fun _ => expectAck_total _
  split
  · exact .fail _
  split
  · exact .of_aborts (readBackendError_aborts _)
  · exact .fail _

theorem sync_sendOptions_total (platform : Platform) (options : List HandshakeOption) :
    Total (Sync.sendOptions platform options) := by
  induction options with
  | nil => exact .ret _
  | cons option options ih =>
      refine .bind (.bind (.send _) fun _ => ?_) fun _ => ih
      split
      · exact expectN_total _ _
      · exact .ret _

theorem native_sendOptions_total (options : List HandshakeOption) :
    Total (Native.sendOptions options) := by
  induction options with
  | nil => exact .ret _
  | cons option options ih =>
      refine .bind (.bind (.send _) fun _ => ?_) fun _ => ih
      split
      · exact expectAck_total _
      · exact .ret _

theorem connAuthenticate_total (platform : Platform) (password : Bytes) :
    Total (Sync.connAuthenticate platform password) := by
  refine .bind readByte_total fun beresp => ?_
  split
  · exact .of_aborts (throwBackendError_aborts _)
  split
  · refine .bind readI32_total fun request => .bind (.of_silent (.ofExcept _)) fun saltLen =>
      .bind (.of_silent (.take _)) fun salt => .bind (.of_silent (.ofExcept _)) fun response => ?_
    split
    · exact .send _
    · exact .ret _
  · exact .fail _

theorem authenticate_total (platform : Platform) (password : Bytes) :
    Total (Native.authenticate platform password) := by
  refine .bind readByte_total fun b => ?_
  split
  · refine .bind readI32_total fun request => .bind (.of_silent (.ofExcept _)) fun saltLen =>
      .bind (readBytes_total _) fun salt => .bind (.of_silent (.ofExcept _)) fun response => ?_
    split
    · exact .send _
    · exact .ret _
  split
  · exact .of_aborts (readBackendError_aborts _)
  · exact .fail _

/-! ## The wait for ReadyForQuery -/

section Fuel

variable {P : Peer NzError σ} {size : σ → Nat}

theorem connConnectionComplete_finishes (h : Shrinks P size) {fuel : Nat} (result : HandshakeResult)
    {s : σ} (hfuel : size s < fuel) :
    ((Sync.connConnectionComplete fuel result).run P s).outcome ≠ .unfinished := by
  induction fuel generalizing result s with
  | zero => omega
  | succ fuel ih =>
      have hloop (result : HandshakeResult) (s' : σ) (hlt : size s' < size s) :
          ((Sync.connConnectionComplete fuel result).run P s').outcome ≠ .unfinished :=
        ih result (by omega)
      refine h.finishes_read (fun e s' => (Total.fail e).finishes s') fun bytes s₁ h₁ => ?_
      show ((if bytes.headD 0 = 0 then _ else _ : Step HandshakeResult).run P s₁).outcome ≠ _
      split
      · exact hloop _ _ h₁
      split
      · refine h.finishes_bind readI32_total fun _ s₂ h₂ => hloop _ _ (by omega)
      split
      · exact (Total.of_aborts (throwBackendError_aborts _)).finishes _
      refine h.finishes_bind (.of_silent (.take 4)) fun _ s₂ h₂ => ?_
      split
      · refine h.finishes_bind (.of_silent (.take 4)) fun _ s₃ h₃ => ?_
        refine h.finishes_bind readI32_total fun pid s₄ h₄ => ?_
        exact h.finishes_bind readI32_total fun key s₅ h₅ => hloop _ _ (by omega)
      split
      · exact (Total.ret _).finishes _
      split
      · refine h.finishes_bind readI32_total fun len s₃ h₃ => ?_
        refine h.finishes_bind (.of_silent (.ofExcept _)) fun len s₄ h₄ => ?_
        exact h.finishes_bind (.of_silent (.take _)) fun _ s₅ h₅ => hloop _ _ (by omega)
      · exact (Total.fail _).finishes _

theorem connectionComplete_finishes (h : Shrinks P size) {fuel : Nat} (result : HandshakeResult)
    {s : σ} (hfuel : size s < fuel) :
    ((Native.connectionComplete fuel result).run P s).outcome ≠ .unfinished := by
  induction fuel generalizing result s with
  | zero => omega
  | succ fuel ih =>
      have hloop (result : HandshakeResult) (s' : σ) (hlt : size s' < size s) :
          ((Native.connectionComplete fuel result).run P s').outcome ≠ .unfinished :=
        ih result (by omega)
      have hskip : Total (Native.skipBytes 4) := .of_silent (.bind (.take 4) fun _ => .ret _)
      refine h.finishes_read (fun e s' => (Total.fail e).finishes s') fun bytes s₁ h₁ => ?_
      show ((if bytes.headD 0 = 0 then _ else _ : Step HandshakeResult).run P s₁).outcome ≠ _
      split
      · exact hloop _ _ h₁
      split
      · refine h.finishes_bind readI32_total fun _ s₂ h₂ => hloop _ _ (by omega)
      split
      · exact (Total.of_aborts (readBackendError_aborts _)).finishes _
      refine h.finishes_bind hskip fun _ s₂ h₂ => ?_
      split
      · refine h.finishes_bind hskip fun _ s₃ h₃ => ?_
        refine h.finishes_bind readI32_total fun pid s₄ h₄ => ?_
        exact h.finishes_bind readI32_total fun key s₅ h₅ => hloop _ _ (by omega)
      split
      · exact (Total.ret _).finishes _
      split
      · refine h.finishes_bind readI32_total fun len s₃ h₃ => ?_
        refine h.finishes_bind (.of_silent (.ofExcept _)) fun len s₄ h₄ => ?_
        exact h.finishes_bind (readBytes_total _) fun _ s₅ h₅ => hloop _ _ (by omega)
      · exact (Total.fail _).finishes _

theorem sync_handshake_finishes (h : Shrinks P size) (platform : Platform)
    (config : NzConnectionConfig) {fuel : Nat} {s : σ} (hfuel : size s < fuel) :
    ((Sync.handshake platform config fuel).run P s).outcome ≠ .unfinished := by
  refine h.finishes_bind (.mapError _ (connHandshakeNegotiate_total (by omega) (by omega)))
    fun version s₁ h₁ => ?_
  refine h.finishes_bind (.mapError _ (connSendDatabase_total _)) fun _ s₂ h₂ => ?_
  refine h.finishes_bind (.mapError _ (connSecureSession_total _)) fun secure s₃ h₃ => ?_
  have hupgrade : Total (if secure then Sync.connUpgrade platform else .ret () : Step Unit) := by
    split
    · exact connUpgrade_total platform
    · exact .ret _
  refine h.finishes_bind hupgrade fun _ s₄ h₄ => ?_
  refine h.finishes_bind (.mapError _ (sync_sendOptions_total _ _)) fun _ s₅ h₅ => ?_
  refine h.finishes_bind (.mapError _ (connAuthenticate_total _ _)) fun _ s₆ h₆ => ?_
  exact finishes_mapError _ (connConnectionComplete_finishes h _ (by omega))

theorem native_handshake_finishes (h : Shrinks P size) (platform : Platform)
    (config : NzConnectionConfig) {fuel : Nat} {s : σ} (hfuel : size s < fuel) :
    ((Native.handshake platform config fuel).run P s).outcome ≠ .unfinished := by
  refine h.finishes_bind (negotiateVersion_total (by omega) (by omega)) fun version s₁ h₁ => ?_
  refine h.finishes_bind (.send _) fun _ s₂ h₂ => ?_
  refine h.finishes_bind (expectAck_total _) fun _ s₃ h₃ => ?_
  refine h.finishes_bind (secureSession_total _) fun _ s₄ h₄ => ?_
  refine h.finishes_bind (native_sendOptions_total _) fun _ s₅ h₅ => ?_
  refine h.finishes_bind (authenticate_total _ _) fun _ s₆ h₆ => ?_
  exact connectionComplete_finishes h _ (by omega)

end Fuel

/-! ## Sessions -/

/-- How much a transport may still deliver, its TLS stream included. -/
def Transport.weight (retries : IoErrorKind → Bool) : Transport → Nat
  | .plain s (.ok secure) => (s.items retries).length + (secure.items retries).length
  | .plain s (.error _) => (s.items retries).length
  | .tls s => (s.items retries).length

theorem Reader.Serves.read_weight {β : Type} {R : Reader β} {retries : IoErrorKind → Bool}
    {closed : String} {check : Nat → NzResult Unit} (h : R.Serves retries closed check) (n : Nat)
    (b : β) (s : Stream) :
    (R.window (R.read n b s).2.1).length + ((R.read n b s).2.2.items retries).length ≤
        (R.window b).length + (s.items retries).length ∧
      (∀ m bytes, n = m + 1 → (R.read n b s).1 = .ok bytes →
        (R.window (R.read n b s).2.1).length + ((R.read n b s).2.2.items retries).length <
          (R.window b).length + (s.items retries).length) := by
  cases hcheck : check n with
  | error e =>
      rw [h.rejects n b s e hcheck]
      exact ⟨Nat.le_refl _, fun m bytes _ hok => nomatch hok⟩
  | ok u =>
      have hread := h.reads n b s hcheck
      have hfst := congrArg Prod.fst hread
      have hsnd := congrArg (fun r => r.2.length) hread
      simp only [List.length_append, bytesView, List.length_map] at hfst hsnd
      have hle := viewRead_length_le closed n (bytesView (R.window b) ++ s.items retries)
      simp only [List.length_append, bytesView, List.length_map] at hle
      refine ⟨by omega, ?_⟩
      rintro m bytes rfl hok
      rw [hok] at hfst
      have hlt := viewRead_length_lt hfst.symm
      simp only [List.length_append, List.length_map] at hlt
      omega

theorem Reader.Serves.shrinks {β : Type} {R : Reader β} {retries : IoErrorKind → Bool}
    {closed : String} {check : Nat → NzResult Unit} (h : R.Serves retries closed check) :
    Shrinks R.peer fun session => (R.window session.1).length + session.2.weight retries where
  read_le n session := by
    obtain ⟨b, transport⟩ := session
    cases transport with
    | plain s next =>
        have hle := (h.read_weight n b s).1
        cases next <;> simp only [Reader.peer, Transport.weight] <;> omega
    | tls s => exact (h.read_weight n b s).1
  read_lt session bytes hok := by
    obtain ⟨b, transport⟩ := session
    cases transport with
    | plain s next =>
        have hlt := (h.read_weight 1 b s).2 0 bytes rfl hok
        cases next <;> simp only [Reader.peer, Transport.weight] <;> omega
    | tls s => exact (h.read_weight 1 b s).2 0 bytes rfl hok
  upgrade_le session := by
    obtain ⟨b, transport⟩ := session
    cases transport with
    | plain s next =>
        cases next <;> simp only [Reader.peer, Transport.upgrade, Transport.weight] <;> omega
    | tls s => exact Nat.le_refl _

/-- Fuel beyond what the server sends is never used up. -/
theorem Engine.handshake_finishes (engine : Engine) (platform : Platform)
    (config : NzConnectionConfig) {fuel : Nat} {plain : Stream} {tls : NzResult Stream}
    (hfuel : (Transport.plain plain tls).weight engine.retries < fuel) :
    (engine.handshake platform config fuel plain tls).1 ≠ .unfinished := by
  cases engine with
  | sync =>
      refine sync_handshake_finishes syncReader_serves.shrinks platform config ?_
      show (ReadBuffer.new.slice).length + _ < fuel
      rw [ReadBuffer.slice_length]
      show 0 + _ < fuel
      rw [Nat.zero_add]
      exact hfuel
  | native =>
      refine native_handshake_finishes nativeReader_serves.shrinks platform config ?_
      show 0 + _ < fuel
      rw [Nat.zero_add]
      exact hfuel

end NzRust.Handshake
