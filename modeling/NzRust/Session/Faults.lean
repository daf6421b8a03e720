import NzRust.Session.Walk

/-!
# Errors of the drains

The drains raise protocol faults and pass on the errors of their reads. After
either the connection is retired, a timeout between two messages apart.
-/

namespace NzRust.Response

open Wire
open Handshake (Step)

section Raises

variable {Q : NzError → Prop} (hQ : ∀ e, e.isProtocolFault = true → Q e)

theorem checkLen_fault {n : Nat} {field : String} {e : NzError}
    (h : ReadBuffer.checkLen n field = .error e) : e.isProtocolFault = true := by
  unfold ReadBuffer.checkLen at h
  split at h
  · cases h
    rfl
  · exact validateProtocolLength_error (map_error h)

theorem decodeFilename_fault {bytes : Bytes} {e : NzError} (h : decodeFilename bytes = .error e) :
    e.isProtocolFault = true := by
  unfold decodeFilename at h
  dsimp only at h
  split at h
  · cases h
    rfl
  · split at h
    · cases h
      rfl
    · cases h

include hQ

omit hQ in
theorem raises_readI32 : Raises Q Q readI32 :=
  .bind (.take 4) fun _ => .ret _

theorem raises_skip (n : Nat) : Raises Q Q (skip n) :=
  .bind (.ofExcept fun _ h => hQ _ (checkLen_fault h)) fun _ => .bind (.take n) fun _ => .ret _

theorem raises_readLen (field : String) : Raises Q Q (readLen field) :=
  .bind raises_readI32 fun _ => .ofExcept fun _ h => hQ _ (validateProtocolLength_error h)

theorem raises_readCounted (field : String) : Raises Q Q (readCounted field) :=
  .bind (raises_readLen hQ field) fun len => .take len

theorem raises_decodeFilename (bytes : Bytes) : Raises Q Q (Prog.ofExcept (decodeFilename bytes)) :=
  .ofExcept fun _ h => hQ _ (decodeFilename_fault h)

theorem raises_readName {tooLong : NzError} (hlong : tooLong.isProtocolFault = true) (room : Nat)
    (name : Bytes) : Raises Q Q (readName tooLong room name) := by
  induction room generalizing name with
  | zero => exact .fail (hQ _ hlong)
  | succ room ih =>
      refine .bind (.take 1) fun b => ?_
      split
      · exact .ret name
      split
      · exact .fail (hQ _ hlong)
      · exact ih _

omit hQ in
theorem raises_sendChunks (chunks : List Bytes) : Raises Q Q (sendChunks chunks) := by
  induction chunks with
  | nil => exact .ret ()
  | cons chunk chunks ih => exact .bind (.send _) fun _ => .bind (.send _) fun _ => ih

theorem raises_consumeExportStream (fuel : Nat) : Raises Q Q (consumeExportStream fuel) := by
  induction fuel with
  | zero => exact .unfinished
  | succ fuel ih =>
      refine .bind raises_readI32 fun status => ?_
      split
      · exact .bind (raises_readCounted hQ _) fun _ => ih
      split
      · exact .bind (.take 2) fun len => .bind (.take _) fun _ => .ret ()
      · exact .ret ()

theorem raises_logChunks (fuel : Nat) : Raises Q Q (logChunks fuel) := by
  induction fuel with
  | zero => exact .unfinished
  | succ fuel ih =>
      refine .bind (raises_readLen hQ _) fun len => ?_
      split
      · exact .ret ()
      · exact .bind (.take _) fun _ => ih

theorem raises_handleExportStart (files : ExternalFiles) : Raises Q Q (handleExportStart files) := by
  refine .bind (raises_skip hQ 4) fun _ => .bind (raises_skip hQ 10) fun _ =>
    .bind (raises_skip hQ 16) fun _ => .bind (raises_readLen hQ _) fun len => ?_
  split
  · exact .fail (hQ _ rfl)
  · refine .bind (.take _) fun name => .bind (raises_decodeFilename hQ name) fun filename => ?_
    split
    · exact .send _
    · exact .send _

theorem raises_handleImport (files : ExternalFiles) : Raises Q Q (handleImport files) := by
  refine .bind (raises_skip hQ 8) fun _ => .bind (raises_readName hQ rfl _ _) fun nameBytes =>
    .bind (raises_decodeFilename hQ _) fun filename => .bind raises_readI32 fun _ =>
    .bind (.send _) fun _ => .bind raises_readI32 fun _ => .bind raises_readI32 fun size =>
    .bind (.ofExcept fun _ h => hQ _ (validateProtocolLength_error h)) fun size => ?_
  split
  next chunks clean _ =>
    refine .bind (raises_sendChunks chunks) fun _ => ?_
    split
    · exact .send _
    · exact .send _
  · exact .send _

theorem raises_handleExtLog (fuel : Nat) : Raises Q Q (handleExtLog fuel) := by
  refine .bind (raises_skip hQ 4) fun _ => .bind (raises_readLen hQ _) fun len => ?_
  split
  · exact .fail (hQ _ rfl)
  · exact .bind (.take _) fun dir => .bind (.take _) fun _ =>
      .bind (raises_decodeFilename hQ dir) fun _ => .bind (raises_readName hQ rfl _ _) fun nameBytes =>
      .bind (raises_decodeFilename hQ nameBytes) fun _ => .bind raises_readI32 fun _ =>
      raises_logChunks hQ fuel

theorem raises_handleExternal (files : ExternalFiles) (fuel : Nat) (code : UInt8) :
    Raises Q Q (handleExternal files fuel code) := by
  unfold handleExternal
  split
  · exact raises_handleExportStart hQ files
  split
  · exact .bind (raises_skip hQ 4) fun _ => .bind (raises_skip hQ 4) fun _ =>
      raises_consumeExportStream hQ fuel
  split
  · exact raises_handleImport hQ files
  split
  · exact raises_skip hQ 4
  · exact raises_handleExtLog hQ fuel

section Turns

variable {V S R K : Type} (files : ExternalFiles) (dec : Decoder V) {E : Engine V S R K}
  (hE : E.Counted dec)

include hE

theorem raises_rowTurn (st : S) : Raises Q Q (rowTurn dec E st) := by
  refine .bind (raises_skip hQ 4) fun _ => .bind (.ofExcept fun _ h => hQ _ (hE.descriptor h))
    fun desc => .bind (raises_skip hQ 4) fun _ => .bind raises_readI32 fun len =>
    .bind (.ofExcept fun _ h => hQ _ (validateProtocolLength_error h)) fun len =>
    .bind (.take _) fun payload => .bind (.ofExcept fun _ h => hQ _ (hE.row h)) fun stored => ?_
  obtain ⟨st', _ | k⟩ := stored
  · exact .ret _
  · exact .ret _

theorem raises_turn (n : Nat) (st : S) : Raises Q Q (turn files dec E n st) := by
  rw [turn_eq]
  refine .bind (.take 1) fun bytes => ?_
  unfold turnBody
  split
  · exact .ret _
  split
  · exact .bind (raises_handleExternal hQ files n _) fun _ => .ret _
  split
  · exact raises_rowTurn hQ dec hE st
  refine .bind (raises_skip hQ 4) fun _ => ?_
  split
  · exact .ret _
  split
  · exact .ret _
  · obtain ⟨field, step, hframed, hfault⟩ := hE.framed st (bytes.headD 0)
    rw [hframed]
    exact .bind (.bind (raises_readCounted hQ field) fun data =>
      .ofExcept fun e h => hQ e (hfault data e h)) fun _ => .ret _

end Turns

end Raises

/-! ## The kinds of errors -/

/-- The errors behind which `mark_faulted_after` retires the connection, and timeouts. -/
def Retiring (e : NzError) : Prop :=
  e.kind = .protocol ∨ e.kind = .closed ∨ e.kind = .io

theorem retiring_of_fault {e : NzError} (h : e.isProtocolFault = true) : Retiring e := by
  cases e with
  | protocol message => exact .inl rfl
  | _ => cases h

/-- The same without an operating system error. -/
def Lasting (e : NzError) : Prop :=
  e.kind = .protocol ∨ e.kind = .closed

theorem lasting_of_fault {e : NzError} (h : e.isProtocolFault = true) : Lasting e := by
  cases e with
  | protocol message => exact .inl rfl
  | _ => cases h

theorem Lasting.retiring {e : NzError} (h : Lasting e) : Retiring e :=
  h.elim .inl fun hclosed => .inr (.inl hclosed)

theorem Lasting.not_timeout {e : NzError} (h : Lasting e) : isCommandTimeout e = false := by
  cases e with
  | protocol message | closed message => rfl
  | _ => rcases h with h | h <;> cases h

theorem viewRead_retiring {closed : String} {n : Nat} {view : View} {e : NzError}
    (h : (viewRead closed n view).1 = .error e) : Retiring e := by
  fun_induction viewRead closed n view with
  | case1 view => cases h
  | case2 n =>
      cases h
      exact .inr (.inl rfl)
  | case3 n kind view =>
      cases kind with
      | none =>
          cases h
          exact .inr (.inl rfl)
      | some kind =>
          cases h
          exact .inr (.inr rfl)
  | case4 n b items bytes rest hrest ih => cases h
  | case5 n b items e' rest hrest ih =>
      cases h
      rw [hrest] at ih
      exact ih rfl

theorem viewRead_lasting {closed : String} {n : Nat} {view : View} (hview : Unbroken view) :
    Unbroken (viewRead closed n view).2 ∧
      ∀ e, (viewRead closed n view).1 = .error e → Lasting e := by
  fun_induction viewRead closed n view with
  | case1 view =>
      refine ⟨hview, fun e h => ?_⟩
      cases h
  | case2 n =>
      refine ⟨hview, fun e h => ?_⟩
      cases h
      exact .inr rfl
  | case3 n kind view => exact absurd List.mem_cons_self (hview kind)
  | case4 n b items bytes rest hrest ih =>
      have hrest' := (ih fun kind hmem => hview kind (.tail _ hmem)).1
      rw [hrest] at hrest'
      refine ⟨hrest', fun e h => ?_⟩
      cases h
  | case5 n b items e' rest hrest ih =>
      obtain ⟨hkept, hfails⟩ := ih fun kind hmem => hview kind (.tail _ hmem)
      rw [hrest] at hkept hfails
      refine ⟨fun kind hmem => ?_, fun e h => ?_⟩
      · rcases List.mem_cons.mp hmem with hbyte | hold
        · cases hbyte
        · exact hkept kind hold
      · cases h
        exact hfails _ rfl

theorem viewSync_read_retiring (n : Nat) (view : View) (e : NzError)
    (h : (viewSync.read n view).1 = .error e) : Retiring e := by
  unfold viewSync Handshake.viewPeer at h
  dsimp only at h
  split at h
  next e' hcheck =>
    cases h
    exact retiring_of_fault (checkLen_fault hcheck)
  · exact viewRead_retiring h

theorem viewSync_read_lasting (n : Nat) (view : View) (hview : Unbroken view) :
    Unbroken (viewSync.read n view).2 ∧ ∀ e, (viewSync.read n view).1 = .error e → Lasting e := by
  unfold viewSync Handshake.viewPeer
  dsimp only
  split
  next e' hcheck =>
    refine ⟨hview, fun e h => ?_⟩
    cases h
    exact lasting_of_fault (checkLen_fault hcheck)
  · exact viewRead_lasting hview

/-! ## The orphaned drain -/

section Orphaned

variable (context : Text)

theorem strict_awaited (n : Nat) (detail : String) : Strict (awaited context n detail) :=
  .read n _ (fun _ => ⟨_, rfl⟩) fun bytes => .ret bytes

theorem strict_orphanedLength (len : Int) (field : String) (allowZero : Bool) (detail : String) :
    Strict (orphanedLength context len field allowZero detail) := by
  unfold orphanedLength
  split
  · exact .ret _
  · exact .fail _

theorem strict_drainOrphaned (fuel : Nat) : Strict (drainOrphaned context fuel) := by
  induction fuel with
  | zero => exact .unfinished
  | succ fuel ih =>
      refine .bind (strict_awaited context 1 _) fun b => ?_
      dsimp only
      split
      · exact ih
      refine .bind (strict_awaited context 4 _) fun _ => ?_
      split
      · refine .bind (.bind (strict_awaited context 8 _) fun header => ?_) fun _ => ih
        exact .bind (strict_orphanedLength context _ _ _ _) fun len =>
          .bind (.ofExcept _) fun _ => .bind (strict_awaited context _ _) fun _ => .ret _
      split
      · exact .ret _
      split
      · exact ih
      · refine .bind (.bind (strict_awaited context 4 _) fun len => ?_) fun _ => ih
        exact .bind (strict_orphanedLength context _ _ _ _) fun len =>
          .bind (strict_awaited context _ _) fun _ => .ret _

/-- A read of any failure is a protocol fault of the orphaned drain. -/
abbrev Blames {α : Type} (prog : Step α) : Prop :=
  Raises (fun _ => True) (fun e => e.isProtocolFault = true) prog

theorem blames_awaited (n : Nat) (detail : String) : Blames (awaited context n detail) :=
  .read n _ (fun _ _ => .fail rfl) fun bytes => .ret bytes

theorem blames_orphanedLength (len : Int) (field : String) (allowZero : Bool) (detail : String) :
    Blames (orphanedLength context len field allowZero detail) := by
  unfold orphanedLength
  split
  · exact .ret _
  · exact .fail rfl

theorem blames_drainOrphaned (fuel : Nat) : Blames (drainOrphaned context fuel) := by
  induction fuel with
  | zero => exact .unfinished
  | succ fuel ih =>
      refine .bind (blames_awaited context 1 _) fun b => ?_
      dsimp only
      split
      · exact ih
      refine .bind (blames_awaited context 4 _) fun _ => ?_
      split
      · refine .bind (.bind (blames_awaited context 8 _) fun header => ?_) fun _ => ih
        exact .bind (blames_orphanedLength context _ _ _ _) fun len =>
          .bind (.ofExcept fun _ h => checkLen_fault h) fun _ =>
          .bind (blames_awaited context _ _) fun _ => .ret _
      split
      · exact .ret _
      split
      · exact ih
      · refine .bind (.bind (blames_awaited context 4 _) fun len => ?_) fun _ => ih
        exact .bind (blames_orphanedLength context _ _ _ _) fun len =>
          .bind (blames_awaited context _ _) fun _ => .ret _

theorem drainOrphaned_fault {fuel : Nat} {view : View} {e : NzError}
    (hout : ((drainOrphaned context fuel).run viewSync view).outcome = .error e) :
    e.isProtocolFault = true :=
  (blames_drainOrphaned context fuel).outcome (I := fun _ => True)
    (fun _ _ _ => ⟨trivial, fun _ _ => trivial⟩) trivial hout

theorem total_awaited (n : Nat) (detail : String) : Wire.Total (awaited context n detail) := by
  refine .read n _ fun r => ?_
  cases r with
  | ok bytes => exact .ret bytes
  | error e => exact .fail _

theorem total_orphanedLength (len : Int) (field : String) (allowZero : Bool) (detail : String) :
    Wire.Total (orphanedLength context len field allowZero detail) := by
  unfold orphanedLength
  split
  · exact .ret _
  · exact .fail _

/-- With a turn for every item the orphaned drain ends. -/
theorem drainOrphaned_finishes {fuel : Nat} {view : View} (hfuel : view.length < fuel) :
    ((drainOrphaned context fuel).run viewSync view).outcome ≠ .unfinished := by
  induction fuel generalizing view with
  | zero => exact absurd hfuel (Nat.not_lt_zero _)
  | succ fuel ih =>
      refine viewSync_shrinks.finishes_read (fun e s' => nofun) fun bytes s' hlt => ?_
      -- the message has its code, and the rest of it is read before the next turn
      have hnext : ∀ s'', s''.length ≤ s'.length →
          ((drainOrphaned context fuel).run viewSync s'').outcome ≠ .unfinished :=
        fun s'' hle => ih (by omega)
      show (Prog.run viewSync (if bytes.headD 0 = 0 then _ else _) s').outcome ≠ .unfinished
      split
      · exact hnext s' (Nat.le_refl _)
      refine viewSync_shrinks.finishes_bind (total_awaited context 4 _) fun _ s₁ h₁ => ?_
      split
      · refine viewSync_shrinks.finishes_bind ?_ fun _ s₂ h₂ => hnext s₂ (h₂.trans h₁)
        exact .bind (total_awaited context 8 _) fun header =>
          .bind (total_orphanedLength context _ _ _ _) fun len => .bind (total_ofExcept _) fun _ =>
          .bind (total_awaited context _ _) fun _ => .ret _
      split
      · exact nofun
      split
      · exact hnext s₁ h₁
      · refine viewSync_shrinks.finishes_bind ?_ fun _ s₂ h₂ => hnext s₂ (h₂.trans h₁)
        exact .bind (total_awaited context 4 _) fun len =>
          .bind (total_orphanedLength context _ _ _ _) fun len =>
          .bind (total_awaited context _ _) fun _ => .ret _

/-- The orphaned drain of a response that it walks over leaves nothing, with or without the zero
bytes in front. -/
theorem drainOrphaned_unread {fuel zeros : Nat} {r : WireResponse} (halike : r.Alike) {view : View}
    (hview : r.encode = List.replicate zeros 0 ++ viewBytes view)
    (hfuel : (viewBytes view).length ≤ fuel)
    (hout : ((drainOrphaned context fuel).run viewSync view).outcome = .ok ()) :
    viewBytes ((drainOrphaned context fuel).run viewSync view).peer = [] := by
  obtain ⟨taken, hconsumed, hlocal⟩ := strict_local (strict_drainOrphaned context fuel) hout
  have halone := hlocal
    (bytesView (viewBytes ((drainOrphaned context fuel).run viewSync view).peer))
  rw [← bytesView_append, ← hconsumed.unread] at halone
  have hlen : r.encode.length ≤ fuel + zeros := by
    rw [hview, List.length_append, List.length_replicate]
    omega
  have hyields : (drainOrphaned context (fuel + zeros)).run viewSync (bytesView r.encode ++ []) =
      ⟨.ok (), [], []⟩ := drainOrphaned_yields viewSync_byteFed context halike hlen []
  rw [List.append_nil, hview, bytesView_append,
    drainOrphaned_padding viewSync_byteFed context fuel zeros, halone] at hyields
  exact bytesView_injective (b := []) (Finish.mk.inj hyields).2.2

/-- Without a byte to read there is no ReadyForQuery. -/
theorem drainOrphaned_nothing {fuel : Nat} {view : View} (hview : viewBytes view = []) :
    ((drainOrphaned context fuel).run viewSync view).outcome ≠ .ok () := by
  intro hout
  obtain ⟨taken, hconsumed, hlocal⟩ := strict_local (strict_drainOrphaned context fuel) hout
  have hbytes := hconsumed.unread
  rw [hview] at hbytes
  obtain ⟨rfl, -⟩ := List.append_eq_nil_iff.mp hbytes.symm
  have hempty := congrArg Finish.outcome (hlocal [])
  cases fuel with
  | zero => cases hempty
  | succ fuel => cases hempty

end Orphaned

end NzRust.Response
