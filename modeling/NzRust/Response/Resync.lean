import NzRust.Response.Steps

/-!
# The orphaned drain against the normal one

The two drains agree on messages with a header, a length and a payload and on
the control bytes. They do not agree on a binary row, whose DBOS header the
orphaned drain skips a second time, on an EmptyQueryResponse with a payload,
which it takes for a bare header, and on the external-table messages, which it
takes for framed ones.
-/

namespace NzRust.Response

open Wire
open Handshake (Step)

/-- The messages that both drains walk over alike. -/
def Message.Alike : Message → Prop
  | .framed code _ payload _ _ _ => code = Code.emptyQueryResponse → payload = []
  | .control _ _ _ _ => True
  | .rowStandard _ _ _ _ _ _ => False

def WireResponse.Alike (r : WireResponse) : Prop :=
  ∀ entry ∈ r.messages, entry.2.Alike

section Walk

variable {P : Peer NzError View} (hP : ByteFed P) (context : Text)

include hP

theorem awaited_yields {n : Nat} {bytes : Bytes} (hn : bytes.length = n)
    (hlen : n ≤ maxProtocolPayload) (detail : String) (view : View) :
    Yields P (awaited context n detail) (bytesView bytes ++ view) bytes view := by
  subst hn
  simp [Yields, awaited, Prog.run, hP.read_bytes bytes view hlen]

theorem awaited_byte (b : UInt8) (detail : String) (view : View) :
    Yields P (awaited context 1 detail) (.byte b :: view) [b] view :=
  have hone : [b].length = 1 := rfl
  awaited_yields hP context hone (by decide) detail view

theorem drainOrphaned_padding (fuel padding : Nat) (view : View) :
    (drainOrphaned context (fuel + padding)).run P
        (bytesView (List.replicate padding 0) ++ view) =
      (drainOrphaned context fuel).run P view := by
  induction padding with
  | zero => rfl
  | succ padding ih =>
      rw [← ih, ← Nat.add_assoc, List.replicate_succ]
      exact (awaited_byte hP context 0 _ _).run_bind _

theorem orphanedPayload_yields (code : UInt8) {payload : Bytes}
    (hlen : payload.length ≤ maxProtocolPayload) (view : View) :
    Yields P (orphanedPayload context code)
      (bytesView (ByteString.toBe 4 payload.length ++ payload) ++ view) () view := by
  have hvalid : validateProtocolLength (payload.length : Int) "orphanedPayload" true =
      .ok payload.length := validateProtocolLength_eq_ok.mpr ⟨rfl, hlen, .inl rfl⟩
  have hsmall : payload.length < 2 ^ 31 := by
    simp only [maxProtocolPayload] at hlen
    omega
  rw [bytesView_append, List.append_assoc]
  refine .bind (awaited_yields hP context (ByteString.toBe_length 4 _) (by decide) _ _) ?_
  simp only [orphanedLength, ByteString.beInt_toBe_ofNat hsmall, hvalid]
  exact .bind (.ret P _ _) (.bind (awaited_yields hP context rfl hlen _ _) (.ret P _ _))

/-- A message costs the orphaned drain at most as many turns as it has bytes. -/
theorem drainOrphaned_message {m : Message} (halike : m.Alike) (fuel : Nat)
    (hfuel : m.encode.length ≤ fuel) (view : View) :
    ∃ fuel', fuel ≤ fuel' + m.encode.length ∧
      (drainOrphaned context fuel).run P (bytesView m.encode ++ view) =
        (drainOrphaned context fuel').run P view := by
  cases m with
  | rowStandard _ _ _ _ _ _ => exact halike.elim
  | control code header hcode hheader =>
      obtain ⟨h0, hy, -, hready⟩ := Code.isControl_spec hcode
      simp only [Message.encode, List.length_cons, hheader] at hfuel ⊢
      obtain ⟨fuel, rfl⟩ : ∃ f, fuel = f + 1 := ⟨fuel - 1, by omega⟩
      refine ⟨fuel, by omega, ?_⟩
      rw [bytesView_cons_append]
      refine ((awaited_byte hP context code _ _).run_bind _).trans ?_
      simp only [List.headD_cons, h0, if_false]
      refine ((awaited_yields hP context hheader (by decide) _ _).run_bind _).trans ?_
      simp only [hy, hready, hcode, Bool.false_eq_true, or_true, if_false, if_true]
  | framed code header payload hcode hheader hlen =>
      obtain ⟨h0, hy, -, hready, hcontrol⟩ := Code.isFramed_spec hcode
      simp only [Message.encode, List.length_cons, List.length_append, hheader,
        ByteString.toBe_length] at hfuel ⊢
      obtain ⟨fuel, rfl⟩ : ∃ f, fuel = f + 1 := ⟨fuel - 1, by omega⟩
      rw [bytesView_cons_append, bytesView_append, List.append_assoc]
      by_cases hempty : code = Code.emptyQueryResponse
      · -- the zero length that is left behind reads as padding
        have hpayload := halike hempty
        subst hpayload hempty
        obtain ⟨fuel, rfl⟩ : ∃ f, fuel = f + 4 := ⟨fuel - 4, by omega⟩
        refine ⟨fuel, by omega, ?_⟩
        refine ((awaited_byte hP context _ _ _).run_bind _).trans ?_
        refine ((awaited_yields hP context hheader (by decide) _ _).run_bind _).trans ?_
        exact drainOrphaned_padding hP context fuel 4 view
      · refine ⟨fuel, by omega, ?_⟩
        refine ((awaited_byte hP context code _ _).run_bind _).trans ?_
        simp only [List.headD_cons, h0, if_false]
        refine ((awaited_yields hP context hheader (by decide) _ _).run_bind _).trans ?_
        simp only [hy, hready, hempty, hcontrol, Bool.false_eq_true, or_false, if_false]
        exact (orphanedPayload_yields hP context code hlen view).run_bind _

theorem drainOrphaned_messages {ms : Messages} (halike : ∀ entry ∈ ms, entry.2.Alike) (fuel : Nat)
    (hfuel : (encodeMessages ms).length ≤ fuel) (view : View) :
    ∃ fuel', fuel ≤ fuel' + (encodeMessages ms).length ∧
      (drainOrphaned context fuel).run P (bytesView (encodeMessages ms) ++ view) =
        (drainOrphaned context fuel').run P view := by
  induction ms generalizing fuel with
  | nil => exact ⟨fuel, Nat.le_refl _, rfl⟩
  | cons entry rest ih =>
      obtain ⟨padding, m⟩ := entry
      simp only [encodeMessages, padded, List.length_append, List.length_replicate] at hfuel ⊢
      obtain ⟨fuel, rfl⟩ : ∃ f, fuel = f + padding := ⟨fuel - padding, by omega⟩
      have hm : m.Alike := halike (padding, m) List.mem_cons_self
      obtain ⟨fuel₁, hle₁, hrun₁⟩ :=
        drainOrphaned_message hP context hm fuel (by omega) (bytesView (encodeMessages rest) ++ view)
      obtain ⟨fuel₂, hle₂, hrun₂⟩ :=
        ih (fun entry hentry => halike entry (List.mem_cons_of_mem _ hentry)) fuel₁ (by omega)
      refine ⟨fuel₂, by omega, ?_⟩
      simp only [bytesView_append, List.append_assoc]
      exact (drainOrphaned_padding hP context _ _ _).trans (hrun₁.trans hrun₂)

/-- The orphaned drain walks over a response of such messages, up to and including
ReadyForQuery. -/
theorem drainOrphaned_yields {r : WireResponse} (halike : r.Alike) {fuel : Nat}
    (hfuel : r.encode.length ≤ fuel) (view : View) :
    Yields P (drainOrphaned context fuel) (bytesView r.encode ++ view) () view := by
  simp only [WireResponse.encode, padded, List.length_append, List.length_replicate,
    List.length_cons, r.hheader] at hfuel
  obtain ⟨h0, hy, -⟩ := Code.isReady_spec r.hready
  obtain ⟨fuel', hle, hrun⟩ := drainOrphaned_messages hP context halike fuel (by omega)
    (bytesView (padded r.padding (r.ready :: r.header)) ++ view)
  obtain ⟨fuel', rfl⟩ : ∃ f, fuel' = f + 1 + r.padding := ⟨fuel' - 1 - r.padding, by omega⟩
  simp only [WireResponse.encode, padded, bytesView_append, List.append_assoc] at hrun ⊢
  refine hrun.trans ((drainOrphaned_padding hP context _ _ _).trans ?_)
  rw [bytesView_cons_append]
  refine Yields.bind (awaited_byte hP context r.ready _ _) ?_
  simp only [List.headD_cons, h0, if_false]
  refine .bind (awaited_yields hP context r.hheader (by decide) _ _) ?_
  simp only [hy, r.hready, if_false, if_true]
  exact .ret P _ _

end Walk

/-! ## Sessions -/

variable {V : Type}

/-- The peer that the synchronous buffer looks like. -/
abbrev syncView : Peer NzError View :=
  Handshake.viewPeer ReadBuffer.closedMessage (ReadBuffer.checkLen · "buffer read")

theorem syncView_byteFed : ByteFed syncView :=
  viewPeer_byteFed fun _ h => checkLen_ok h _

/-- The synchronous drain of a response, message by message. -/
theorem drainResponse_steps (files : ExternalFiles) (dec : Decoder V) {r : WireResponse} {fuel : Nat}
    (hfuel : r.encode.length ≤ fuel) (view : View) :
    Steps syncView (drainResponse files dec fuel) (bytesView r.encode ++ view)
      (((runSteps (syncStep dec) {} r.messages).map SyncState.finish).mapError drainError) view :=
  ((sync_walks files dec syncView_byteFed).response {} hfuel view).mapError drainError

/-- On a response of alike messages that the normal drain consumes, the orphaned drain succeeds
and leaves the same bytes, less the zero bytes that it drops from the buffer. -/
theorem drainOrphaned_consumes_alike (files : ExternalFiles) (dec : Decoder V) (context : Text)
    {b : ReadBuffer} {s : Stream} {r : WireResponse} {rest : View}
    (hview : b.view s = bytesView r.encode ++ rest) (halike : r.Alike) {fuel fuel' : Nat}
    (hfuel : r.encode.length ≤ fuel) (hfuel' : r.encode.length ≤ fuel') {d : Drained V}
    (hdrain : ((drainResponse files dec fuel).run Handshake.syncReader.port (b, s)).outcome =
      .ok d) :
    let normal := ((drainResponse files dec fuel).run Handshake.syncReader.port (b, s)).peer
    let orphan := (drainOrphaned context fuel').run Handshake.syncReader.port (b, s)
    orphan.outcome = .ok () ∧
      orphan.peer.1.view orphan.peer.2 = normal.1.view normal.2 ∧
      ∃ zeros, normal.1.view normal.2 = bytesView (List.replicate zeros 0) ++
        orphan.peer.1.discardLeadingNulls.2.view orphan.peer.2 := by
  intro normal orphan
  have hsteps := drainResponse_steps files dec hfuel rest
  rw [← hview] at hsteps
  have hends := hsteps.ends Handshake.syncReader_serves
  have hnormal : normal.1.view normal.2 = rest := by
    cases hresult : ((runSteps (syncStep dec) {} r.messages).map SyncState.finish).mapError
        drainError with
    | ok d' =>
        rw [hresult] at hends
        exact hends.2
    | error e =>
        rw [hresult] at hends
        exact nomatch hdrain.symm.trans hends
  have hyields := drainOrphaned_yields syncView_byteFed context halike hfuel' rest
  rw [← hview] at hyields
  obtain ⟨hout, horphan⟩ : Ends _ _ orphan (.ok ()) rest :=
    Steps.ends Handshake.syncReader_serves hyields
  refine ⟨hout, Eq.trans horphan hnormal.symm, orphan.peer.1.leadingNulls, ?_⟩
  rw [hnormal, ← show orphan.peer.1.view orphan.peer.2 = rest from horphan]
  exact orphan.peer.1.discardLeadingNulls_view orphan.peer.2

/-- A command that completes with no count. -/
def commandResponse : WireResponse :=
  ⟨[(0, .framed Code.commandComplete (zeros 4) [83, 69, 84, 0] commandComplete_isFramed
      blankHeader_length (by decide))], 1,
    Code.readyForQuery, zeros 4, readyForQuery_isReady, blankHeader_length⟩

theorem command_consumed_alike :
    commandResponse.Alike ∧
      ((drainOrphaned [] 50).run Handshake.syncReader.port
        (buffered commandResponse.encode, [])).outcome = .ok () := by
  have halike : commandResponse.Alike := by
    intro entry hentry
    obtain rfl := List.mem_singleton.mp hentry
    exact nofun
  have hfuel : commandResponse.encode.length ≤ 50 := by decide
  have halone := drainOrphaned_consumes_alike noFiles shapeDecoder [] (buffered_view _) halike
    hfuel hfuel rfl
  exact ⟨halike, halone.1⟩

/-- One INT column in binary, and one row of it. -/
def binaryResponse : WireResponse :=
  ⟨[(0, .framed Code.rowDescriptionStandard (zeros 4)
        (zeros 16 ++ [0, 0, 0, 1] ++ zeros 8 ++ [0, 0, 0, 4] ++ [0, 0, 0, 1] ++
          [0, 0, 0, 3, 0, 0, 0, 4, 0, 0, 0, 4] ++ zeros 16 ++ [0, 0, 0, 4] ++ zeros 12)
        (by decide) blankHeader_length (by decide)),
      (0, .rowStandard (zeros 4) (zeros 4) (zeros 6) blankHeader_length blankHeader_length
        (by decide))],
    0, Code.readyForQuery, zeros 4, readyForQuery_isReady, blankHeader_length⟩

/-- The same with the start of the next response behind it. -/
def binaryBytes : Bytes :=
  binaryResponse.encode ++ (zeros 3 ++ (Code.readyForQuery :: zeros 4))

set_option maxRecDepth 10000 in
/-- Behind a binary row the orphaned drain misses ReadyForQuery and takes the next one for it. -/
theorem binary_row_desynchronises :
    ¬ ∀ (b : ReadBuffer) (s : Stream) (fuel : Nat) (d : Drained Unit),
      let normal := (drainResponse noFiles shapeDecoder fuel).run Handshake.syncReader.port (b, s)
      let orphan := (drainOrphaned [] fuel).run Handshake.syncReader.port (b, s)
      normal.outcome = .ok d →
        orphan.outcome = .ok () ∧
          ∃ zeros, normal.peer.1.view normal.peer.2 =
            bytesView (List.replicate zeros 0) ++ orphan.peer.1.view orphan.peer.2 := by
  intro h
  obtain ⟨-, n, hviews⟩ := h (buffered binaryBytes) [] 10 _ rfl
  have hrest : bytesView (zeros 3 ++ (Code.readyForQuery :: zeros 4)) =
      bytesView (List.replicate n 0) ++ [] := hviews
  have hready : Item.byte Code.readyForQuery ∈ bytesView (List.replicate n 0) := by
    rw [← List.append_nil (bytesView (List.replicate n 0)), ← hrest]
    decide
  simp [bytesView, Code.readyForQuery] at hready

end NzRust.Response
