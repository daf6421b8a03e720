import NzRust.Response.Framing

/-!
# Messages as steps

On an encoded message one turn of a drain is a function of its state and the
message. The functions are stated here without reads, and each drain is shown
to run them message by message up to ReadyForQuery.
-/

namespace NzRust.Response

open Wire
open Handshake (Step)

variable {V : Type} (files : ExternalFiles) (dec : Decoder V)

/-! ## The synchronous drain -/

/-- A framed message, once its payload is read. -/
def syncFramed (st : SyncState V) (code : UInt8) (payload : Bytes) : NzResult (SyncState V) :=
  if code = Code.commandComplete then
    .ok { (st.addCount payload).flushCurrent with rowMetadata := none }
  else if code = Code.errorResponse then .ok (st.addError payload)
  else if code = Code.noticeResponse then .ok (st.addNotice payload)
  else if code = Code.rowDescription then (parseRowDescription payload).map st.describe
  else if code = Code.dataRow then dataRow dec st payload
  else if code = Code.rowDescriptionStandard then
    (DbosTupleDesc.parse payload st.cachedColumns).map st.describeStandard
  else .ok st

theorem validateProtocolLength_length {length n : Nat} {field : String} {allowZero : Bool}
    (h : validateProtocolLength length field allowZero = .ok n) : length = n := by
  have heq := (validateProtocolLength_eq_ok.mp h).1
  omega

/-- A payload under the length check of its message. -/
def counted (field : String) (allowZero : Bool) (payload : Bytes) : NzResult Bytes :=
  (validateProtocolLength payload.length field allowZero).map fun _ => payload

/-- A binary row: the look for a descriptor comes before the length check. -/
def syncRow (st : SyncState V) (payload : Bytes) : NzResult (SyncState V) :=
  match st.descriptor with
  | none => .error SyncState.missingDescriptor
  | some desc =>
      (counted "rowStandardPayload" false payload).bind fun payload =>
        st.storeDecoded (st.dbosColumns desc) (dec.dbos desc payload)

def syncStep (st : SyncState V) : Message → NzResult (SyncState V)
  | .framed code _ payload _ _ _ => syncFramed dec st code payload
  | .control _ _ _ _ => .ok st
  | .rowStandard _ _ payload _ _ _ => syncRow dec st payload

/-- How a program that stands for a step ends. -/
def Steps {α : Type} (P : Peer NzError View) (prog : Step α) (s : View) (r : NzResult α) (s' : View) :
    Prop :=
  match r with
  | .ok a => Yields P prog s a s'
  | .error e => Fails P prog s e

theorem Steps.ofExcept {α : Type} (P : Peer NzError View) (r : NzResult α) (s : View) :
    Steps P (Prog.ofExcept r) s r s := by
  cases r with
  | ok a => exact Yields.ofExcept P a s
  | error e => exact (rfl : _ = _)

theorem Steps.after {α β : Type} {P : Peer NzError View} {prog : Step α} {k : α → Step β} {a : α}
    {s s' s'' : View} {r : NzResult β} (h : Yields P prog s a s') (hk : Steps P (k a) s' r s'') :
    Steps P (prog.bind k) s r s'' := by
  cases r with
  | ok b => exact .bind h hk
  | error e => exact h.fails_bind hk

theorem Steps.bind {α β : Type} {P : Peer NzError View} {prog : Step α} {k : α → Step β}
    {f : α → NzResult β} {s s' s'' : View} {r : NzResult α} (h : Steps P prog s r s')
    (hk : ∀ a, Steps P (k a) s' (f a) s'') : Steps P (prog.bind k) s (r.bind f) s'' := by
  cases r with
  | ok a => exact .after h (hk a)
  | error e => exact Fails.bind h k

theorem Steps.bind_ret {α β : Type} {P : Peer NzError View} {prog : Step α} {s s' : View}
    {r : NzResult α} (h : Steps P prog s r s') (f : α → β) :
    Steps P (prog.bind fun a => .ret (f a)) s (r.map f) s' := by
  cases r with
  | ok a => exact Yields.bind h (.ret P _ _)
  | error e => exact Fails.bind h _

/-- A turn of a loop: it goes on as `k` with what the step left, or fails as the step does. -/
def Turns {α β : Type} (P : Peer NzError View) (prog : Step β) (s : View) (r : NzResult α)
    (k : α → Step β) (s' : View) : Prop :=
  match r with
  | .ok a => prog.run P s = (k a).run P s'
  | .error e => Fails P prog s e

theorem Steps.mapError {α : Type} {P : Peer NzError View} {prog : Step α} {s s' : View}
    {r : NzResult α} (h : Steps P prog s r s') (f : NzError → NzError) :
    Steps P (prog.mapError f) s (r.mapError f) s' := by
  cases r with
  | ok a =>
      show (prog.mapError f).run P s = _
      rw [run_mapError, h]
      rfl
  | error e =>
      show ((prog.mapError f).run P s).outcome = _
      rw [run_mapError]
      exact congrArg (Outcome.mapError f) h

/-- How a run on a session ends that stands for a step: with the step's value and `rest` to be
read, or with its error. -/
def Ends {α β : Type} (R : Handshake.Reader β) (retries : IoErrorKind → Bool)
    (finish : Finish NzError α (β × Stream)) (r : NzResult α) (rest : View) : Prop :=
  match r with
  | .ok a => finish.outcome = .ok a ∧
      bytesView (R.window finish.peer.1) ++ finish.peer.2.items retries = rest
  | .error e => finish.outcome = .error e

/-- A session runs as its view does. -/
theorem Steps.ends {α β : Type} {R : Handshake.Reader β} {retries : IoErrorKind → Bool}
    {closed : String} {check : Nat → NzResult Unit} (hserves : R.Serves retries closed check)
    {prog : Step α} {b : β} {s : Stream} {r : NzResult α} {rest : View}
    (h : Steps (Handshake.viewPeer closed check) prog
      (bytesView (R.window b) ++ s.items retries) r rest) :
    Ends R retries (prog.run R.port (b, s)) r rest := by
  obtain ⟨hout, -, hpeer⟩ := hserves.run_port prog b s
  cases r with
  | ok a => exact ⟨hout.trans (congrArg Finish.outcome h), hpeer.symm.trans (congrArg Finish.peer h)⟩
  | error e => exact hout.trans h

theorem Turns.of_run_eq {α β : Type} {P : Peer NzError View} {prog prog' : Step β}
    {s s' s'' : View} {r : NzResult α} {k : α → Step β} (h : prog.run P s = prog'.run P s')
    (hturn : Turns P prog' s' r k s'') : Turns P prog s r k s'' := by
  cases r with
  | ok a => exact h.trans hturn
  | error e => exact (congrArg Finish.outcome h).trans hturn

theorem Turns.after {α β γ : Type} {P : Peer NzError View} {prog : Step γ} {k : γ → Step β} {c : γ}
    {s s' s'' : View} {r : NzResult α} {k' : α → Step β} (h : Yields P prog s c s')
    (hk : Turns P (k c) s' r k' s'') : Turns P (prog.bind k) s r k' s'' := by
  cases r with
  | ok a => exact (h.run_bind k).trans hk
  | error e => exact h.fails_bind hk

theorem Steps.turns {α β : Type} {P : Peer NzError View} {prog : Step α} {s s' : View}
    {r : NzResult α} (h : Steps P prog s r s') (k : α → Step β) :
    Turns P (prog.bind k) s r k s' := by
  cases r with
  | ok a => exact Yields.run_bind h k
  | error e => exact Fails.bind h k

/-! ## Loops over messages -/

/-- A loop with fuel that runs a step on each message and ends at ReadyForQuery. -/
structure Walks {σ β : Type} (P : Peer NzError View) (loop : Nat → σ → Step β)
    (step : σ → Message → NzResult σ) (finish : σ → β) : Prop where
  padding : ∀ fuel padding st view,
    (loop (fuel + padding) st).run P (bytesView (List.replicate padding 0) ++ view) =
      (loop fuel st).run P view
  message : ∀ fuel st m view,
    Turns P (loop (fuel + 1) st) (bytesView m.encode ++ view) (step st m) (loop fuel) view
  ready : ∀ fuel st code header view, Code.isReady code = true → header.length = 4 →
    Yields P (loop (fuel + 1) st) (bytesView (code :: header) ++ view) (finish st) view

/-- The turns that messages take. -/
def turns : Messages → Nat
  | [] => 0
  | (padding, _) :: rest => turns rest + 1 + padding

theorem turns_le (ms : Messages) : turns ms ≤ (encodeMessages ms).length := by
  induction ms with
  | nil => exact Nat.le_refl _
  | cons entry rest ih =>
      obtain ⟨padding, m⟩ := entry
      have hpos : 1 ≤ m.encode.length := by
        cases m <;> simp [Message.encode]
      simp only [turns, encodeMessages, padded, List.length_append, List.length_replicate]
      omega

def runSteps {σ : Type} (step : σ → Message → NzResult σ) : σ → Messages → NzResult σ
  | st, [] => .ok st
  | st, (_, m) :: rest =>
      match step st m with
      | .ok st' => runSteps step st' rest
      | .error e => .error e

namespace Walks

variable {σ β : Type} {P : Peer NzError View} {loop : Nat → σ → Step β}
  {step : σ → Message → NzResult σ} {finish : σ → β}

theorem messages (h : Walks P loop step finish) (fuel : Nat) (st : σ) (ms : Messages) (view : View) :
    Turns P (loop (fuel + turns ms) st) (bytesView (encodeMessages ms) ++ view)
      (runSteps step st ms) (loop fuel) view := by
  induction ms generalizing st with
  | nil => exact (rfl : _ = _)
  | cons entry rest ih =>
      obtain ⟨padding, m⟩ := entry
      have hpad := h.padding (fuel + turns rest + 1) padding st
        (bytesView m.encode ++ (bytesView (encodeMessages rest) ++ view))
      have hturn := h.message (fuel + turns rest) st m (bytesView (encodeMessages rest) ++ view)
      have hfuel : fuel + turns ((padding, m) :: rest) = fuel + turns rest + 1 + padding := by
        simp only [turns]
        omega
      simp only [encodeMessages, padded, bytesView_append, List.append_assoc, runSteps, hfuel]
      refine .of_run_eq hpad ?_
      cases hstep : step st m with
      | error e =>
          rw [hstep] at hturn
          exact hturn
      | ok st' =>
          rw [hstep] at hturn
          exact .of_run_eq hturn (ih st')

/-- A whole response: the steps of its messages, then the end. -/
theorem response (h : Walks P loop step finish) {fuel : Nat} (st : σ) {r : WireResponse}
    (hfuel : r.encode.length ≤ fuel) (view : View) :
    Steps P (loop fuel st) (bytesView r.encode ++ view) ((runSteps step st r.messages).map finish)
      view := by
  have hturns := turns_le r.messages
  simp only [WireResponse.encode, padded, List.length_append, List.length_replicate,
    List.length_cons] at hfuel
  obtain ⟨fuel, rfl⟩ : ∃ f, fuel = f + 1 + r.padding + turns r.messages :=
    ⟨fuel - 1 - r.padding - turns r.messages, by omega⟩
  have hrun := h.messages (fuel + 1 + r.padding) st r.messages
    (bytesView (padded r.padding (r.ready :: r.header)) ++ view)
  simp only [WireResponse.encode, bytesView_append, List.append_assoc]
  cases hsteps : runSteps step st r.messages with
  | error e =>
      rw [hsteps] at hrun
      exact hrun
  | ok st' =>
      rw [hsteps] at hrun
      simp only [padded, bytesView_append, List.append_assoc] at hrun ⊢
      exact hrun.trans ((h.padding _ _ _ _).trans
        (h.ready fuel st' r.ready r.header view r.hready r.hheader))

end Walks

section Sync

variable {P : Peer NzError View} (hP : ByteFed P)

include hP

theorem framedMessage_steps (st : SyncState V) (code : UInt8) {payload : Bytes}
    (hlen : payload.length ≤ maxProtocolPayload) (view : View) :
    Steps P (framedMessage dec st code)
      (bytesView (ByteString.toBe 4 payload.length ++ payload) ++ view)
      (syncFramed dec st code payload) view := by
  have hread (field : String) : Yields P (readCounted field)
      (bytesView (ByteString.toBe 4 payload.length ++ payload) ++ view) payload view :=
    hP.readCounted field hlen
  unfold framedMessage syncFramed
  by_cases hcc : code = Code.commandComplete
  · subst hcc
    exact .after (hread _) (Yields.ret P _ _)
  rw [if_neg hcc, if_neg hcc]
  by_cases hi : code = Code.emptyQueryResponse
  · subst hi
    exact .after (hread _) (Yields.ret P _ _)
  rw [if_neg hi]
  by_cases hp : code = Code.backendPayloadP
  · subst hp
    exact .after (hread _) (Yields.ret P _ _)
  rw [if_neg hp]
  by_cases he : code = Code.errorResponse
  · subst he
    exact .after (hread _) (Yields.ret P _ _)
  rw [if_neg he, if_neg he]
  by_cases hn : code = Code.noticeResponse
  · subst hn
    exact .after (hread _) (Yields.ret P _ _)
  rw [if_neg hn, if_neg hn]
  by_cases ht : code = Code.rowDescription
  · subst ht
    exact .after (hread _) ((Steps.ofExcept P _ _).bind_ret _)
  rw [if_neg ht, if_neg ht]
  by_cases hd : code = Code.dataRow
  · subst hd
    exact .after (hread _) (.ofExcept P _ _)
  rw [if_neg hd, if_neg hd]
  by_cases hx : code = Code.rowDescriptionStandard
  · subst hx
    exact .after (hread _) ((Steps.ofExcept P _ _).bind_ret _)
  rw [if_neg hx, if_neg hx]
  exact .after (hread _) (Yields.ret P _ _)

theorem rowStandard_steps (st : SyncState V) {header reserved payload : Bytes}
    (hheader : header.length = 4) (hreserved : reserved.length = 4)
    (hlen : payload.length ≤ maxProtocolPayload) (view : View) :
    Steps P (rowStandard dec st)
      (bytesView (header ++ (reserved ++ (ByteString.toBe 4 payload.length ++ payload))) ++ view)
      (syncRow dec st payload) view := by
  simp only [bytesView_append, List.append_assoc]
  refine .after (hP.skip hheader (by decide)) ?_
  unfold syncRow
  cases hdesc : st.descriptor with
  | none => exact (rfl : _ = _)
  | some desc =>
      refine .after (hP.skip hreserved (by decide)) (.after (hP.lengthField hlen) ?_)
      unfold counted
      dsimp only
      cases hvalid : validateProtocolLength (payload.length : Int) "rowStandardPayload" false with
      | error e => exact (rfl : _ = _)
      | ok n =>
          have hn : payload.length = n := validateProtocolLength_length hvalid
          subst hn
          exact .after (.ofExcept P _ _) (.after (hP.take rfl hlen) (.ofExcept P _ _))

theorem drainLoop_padding (fuel padding : Nat) (st : SyncState V) (view : View) :
    (drainLoop files dec (fuel + padding) st).run P
        (bytesView (List.replicate padding 0) ++ view) =
      (drainLoop files dec fuel st).run P view := by
  induction padding with
  | zero => rfl
  | succ padding ih =>
      rw [← ih, ← Nat.add_assoc, List.replicate_succ]
      exact (hP.readByte 0).run_bind _

theorem drainLoop_message (fuel : Nat) (st : SyncState V) (m : Message) (view : View) :
    Turns P (drainLoop files dec (fuel + 1) st) (bytesView m.encode ++ view) (syncStep dec st m)
      (drainLoop files dec fuel) view := by
  cases m with
  | framed code header payload hcode hheader hlen =>
      obtain ⟨h0, hy, hext, hready, hcontrol⟩ := Code.isFramed_spec hcode
      rw [Message.encode, bytesView_cons_append, bytesView_append, List.append_assoc]
      refine .after (hP.readByte code) ?_
      simp only [h0, hy, hext, Bool.false_eq_true, if_false]
      refine .after (hP.skip hheader (by decide)) ?_
      simp only [hready, hcontrol, Bool.false_eq_true, if_false]
      exact (framedMessage_steps dec hP st code hlen view).turns _
  | control code header hcode hheader =>
      obtain ⟨h0, hy, hext, hready⟩ := Code.isControl_spec hcode
      refine .after (hP.readByte code) ?_
      simp only [h0, hy, hext, Bool.false_eq_true, if_false]
      refine .after (hP.skip hheader (by decide)) ?_
      simp only [hready, hcode, Bool.false_eq_true, if_false, if_true]
      exact (rfl : _ = _)
  | rowStandard header reserved payload hheader hreserved hlen =>
      refine .after (hP.readByte Code.rowStandard) ?_
      exact (rowStandard_steps dec hP st hheader hreserved hlen view).turns _

theorem drainLoop_ready (fuel : Nat) (st : SyncState V) {code : UInt8} {header : Bytes}
    (hcode : Code.isReady code = true) (hheader : header.length = 4) (view : View) :
    Yields P (drainLoop files dec (fuel + 1) st) (bytesView (code :: header) ++ view) st.finish
      view := by
  obtain ⟨h0, hy, hext⟩ := Code.isReady_spec hcode
  refine .bind (hP.readByte code) ?_
  simp only [h0, hy, hext, Bool.false_eq_true, if_false]
  refine .bind (hP.skip hheader (by decide)) ?_
  simp only [hcode, if_true]
  exact .ret P _ _

theorem sync_walks : Walks P (drainLoop files dec) (syncStep dec) SyncState.finish where
  padding := drainLoop_padding files dec hP
  message := drainLoop_message files dec hP
  ready fuel st _ _ view hcode hheader := drainLoop_ready files dec hP fuel st hcode hheader view

end Sync

/-! ## The asynchronous drain -/

namespace Native

/-- A text row: the length check comes before the look for columns. -/
def nativeDataRow (st : NativeState V) (payload : Bytes) : NzResult (NativeState V) :=
  (counted "dataRowPayload" false payload).bind fun data =>
    match st.current.map (·.columns) <|> st.cachedColumns with
    | none => .error missingRowDescription
    | some columns => st.storeDecoded (st.openSet columns) (dec.text columns data)

def nativeFramed (st : NativeState V) (code : UInt8) (payload : Bytes) : NzResult (NativeState V) :=
  if code = Code.rowDescription then
    (counted "rowDescriptionPayload" false payload).bind fun data =>
      (parseRowDescription data).map st.describe
  else if code = Code.dataRow then nativeDataRow dec st payload
  else if code = Code.rowDescriptionStandard then
    (counted "rowDescriptionStandardPayload" false payload).bind fun data =>
      (DbosTupleDesc.parse data st.cachedColumns).map st.describeStandard
  else if code = Code.commandComplete then
    (counted "commandCompletePayload" false payload).map st.complete
  else if code = Code.noticeResponse then .ok (st.addNotice payload)
  else if code = Code.errorResponse then (counted "errorPayload" false payload).map st.addError
  else .ok st

def nativeRow (st : NativeState V) (payload : Bytes) : NzResult (NativeState V) :=
  (counted "rowStandardPayload" false payload).bind fun payload =>
    match st.descriptor with
    | none => .error missingDescriptor
    | some desc =>
        st.storeDecoded (st.openSet (st.cachedColumns.getD desc.toColumnDescs))
          (dec.dbos desc payload)

def nativeStep (st : NativeState V) : Message → NzResult (NativeState V)
  | .framed code _ payload _ _ _ => nativeFramed dec st code payload
  | .control _ _ _ _ => .ok st
  | .rowStandard _ _ payload _ _ _ => nativeRow dec st payload

section

variable {P : Peer NzError View} (hP : ByteFed P)

include hP

theorem readLen_steps (field : String) (allowZero : Bool) {payload : Bytes}
    (hlen : payload.length ≤ maxProtocolPayload) (view : View) :
    Steps P (readLen field allowZero) (bytesView (ByteString.toBe 4 payload.length) ++ view)
      (validateProtocolLength payload.length field allowZero) view :=
  .after (hP.lengthField hlen) (.ofExcept P _ _)

/-- What follows a checked length. -/
theorem readLen_then {α : Type} (field : String) (allowZero : Bool) {payload : Bytes} {view : View}
    (hlen : payload.length ≤ maxProtocolPayload) {k : Nat → Step α} {f : Bytes → NzResult α}
    (hk : Steps P (k payload.length) (bytesView payload ++ view) (f payload) view) :
    Steps P ((readLen field allowZero).bind k)
      (bytesView (ByteString.toBe 4 payload.length ++ payload) ++ view)
      ((counted field allowZero payload).bind f) view := by
  rw [bytesView_append, List.append_assoc]
  have hread := readLen_steps hP field allowZero hlen (bytesView payload ++ view)
  unfold counted
  cases hvalid : validateProtocolLength (payload.length : Int) field allowZero with
  | error e =>
      rw [hvalid] at hread
      exact Fails.bind hread _
  | ok n =>
      have hn : payload.length = n := validateProtocolLength_length hvalid
      subst hn
      rw [hvalid] at hread
      exact .after hread hk

theorem readCounted_steps (field : String) (allowZero : Bool) {payload : Bytes}
    (hlen : payload.length ≤ maxProtocolPayload) (view : View) :
    Steps P (readCounted field allowZero)
      (bytesView (ByteString.toBe 4 payload.length ++ payload) ++ view)
      (counted field allowZero payload) view := by
  have hread : Steps P (Handshake.Native.readBytes payload.length) (bytesView payload ++ view)
      (.ok payload) view := hP.nativeReadBytes hlen
  have h := readLen_then hP field allowZero hlen (f := .ok) hread
  have hok : (counted field allowZero payload).bind .ok = counted field allowZero payload := by
    cases counted field allowZero payload <;> rfl
  rw [hok] at h
  exact h

theorem dataRow_steps (st : NativeState V) {payload : Bytes}
    (hlen : payload.length ≤ maxProtocolPayload) (view : View) :
    Steps P (dataRow dec st) (bytesView (ByteString.toBe 4 payload.length ++ payload) ++ view)
      (nativeDataRow dec st payload) view := by
  refine readLen_then hP _ _ hlen ?_
  cases st.current.map (·.columns) <|> st.cachedColumns with
  | none => exact (rfl : _ = _)
  | some columns => exact .after (hP.nativeReadBytes hlen) (.ofExcept P _ _)

theorem framedMessage_steps (st : NativeState V) (code : UInt8) {payload : Bytes}
    (hlen : payload.length ≤ maxProtocolPayload) (view : View) :
    Steps P (framedMessage dec st code)
      (bytesView (ByteString.toBe 4 payload.length ++ payload) ++ view)
      (nativeFramed dec st code payload) view := by
  have hread (field : String) (allowZero : Bool) :=
    readCounted_steps hP field allowZero hlen view
  have hzero (field : String) : Yields P (readCounted field true)
      (bytesView (ByteString.toBe 4 payload.length ++ payload) ++ view) payload view :=
    hP.nativeReadCounted field hlen (.inl rfl)
  unfold framedMessage nativeFramed
  by_cases ht : code = Code.rowDescription
  · subst ht
    exact (hread _ _).bind fun data => (Steps.ofExcept P _ _).bind_ret _
  rw [if_neg ht, if_neg ht]
  by_cases hd : code = Code.dataRow
  · subst hd
    exact dataRow_steps dec hP st hlen view
  rw [if_neg hd, if_neg hd]
  by_cases hx : code = Code.rowDescriptionStandard
  · subst hx
    exact (hread _ _).bind fun data => (Steps.ofExcept P _ _).bind_ret _
  rw [if_neg hx, if_neg hx]
  by_cases hcc : code = Code.commandComplete
  · subst hcc
    exact (hread _ _).bind_ret st.complete
  rw [if_neg hcc, if_neg hcc]
  by_cases hn : code = Code.noticeResponse
  · subst hn
    exact .after (hzero _) (Yields.ret P _ _)
  rw [if_neg hn, if_neg hn]
  by_cases he : code = Code.errorResponse
  · subst he
    exact (hread _ _).bind_ret st.addError
  rw [if_neg he, if_neg he]
  by_cases hi : code = Code.emptyQueryResponse ∨ code = Code.backendPayloadP
  · rw [if_pos hi]
    exact .after (hzero _) (Yields.ret P _ _)
  · rw [if_neg hi]
    exact .after (hzero _) (Yields.ret P _ _)

theorem rowStandard_steps (st : NativeState V) {header reserved payload : Bytes}
    (hheader : header.length = 4) (hreserved : reserved.length = 4)
    (hlen : payload.length ≤ maxProtocolPayload) (view : View) :
    Steps P (rowStandard dec st)
      (bytesView (header ++ (reserved ++ (ByteString.toBe 4 payload.length ++ payload))) ++ view)
      (nativeRow dec st payload) view := by
  simp only [bytesView_append, List.append_assoc]
  refine .after (hP.skipBytes hheader (by decide)) (.after (hP.readI32 hreserved) ?_)
  rw [← List.append_assoc, ← bytesView_append]
  refine readLen_then hP _ _ hlen ?_
  cases hdesc : st.descriptor with
  | none => exact (rfl : _ = _)
  | some desc => exact .after (hP.nativeReadBytes hlen) (.ofExcept P _ _)

theorem drainLoop_padding (fuel padding : Nat) (st : NativeState V) (view : View) :
    (drainLoop files dec (fuel + padding) st).run P
        (bytesView (List.replicate padding 0) ++ view) =
      (drainLoop files dec fuel st).run P view := by
  induction padding with
  | zero => rfl
  | succ padding ih =>
      rw [← ih, ← Nat.add_assoc, List.replicate_succ]
      exact (hP.readByte 0).run_bind _

theorem drainLoop_message (fuel : Nat) (st : NativeState V) (m : Message) (view : View) :
    Turns P (drainLoop files dec (fuel + 1) st) (bytesView m.encode ++ view) (nativeStep dec st m)
      (drainLoop files dec fuel) view := by
  cases m with
  | framed code header payload hcode hheader hlen =>
      obtain ⟨h0, hy, hext, hready, hcontrol⟩ := Code.isFramed_spec hcode
      rw [Message.encode, bytesView_cons_append, bytesView_append, List.append_assoc]
      refine .after (hP.readByte code) ?_
      simp only [h0, hy, hext, Bool.false_eq_true, if_false]
      refine .after (hP.skipBytes hheader (by decide)) ?_
      simp only [hready, hcontrol, Bool.false_eq_true, if_false]
      exact (framedMessage_steps dec hP st code hlen view).turns _
  | control code header hcode hheader =>
      obtain ⟨h0, hy, hext, hready⟩ := Code.isControl_spec hcode
      refine .after (hP.readByte code) ?_
      simp only [h0, hy, hext, Bool.false_eq_true, if_false]
      refine .after (hP.skipBytes hheader (by decide)) ?_
      simp only [hready, hcode, Bool.false_eq_true, if_false, if_true]
      exact (rfl : _ = _)
  | rowStandard header reserved payload hheader hreserved hlen =>
      refine .after (hP.readByte Code.rowStandard) ?_
      exact (rowStandard_steps dec hP st hheader hreserved hlen view).turns _

theorem drainLoop_ready (fuel : Nat) (st : NativeState V) {code : UInt8} {header : Bytes}
    (hcode : Code.isReady code = true) (hheader : header.length = 4) (view : View) :
    Yields P (drainLoop files dec (fuel + 1) st) (bytesView (code :: header) ++ view) st.finish
      view := by
  obtain ⟨h0, hy, hext⟩ := Code.isReady_spec hcode
  refine .bind (hP.readByte code) ?_
  simp only [h0, hy, hext, Bool.false_eq_true, if_false]
  refine .bind (hP.skipBytes hheader (by decide)) ?_
  simp only [hcode, if_true]
  exact .ret P _ _

theorem native_walks : Walks P (drainLoop files dec) (nativeStep dec) NativeState.finish where
  padding := drainLoop_padding files dec hP
  message := drainLoop_message files dec hP
  ready fuel st _ _ view hcode hheader := drainLoop_ready files dec hP fuel st hcode hheader view

end

end Native

end NzRust.Response
