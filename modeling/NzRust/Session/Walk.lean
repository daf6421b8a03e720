import NzRust.Lib.Raising
import NzRust.Session.Unread

/-!
# A drain on a response

Both drains read framed messages by their length words and fail with protocol
faults of their own. So a turn of either takes one message of a response off the
unread bytes, or a zero byte in front of one: what is left is a response again,
until ReadyForQuery is taken.
-/

namespace NzRust.Response

open Wire
open Handshake (Step)

/-! ## What the engines have in common -/

section Counted

variable {V S R K : Type}

/-- Framed messages are read under their length words, and all errors are protocol faults. -/
structure Engine.Counted (dec : Decoder V) (E : Engine V S R K) : Prop where
  framed : ∀ st code, ∃ field, ∃ step : Bytes → NzResult S,
    E.framed st code = (readCounted field).bind (fun data => Prog.ofExcept (step data)) ∧
      ∀ data e, step data = .error e → e.isProtocolFault = true
  descriptor : ∀ {st e}, E.descriptor st = .error e → e.isProtocolFault = true
  row : ∀ {st desc payload e}, E.row st desc (dec.dbos desc payload) = .error e →
    e.isProtocolFault = true
  available : ∀ {k st desc payload e}, E.available k st desc (dec.dbos desc payload) = .error e →
    e.isProtocolFault = true

theorem ofExcept_map {α β : Type} (r : NzResult α) (f : α → β) :
    (Prog.ofExcept r).bind (fun a => .ret (f a)) = Prog.ofExcept (r.map f) := by
  cases r with
  | ok a => rfl
  | error e => rfl

theorem map_error {α β : Type} {r : NzResult α} {f : α → β} {e : NzError}
    (h : r.map f = .error e) : r = .error e := by
  cases r with
  | ok a => cases h
  | error e' =>
      cases h
      rfl

theorem SyncState.pushExistingRow_fault {st : SyncState V} {row : Row V} {e : NzError}
    (h : st.pushExistingRow row = .error e) : e.isProtocolFault = true := by
  unfold SyncState.pushExistingRow at h
  dsimp only at h
  split at h
  next e' hopened =>
    cases h
    split at hopened
    · cases hopened
    · split at hopened
      · cases hopened
        rfl
      · cases hopened
  · split at h
    · cases h
      rfl
    · cases h

theorem SyncState.storeDecoded_fault {st : SyncState V} {columns : List ColumnDesc}
    {decoded : Decoded V} (hmalformed : ∀ e, decoded = .malformed e → e.isProtocolFault = true)
    {e : NzError} (h : st.storeDecoded columns decoded = .error e) : e.isProtocolFault = true := by
  cases decoded with
  | malformed e' =>
      cases h
      exact hmalformed _ rfl
  | undecodable e' => cases h
  | row values => exact SyncState.pushExistingRow_fault h

theorem dataRow_fault {dec : Decoder V} {st : SyncState V} {data : Bytes} {e : NzError}
    (h : dataRow dec st data = .error e) : e.isProtocolFault = true := by
  unfold dataRow at h
  split at h
  · cases h
    rfl
  · exact SyncState.storeDecoded_fault (fun _ htext => dec.text_malformed htext) h

theorem bufferedEngine_counted (dec : Decoder V) : (bufferedEngine dec).Counted dec where
  framed st code := by
    show ∃ field, ∃ step, framedMessage dec st code = _ ∧ _
    unfold framedMessage
    split
    · exact ⟨_, fun data => .ok _, rfl, nofun⟩
    split
    · exact ⟨_, fun data => .ok st, rfl, nofun⟩
    split
    · exact ⟨_, fun data => .ok st, rfl, nofun⟩
    split
    · exact ⟨_, fun data => .ok (st.addError data), rfl, nofun⟩
    split
    · exact ⟨_, fun data => .ok (st.addNotice data), rfl, nofun⟩
    split
    · refine ⟨"rowDescriptionPayload", fun data => (parseRowDescription data).map st.describe, ?_, fun data e h => ?_⟩
      · exact congrArg _ (funext fun data => ofExcept_map _ _)
      · exact parseRowDescription_error (map_error h)
    split
    · exact ⟨_, fun data => dataRow dec st data, rfl, fun data e h => dataRow_fault h⟩
    split
    · refine ⟨"rowDescriptionStandardPayload",
        fun data => (DbosTupleDesc.parse data st.cachedColumns).map st.describeStandard, ?_,
        fun data e h => ?_⟩
      · exact congrArg _ (funext fun data => ofExcept_map _ _)
      · exact DbosTupleDesc.parse_error (map_error h)
    · exact ⟨_, fun data => .ok st, rfl, nofun⟩
  descriptor {st e} h := by
    simp only [bufferedEngine] at h
    split at h
    · cases h
      rfl
    · cases h
  row h := SyncState.storeDecoded_fault (fun _ hdbos => dec.dbos_malformed hdbos) (map_error h)
  available h := SyncState.storeDecoded_fault (fun _ hdbos => dec.dbos_malformed hdbos) h

theorem streamEngine_counted (dec : Decoder V) (sink : Sink V) :
    (streamEngine dec sink).Counted dec where
  framed st code := by
    show ∃ field, ∃ step, streamFramed dec sink st code = _ ∧ _
    unfold streamFramed
    split
    · exact ⟨_, fun data => .ok (st.completeCommand sink data), rfl, nofun⟩
    split
    · exact ⟨_, fun data => .ok st, rfl, nofun⟩
    split
    · exact ⟨_, fun data => .ok st, rfl, nofun⟩
    split
    · exact ⟨_, fun data => .ok (st.addError data), rfl, nofun⟩
    split
    · exact ⟨_, fun data => .ok (st.addNotice sink data), rfl, nofun⟩
    split
    · refine ⟨"rowDescriptionPayload",
        fun data => (parseRowDescription data).map (st.describe sink), ?_, fun data e h => ?_⟩
      · exact congrArg _ (funext fun data => ofExcept_map _ _)
      · exact parseRowDescription_error (map_error h)
    split
    · refine ⟨_, fun data => streamDataRow dec sink st data, rfl, fun data e h => ?_⟩
      unfold streamDataRow at h
      split at h
      · cases h
        rfl
      next columns _ =>
        have hrow := map_error h
        cases htext : dec.text columns data with
        | malformed e' =>
            rw [htext] at hrow
            cases hrow
            exact dec.text_malformed htext
        | undecodable e' =>
            rw [htext] at hrow
            cases hrow
        | row values =>
            rw [htext] at hrow
            cases hrow
    split
    · refine ⟨"rowDescriptionStandardPayload",
        fun data => (DbosTupleDesc.parse data st.cachedColumns).map (st.describeStandard sink), ?_,
        fun data e h => ?_⟩
      · exact congrArg _ (funext fun data => ofExcept_map _ _)
      · exact DbosTupleDesc.parse_error (map_error h)
    · exact ⟨_, fun data => .ok st, rfl, nofun⟩
  descriptor {st e} h := by
    simp only [streamEngine] at h
    split at h
    · cases h
      rfl
    · cases h
  row {st desc payload e} h := by
    simp only [streamEngine] at h
    cases hdbos : dec.dbos desc payload with
    | malformed e' =>
        rw [hdbos] at h
        cases h
        exact dec.dbos_malformed hdbos
    | undecodable e' =>
        rw [hdbos] at h
        cases h
    | row values =>
        rw [hdbos] at h
        cases h
  available {k st desc payload e} h := by
    simp only [streamEngine] at h
    cases hdbos : dec.dbos desc payload with
    | malformed e' =>
        rw [hdbos] at h
        cases h
        exact dec.dbos_malformed hdbos
    | undecodable e' =>
        rw [hdbos] at h
        cases h
    | row values =>
        rw [hdbos] at h
        cases h

end Counted

/-! ## One turn -/

/-- The response behind one turn of a drain: a zero byte or a message less. -/
def WireResponse.tail (r : WireResponse) : Option WireResponse :=
  match r.messages, r.padding with
  | (padding + 1, m) :: rest, _ => some { r with messages := (padding, m) :: rest }
  | (0, _) :: rest, _ => some { r with messages := rest }
  | [], padding + 1 => some { r with padding := padding }
  | [], 0 => none

/-- What is unread behind that turn. -/
def WireResponse.left (r : WireResponse) : Bytes :=
  match r.tail with
  | some r => r.encode
  | none => []

theorem WireResponse.Alike.tail {r r' : WireResponse} (h : r.Alike) (htail : r.tail = some r') :
    r'.Alike := by
  obtain ⟨messages, padding, ready, header, hready, hheader⟩ := r
  unfold WireResponse.tail at htail
  split at htail
  next padding' m rest heq =>
    cases htail
    dsimp only at heq
    subst heq
    intro entry hentry
    rcases List.mem_cons.mp hentry with rfl | hrest
    · exact h (padding' + 1, m) List.mem_cons_self
    · exact h entry (List.mem_cons_of_mem _ hrest)
  next m rest heq =>
    cases htail
    dsimp only at heq
    subst heq
    exact fun entry hentry => h entry (List.mem_cons_of_mem _ hentry)
  next padding' hmessages hpadding =>
    cases htail
    exact h
  next => cases htail

section Turns

variable {V S R K : Type} (files : ExternalFiles) (dec : Decoder V) (E : Engine V S R K)

/-- What a turn does on a message of a response. -/
structure TurnEnds (view rest : View) (prog : Step (Turn S R K)) (result : NzResult (Turn S R K)) :
    Prop where
  steps : Steps viewSync prog view result rest
  fault : ∀ e, result = .error e → e.isProtocolFault = true

variable {E} (hE : E.Counted dec)

theorem turn_zero (n : Nat) (st : S) (rest : View) :
    Yields viewSync (turn files dec E n st) (.byte 0 :: rest) (.next st) rest :=
  .bind (viewSync_byteFed.readByte 0) (.ret _ _ _)

theorem turn_ready (n : Nat) (st : S) {code : UInt8} {header : Bytes}
    (hcode : Code.isReady code = true) (hheader : header.length = 4) (rest : View) :
    Yields viewSync (turn files dec E n st) (bytesView (code :: header) ++ rest)
      (.done (E.finish st).1 (E.finish st).2) rest := by
  obtain ⟨h0, hy, hext⟩ := Code.isReady_spec hcode
  refine .bind (viewSync_byteFed.readByte code) ?_
  simp only [h0, hy, hext, Bool.false_eq_true, if_false]
  refine .bind (viewSync_byteFed.skip hheader (by decide)) ?_
  simp only [hcode, if_true]
  exact .ret _ _ _

/-- A turn behind a stored row. -/
def storedTurn (desc : DbosTupleDesc) : S × Option K → Turn S R K
  | (st, none) => .next st
  | (st, some k) => .rows k desc st

/-- A turn on a binary row, once its payload is there. -/
def rowResult (E : Engine V S R K) (st : S) (payload : Bytes) : NzResult (Turn S R K) :=
  (E.descriptor st).bind fun desc =>
    (counted "rowStandardPayload" false payload).bind fun payload =>
      (E.row st desc (dec.dbos desc payload)).bind fun stored => .ok (storedTurn desc stored)

theorem counted_ok {field : String} {allowZero : Bool} {payload payload' : Bytes}
    (h : counted field allowZero payload = .ok payload') : payload' = payload := by
  unfold counted at h
  cases hvalid : validateProtocolLength (payload.length : Int) field allowZero with
  | error e =>
      rw [hvalid] at h
      cases h
  | ok n =>
      rw [hvalid] at h
      cases h
      rfl

theorem counted_fault {field : String} {allowZero : Bool} {payload : Bytes} {e : NzError}
    (h : counted field allowZero payload = .error e) : e.isProtocolFault = true :=
  validateProtocolLength_error (map_error h)

theorem rowResult_cases {st : S} {payload : Bytes} {r : NzResult (Turn S R K)}
    (h : rowResult dec E st payload = r) :
    (∃ e, r = .error e ∧ (E.descriptor st = .error e ∨
      counted "rowStandardPayload" false payload = .error e ∨
      ∃ desc, E.row st desc (dec.dbos desc payload) = .error e)) ∨
    ∃ desc stored, r = .ok (storedTurn desc stored) := by
  unfold rowResult at h
  cases hdesc : E.descriptor st with
  | error e =>
      rw [hdesc] at h
      exact .inl ⟨e, h.symm, .inl rfl⟩
  | ok desc =>
      rw [hdesc] at h
      cases hcounted : counted "rowStandardPayload" false payload with
      | error e =>
          rw [hcounted] at h
          exact .inl ⟨e, h.symm, .inr (.inl rfl)⟩
      | ok payload' =>
          obtain rfl := counted_ok hcounted
          rw [hcounted] at h
          change (E.row st desc (dec.dbos desc payload')).bind _ = r at h
          cases hrow : E.row st desc (dec.dbos desc payload') with
          | error e =>
              rw [hrow] at h
              exact .inl ⟨e, h.symm, .inr (.inr ⟨desc, hrow⟩)⟩
          | ok stored =>
              rw [hrow] at h
              exact .inr ⟨desc, stored, h.symm⟩

theorem rowResult_goesOn {st : S} {payload : Bytes} {t : Turn S R K}
    (h : rowResult dec E st payload = .ok t) : t.GoesOn := by
  obtain ⟨e, he, -⟩ | ⟨desc, ⟨st', _ | k⟩, hstored⟩ := rowResult_cases dec h
  · cases he
  · cases hstored
    exact Turn.next_goesOn st'
  · cases hstored
    exact Turn.rows_goesOn k desc st'

theorem rowTurn_steps (st : S) {header reserved payload : Bytes} (hheader : header.length = 4)
    (hreserved : reserved.length = 4) (hlen : payload.length ≤ maxProtocolPayload) (rest : View) :
    Steps viewSync (rowTurn dec E st)
      (bytesView (header ++ (reserved ++ (ByteString.toBe 4 payload.length ++ payload))) ++ rest)
      (rowResult dec E st payload) rest := by
  simp only [bytesView_append, List.append_assoc]
  refine .after (viewSync_byteFed.skip hheader (by decide)) ?_
  unfold rowResult
  cases hdesc : E.descriptor st with
  | error e => exact (rfl : _ = _)
  | ok desc =>
      refine .after (Yields.ofExcept _ _ _) ?_
      refine .after (viewSync_byteFed.skip hreserved (by decide)) ?_
      refine .after (viewSync_byteFed.lengthField hlen) ?_
      unfold counted readRow
      dsimp only [Except.bind]
      cases hvalid : validateProtocolLength (payload.length : Int) "rowStandardPayload" false with
      | error e => exact (rfl : _ = _)
      | ok n =>
          have hn : payload.length = n := validateProtocolLength_length hvalid
          subst hn
          refine .after (Yields.ofExcept _ _ _) (.after (viewSync_byteFed.take rfl hlen) ?_)
          refine Steps.bind (Steps.ofExcept _ _ _) fun stored => ?_
          obtain ⟨st', _ | k⟩ := stored
          · exact Yields.ret _ _ _
          · exact Yields.ret _ _ _

include hE

theorem rowResult_fault {st : S} {payload : Bytes} {e : NzError}
    (h : rowResult dec E st payload = .error e) : e.isProtocolFault = true := by
  obtain ⟨e', he, hdesc | hcounted | ⟨desc, hrow⟩⟩ | ⟨desc, stored, hstored⟩ :=
    rowResult_cases dec h
  · cases he
    exact hE.descriptor hdesc
  · cases he
    exact counted_fault hcounted
  · cases he
    exact hE.row hrow
  · cases hstored

/-- On a message a turn goes on behind it, or fails with a protocol fault. -/
theorem turn_message (n : Nat) (st : S) (m : Message) (rest : View) :
    ∃ result, TurnEnds (bytesView m.encode ++ rest) rest (turn files dec E n st) result ∧
      ∀ t, result = .ok t → t.GoesOn ∧ (m.Alike → ∃ st', t = .next st') := by
  cases m with
  | control code header hcode hheader =>
      obtain ⟨h0, hy, hext, hready⟩ := Code.isControl_spec hcode
      refine ⟨.ok (.next st), ⟨?_, nofun⟩, ?_⟩
      · refine .after (viewSync_byteFed.readByte code) ?_
        simp only [h0, hy, hext, Bool.false_eq_true, if_false]
        refine .after (viewSync_byteFed.skip hheader (by decide)) ?_
        simp only [hready, hcode, Bool.false_eq_true, if_false, if_true]
        exact Yields.ret _ _ _
      · intro t ht
        cases ht
        exact ⟨Turn.next_goesOn st, fun _ => ⟨st, rfl⟩⟩
  | framed code header payload hcode hheader hlen =>
      obtain ⟨h0, hy, hext, hready, hcontrol⟩ := Code.isFramed_spec hcode
      obtain ⟨field, step, hframed, hfault⟩ := hE.framed st code
      refine ⟨(step payload).map .next, ⟨?_, fun e h => hfault payload e (map_error h)⟩, ?_⟩
      · rw [Message.encode, bytesView_cons_append, bytesView_append, List.append_assoc]
        refine .after (viewSync_byteFed.readByte code) ?_
        simp only [h0, hy, hext, Bool.false_eq_true, if_false]
        refine .after (viewSync_byteFed.skip hheader (by decide)) ?_
        simp only [hready, hcontrol, Bool.false_eq_true, if_false]
        rw [hframed]
        exact .bind_ret (.after (viewSync_byteFed.readCounted field hlen) (.ofExcept _ _ _)) _
      · intro t ht
        cases hstep : step payload with
        | error e =>
            rw [hstep] at ht
            cases ht
        | ok st' =>
            rw [hstep] at ht
            cases ht
            exact ⟨Turn.next_goesOn st', fun _ => ⟨st', rfl⟩⟩
  | rowStandard header reserved payload hheader hreserved hlen =>
      refine ⟨rowResult dec E st payload, ⟨?_, fun e => rowResult_fault dec hE⟩, fun t ht => ?_⟩
      · refine .after (viewSync_byteFed.readByte Code.rowStandard) ?_
        exact rowTurn_steps dec st hheader hreserved hlen rest
      · exact ⟨rowResult_goesOn dec ht, fun halike => halike.elim⟩

theorem Engine.Counted.strict (st : S) (code : UInt8) : Strict (E.framed st code) := by
  obtain ⟨field, step, hframed, -⟩ := hE.framed st code
  rw [hframed]
  exact .bind (strict_readCounted field) fun data => .ofExcept _

theorem strict_turn (n : Nat) (st : S) : Strict (turn files dec E n st) := by
  rw [turn_eq]
  exact .bind (.take 1) fun bytes => strict_turnBody files dec hE.strict n st _

omit hE in
theorem encode_zero (r : WireResponse) {padding : Nat} {m : Message} {rest : Messages}
    (h : r.messages = (padding + 1, m) :: rest) :
    r.encode = 0 :: { r with messages := (padding, m) :: rest }.encode := by
  simp only [WireResponse.encode, h, encodeMessages, padded, List.replicate_succ,
    List.cons_append]

omit hE in
theorem encode_message (r : WireResponse) {m : Message} {rest : Messages}
    (h : r.messages = (0, m) :: rest) :
    r.encode = m.encode ++ { r with messages := rest }.encode := by
  simp only [WireResponse.encode, h, encodeMessages, padded, List.replicate_zero, List.nil_append,
    List.append_assoc]

omit hE in
theorem encode_padding (r : WireResponse) {padding : Nat} (hmessages : r.messages = [])
    (hpadding : r.padding = padding + 1) :
    r.encode = 0 :: { r with padding := padding }.encode := by
  simp only [WireResponse.encode, hmessages, hpadding, encodeMessages, padded, List.replicate_succ,
    List.nil_append, List.cons_append]

omit hE in
theorem encode_ready (r : WireResponse) (hmessages : r.messages = []) (hpadding : r.padding = 0) :
    r.encode = r.ready :: r.header := by
  simp only [WireResponse.encode, hmessages, hpadding, encodeMessages, padded, List.replicate_zero,
    List.nil_append]

/-- Where a turn that returns stands in a response. -/
def Turn.Stands (r : WireResponse) (t : Turn S R K) : Prop :=
  (∃ r', r.tail = some r' ∧ t.GoesOn ∧ (r.Alike → ∃ st, t = .next st)) ∨
    (r.tail = none ∧ ∃ st result, t = .done st result)

theorem turn_response (n : Nat) (st : S) (r : WireResponse) (rest : View) :
    ∃ result, TurnEnds (bytesView r.encode ++ rest) (bytesView r.left ++ rest)
        (turn files dec E n st) result ∧ ∀ t, result = .ok t → t.Stands r := by
  cases hmessages : r.messages with
  | nil =>
      cases hpadding : r.padding with
      | zero =>
          have htail : r.tail = none := by
            unfold WireResponse.tail
            rw [hmessages, hpadding]
          refine ⟨.ok (.done (E.finish st).1 (E.finish st).2), ⟨?_, nofun⟩, fun t ht => ?_⟩
          · rw [encode_ready r hmessages hpadding, WireResponse.left, htail]
            exact turn_ready files dec n st r.hready r.hheader rest
          · cases ht
            exact .inr ⟨htail, _, _, rfl⟩
      | succ padding =>
          have htail : r.tail = some { r with padding := padding } := by
            unfold WireResponse.tail
            rw [hmessages, hpadding]
          refine ⟨.ok (.next st), ⟨?_, nofun⟩, fun t ht => ?_⟩
          · rw [encode_padding r hmessages hpadding, WireResponse.left, htail]
            exact turn_zero files dec n st _
          · cases ht
            exact .inl ⟨_, htail, Turn.next_goesOn st, fun _ => ⟨st, rfl⟩⟩
  | cons entry messages =>
      obtain ⟨_ | padding, m⟩ := entry
      · have htail : r.tail = some { r with messages := messages } := by
          unfold WireResponse.tail
          rw [hmessages]
        obtain ⟨result, hends, hok⟩ := turn_message files dec hE n st m
          (bytesView { r with messages := messages }.encode ++ rest)
        refine ⟨result, ?_, fun t ht => ?_⟩
        · rw [encode_message r hmessages, WireResponse.left, htail, bytesView_append,
            List.append_assoc]
          exact hends
        · obtain ⟨hgoes, hnext⟩ := hok t ht
          refine .inl ⟨_, htail, hgoes, fun halike => hnext (halike (0, m) ?_)⟩
          rw [hmessages]
          exact List.mem_cons_self
      · have htail : r.tail = some { r with messages := (padding, m) :: messages } := by
          unfold WireResponse.tail
          rw [hmessages]
        refine ⟨.ok (.next st), ⟨?_, nofun⟩, fun t ht => ?_⟩
        · rw [encode_zero r hmessages, WireResponse.left, htail]
          exact turn_zero files dec n st _
        · cases ht
          exact .inl ⟨_, htail, Turn.next_goesOn st, fun _ => ⟨st, rfl⟩⟩

/-- A turn that returns has taken its part of the response, whatever interrupts the reads. -/
theorem turn_unread (n : Nat) (st : S) {r : WireResponse} {view : View}
    (hview : viewBytes view = r.encode) {t : Turn S R K}
    (hout : ((turn files dec E n st).run viewSync view).outcome = .ok t) :
    viewBytes ((turn files dec E n st).run viewSync view).peer = r.left ∧ t.Stands r := by
  obtain ⟨taken, hconsumed, hlocal⟩ := strict_local (strict_turn files dec hE n st) hout
  have hbytes := hconsumed.unread
  rw [hview] at hbytes
  -- the same turn on the response alone
  obtain ⟨result, ⟨hsteps, -⟩, hok⟩ := turn_response files dec hE n st r []
  have halone := hlocal (bytesView (viewBytes ((turn files dec E n st).run viewSync view).peer))
  rw [← bytesView_append, ← hbytes] at halone
  rw [List.append_nil] at hsteps
  cases result with
  | error e =>
      have hfails : ((turn files dec E n st).run viewSync (bytesView r.encode)).outcome = .error e :=
        hsteps
      rw [halone] at hfails
      cases hfails
  | ok t' =>
      have hyields : (turn files dec E n st).run viewSync (bytesView r.encode) = _ := hsteps
      rw [halone] at hyields
      obtain ⟨hsame, -, hleft⟩ := Finish.mk.inj hyields
      cases hsame
      rw [List.append_nil] at hleft
      exact ⟨bytesView_injective hleft, hok t rfl⟩

end Turns

end NzRust.Response
