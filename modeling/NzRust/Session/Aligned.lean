import NzRust.Session.Drains
import NzRust.Session.Link

/-!
# Answers of a synchronous session

Between two commands nothing is unread, unless the connection is retired or the
next command has to drain the rest of one response first. So a packet leaves
when everything that was sent before it has been read, and a command that goes
through gets the answer to its own packet.
-/

namespace NzRust

open Wire Response Transition

/-! ## What the batches leave -/

namespace Connection

theorem markFaultedAfter_flags (c : Connection) (synced : Bool) (e : NzError) :
    (c.markFaultedAfter synced e).protocolSyncRequired = c.protocolSyncRequired := by
  unfold markFaultedAfter
  repeat' split
  all_goals rfl

theorem canExecute_of_disconnected {c : Connection} (h : c.connected = false) :
    c.canExecute = false := by
  simp [canExecute, h]

/-- An error that is no timeout retires the connection. -/
theorem markFaultedAfter_retires {e : NzError} (h : Retiring e) (hlasting : isCommandTimeout e = false)
    (c : Connection) : (c.markFaultedAfter false e).connected = false := by
  cases e with
  | protocol message | closed message => rfl
  | io kind => exact markFaultedAfter_io hlasting
  | _ => rcases h with h | h | h <;> cases h

end Connection

/-- The connection behind an error of the drain. -/
def afterDrainError (c : Connection) (sql : Text) (prev inFrame : Bool) (x : NzError) : Connection :=
  let c := if isCommandTimeout x then c.afterDrainTimeout inFrame else c
  ({ c with executing := false }.restoreTxOnError sql prev).markFaultedAfter false x

theorem restoreTxOnError_connected (c : Connection) (sql : Text) (prev : Bool) :
    (c.restoreTxOnError sql prev).connected = c.connected := by
  unfold Connection.restoreTxOnError
  split <;> rfl

theorem markFaultedAfter_connected {c : Connection} (h : c.connected = false) (synced : Bool)
    (e : NzError) : (c.markFaultedAfter synced e).connected = false := by
  unfold Connection.markFaultedAfter
  repeat' split
  all_goals first | rfl | exact h

/-- Only a timeout between two messages leaves the connection usable, and then the next command
has to wait for ReadyForQuery. -/
theorem afterDrainError_usable {c : Connection} {sql : Text} {prev inFrame : Bool} {x : NzError}
    (hx : isCommandTimeout x = true ∨ Retiring x)
    (husable : (afterDrainError c sql prev inFrame x).canExecute = true) :
    isCommandTimeout x = true ∧ inFrame = false ∧
      (afterDrainError c sql prev inFrame x).protocolSyncRequired = true := by
  unfold afterDrainError at husable ⊢
  cases htimeout : isCommandTimeout x with
  | false =>
      rw [htimeout] at hx husable
      have hretired := Connection.markFaultedAfter_retires (hx.resolve_left nofun) htimeout
        ({ c with executing := false }.restoreTxOnError sql prev)
      exact absurd husable (by rw [if_neg nofun, Connection.canExecute_of_disconnected hretired]; nofun)
  | true =>
      rw [htimeout] at husable
      dsimp only [if_true] at husable ⊢
      cases inFrame with
      | true =>
          rw [if_pos rfl, Connection.canExecute_of_disconnected] at husable
          · cases husable
          · exact markFaultedAfter_connected (restoreTxOnError_connected _ sql prev) false x
      | false =>
          refine ⟨rfl, rfl, ?_⟩
          rw [Connection.markFaultedAfter_flags, (restoreTxOnError_flags _ sql prev).2]
          rfl

section Batches

variable {V : Type} {c : Connection} {sql : Text} {prev inFrame : Bool}

/-- What the end of a batch leaves behind its drain, whatever its result was made of. -/
structure Settles {S R A : Type} (e : Ending S R (ReadBuffer × Stream)) (inFrame : Bool)
    (outcome : Outcome NzError A) (connection : Connection) (session : ReadBuffer × Stream) :
    Prop where
  same : session = e.session
  finished : e.outcome ≠ .unfinished → outcome ≠ .unfinished
  ready : ∀ r, e.outcome = .ok r → connection.protocolSyncRequired = false
  failed : ∀ x, e.outcome = .error x → outcome = .error x ∧
    ((isCommandTimeout x = true ∨ Retiring x) → connection.canExecute = true →
      isCommandTimeout x = true ∧ inFrame = false ∧ connection.protocolSyncRequired = true)

theorem afterQuery_settles (e : Ending (SyncState V) (Drained V) (ReadBuffer × Stream)) :
    Settles e inFrame (afterQuery c sql prev inFrame e).outcome
      (afterQuery c sql prev inFrame e).connection (afterQuery c sql prev inFrame e).session := by
  unfold afterQuery
  cases hout : e.outcome with
  | unfinished =>
      refine ⟨rfl, fun h => absurd hout h, fun r hr => ?_, fun x hx => ?_⟩
      · cases hout.symm.trans hr
      · cases hout.symm.trans hx
  | error x =>
      refine ⟨rfl, fun _ => nofun, fun r hr => ?_, fun x' hx' => ?_⟩
      · cases hout.symm.trans hr
      · cases hout.symm.trans hx'
        exact ⟨rfl, fun hx husable => afterDrainError_usable hx husable⟩
  | ok r =>
      dsimp only
      cases r.result with
      | ok q =>
          refine ⟨rfl, fun _ => nofun, fun _ _ => rfl, fun x hx => ?_⟩
          cases hout.symm.trans hx
      | error x =>
          refine ⟨rfl, fun _ => nofun, fun _ _ => ?_, fun x hx => ?_⟩
          · exact (Connection.markFaultedAfter_flags _ _ _).trans (restoreTxOnError_flags _ _ _).2
          · cases hout.symm.trans hx

theorem afterStream_settles (e : Ending (StreamState V) (StreamDrained V) (ReadBuffer × Stream)) :
    Settles e inFrame (afterStream c sql prev inFrame e).outcome
      (afterStream c sql prev inFrame e).connection (afterStream c sql prev inFrame e).session := by
  unfold afterStream
  cases hout : e.outcome with
  | unfinished =>
      refine ⟨rfl, fun h => absurd hout h, fun r hr => ?_, fun x hx => ?_⟩
      · cases hout.symm.trans hr
      · cases hout.symm.trans hx
  | error x =>
      refine ⟨rfl, fun _ => nofun, fun r hr => ?_, fun x' hx' => ?_⟩
      · cases hout.symm.trans hr
      · cases hout.symm.trans hx'
        exact ⟨rfl, fun hx husable => afterDrainError_usable hx husable⟩
  | ok r =>
      dsimp only
      split
      · refine ⟨rfl, fun _ => nofun, fun _ _ => (restoreTxOnError_flags _ _ _).2, fun x hx => ?_⟩
        cases hout.symm.trans hx
      · refine ⟨rfl, fun _ => nofun, fun _ _ => rfl, fun x hx => ?_⟩
        cases hout.symm.trans hx
      · refine ⟨rfl, fun _ => nofun, fun _ _ => ?_, fun x hx => ?_⟩
        · exact (Connection.markFaultedAfter_flags _ _ _).trans (restoreTxOnError_flags _ _ _).2
        · cases hout.symm.trans hx

end Batches

/-! ## The drain of a response -/

/-- A session with a usable connection has nothing unread, or waits for the rest of a response that
the orphaned drain can walk over. -/
structure Aligned (c : Connection) (unread : Bytes) : Prop where
  synced : c.canExecute = true → c.protocolSyncRequired = false → unread = []
  orphan : c.canExecute = true → unread = [] ∨ ∃ r : WireResponse, r.Alike ∧ unread = r.encode

theorem Aligned.retired {c : Connection} (h : c.canExecute = false) (unread : Bytes) :
    Aligned c unread where
  synced husable := absurd (h.symm.trans husable) nofun
  orphan husable := absurd (h.symm.trans husable) nofun

theorem Aligned.read (c : Connection) : Aligned c [] where
  synced _ _ := rfl
  orphan _ := .inl rfl

theorem Aligned.waiting {c : Connection} {unread : Bytes} {r : WireResponse} (halike : r.Alike)
    (hunread : unread = r.encode) (h : c.canExecute = true → c.protocolSyncRequired = true) :
    Aligned c unread where
  synced husable hsynced := absurd (hsynced.symm.trans (h husable)) nofun
  orphan _ := .inr ⟨r, halike, hunread⟩

/-- What a drain comes to when a response is all there is to read. -/
structure DrainsOwn {S R : Type} (e : Ending S R (ReadBuffer × Stream)) (inFrame : Bool) : Prop where
  finishes : e.outcome ≠ .unfinished
  taken : ∀ a, e.outcome = .ok a → viewBytes (sessionView e.session) = []
  failed : ∀ x, e.outcome = .error x → (isCommandTimeout x = true ∨ Retiring x) ∧
    (isCommandTimeout x = true → inFrame = false →
      ∃ r : WireResponse, r.Alike ∧ viewBytes (sessionView e.session) = r.encode)

section Drain

variable {V S R K : Type} (files : ExternalFiles) (dec : Decoder V) {E : Engine V S R K}

theorem mapError_ok {ε α : Type} {f : ε → ε} {o : Outcome ε α} {a : α} (h : o.mapError f = .ok a) :
    o = .ok a := by
  cases o with
  | ok a' => exact h
  | error e => cases h
  | unfinished => cases h

theorem mapError_error {ε α : Type} {f : ε → ε} {o : Outcome ε α} {x : ε}
    (h : o.mapError f = .error x) : ∃ e, o = .error e ∧ x = f e := by
  cases o with
  | ok a => cases h
  | error e =>
      cases h
      exact ⟨e, rfl, rfl⟩
  | unfinished => cases h

theorem drainError_kind {e : NzError} (h : Retiring e) :
    isCommandTimeout (drainError e) = true ∨ Retiring (drainError e) := by
  unfold drainError
  split
  · exact .inl rfl
  · exact .inr h

theorem drainError_timeout {e : NzError} (h : isCommandTimeout (drainError e) = true) :
    isCommandTimeout e = true := by
  unfold drainError at h
  split at h
  · assumption
  · exact h

/-- Either response and drain go together, or nothing interrupts the drain. -/
theorem drainResponseWithSink_own (hE : E.Counted dec) {Open : K → DbosTupleDesc → S → Prop}
    (hlawful : E.Lawful Open) {fuel : Nat} (st : S) {r : WireResponse} {session : ReadBuffer × Stream}
    (hview : viewBytes (sessionView session) = r.encode) (hfuel : (sessionView session).length < fuel)
    (hfair : r.Alike ∨ Unbroken (sessionView session)) :
    DrainsOwn (drainResponseWithSink files dec E fuel st session)
      (frameInProgress files dec E fuel st session) := by
  have hsession : sessionView (drainResponseWithSink files dec E fuel st session).session =
      sessionView (drainBuffered files dec E fuel st session).session :=
    sessionView_shrinkIfLarge _ _
  refine ⟨fun h => ?_, fun a h => ?_, fun x h => ?_⟩
  · rw [drainResponseWithSink_outcome] at h
    cases hout : (drainBuffered files dec E fuel st session).outcome with
    | ok a => exact absurd (hout ▸ h) nofun
    | error e => exact absurd (hout ▸ h) nofun
    | unfinished => exact drainBuffered_finishes files dec hlawful hfuel st hout
  · rw [hsession]
    exact (drainBuffered_own files dec hE hlawful hview hfuel (mapError_ok h)).1
  · obtain ⟨e, hout, rfl⟩ := mapError_error h
    have hretiring := drainBuffered_retiring files dec hE fuel st session hout
    refine ⟨drainError_kind hretiring, fun htimeout hframe => ?_⟩
    rw [hsession]
    rcases hfair with halike | hunbroken
    · exact drainBuffered_interrupted files dec hE fuel st halike hview hout hframe
    · have hlasting := drainBuffered_lasting files dec hE fuel st session hunbroken hout
      exact absurd (hlasting.not_timeout.symm.trans (drainError_timeout htimeout)) nofun

/-- A settled batch leaves an aligned session. -/
theorem Settles.aligned {A : Type} {e : Ending S R (ReadBuffer × Stream)} {inFrame : Bool}
    {outcome : Outcome NzError A} {c : Connection} {session : ReadBuffer × Stream}
    (h : Settles e inFrame outcome c session) (hown : DrainsOwn e inFrame) :
    outcome ≠ .unfinished ∧ Aligned c (viewBytes (sessionView session)) := by
  refine ⟨h.finished hown.finishes, ?_⟩
  rw [h.same]
  cases hout : e.outcome with
  | unfinished => exact absurd hout hown.finishes
  | ok a =>
      rw [hown.taken a hout]
      exact .read c
  | error x =>
      obtain ⟨hkind, hrest⟩ := hown.failed x hout
      have hfailed := (h.failed x hout).2 hkind
      cases husable : c.canExecute with
      | false => exact .retired husable _
      | true =>
          obtain ⟨htimeout, hframe, hsync⟩ := hfailed husable
          obtain ⟨r, halike, hunread⟩ := hrest htimeout hframe
          exact .waiting halike hunread fun _ => hsync

end Drain

/-! ## Before the packet leaves -/

namespace Link

variable {l : Link} (context : Text)

/-- A session that has nothing unread and waits for nothing stays as it is. -/
theorem ensureProtocolSynced_synced (hsync : l.connection.protocolSyncRequired = false)
    (hunread : l.unread = []) :
    ∃ l', l.ensureProtocolSynced context = (.ok (), l') ∧ l'.unread = [] ∧
      l'.connection = l.connection ∧ (l.socket = [] → l'.socket = []) := by
  have hpulled := (l.buffer.pullAvailable_bytes l.socket).trans hunread
  have hempty : l.socket = [] → (l.buffer.pullAvailable l.socket).2.2 = [] := by
    intro h
    rw [h]
    exact ReadBuffer.pullAvailable_closed l.buffer
  unfold ensureProtocolSynced
  dsimp only
  rw [if_pos ⟨ReadBuffer.available_of_unread hpulled, hsync⟩]
  exact ⟨_, rfl, hpulled, rfl, hempty⟩

theorem ensureProtocolSynced_spec (h : Aligned l.connection l.unread)
    (husable : l.connection.canExecute = true) :
    (∃ l', l.ensureProtocolSynced context = (.ok (), l') ∧ l'.unread = [] ∧
      l'.connection = { l.connection with protocolSyncRequired := false }) ∨
    ∃ e l', l.ensureProtocolSynced context = (.error e, l') ∧ e.isProtocolFault = true ∧
      l'.connection = l.connection := by
  cases hsync : l.connection.protocolSyncRequired with
  | false =>
      obtain ⟨l', hsynced, hunread, hconnection, -⟩ :=
        ensureProtocolSynced_synced context hsync (h.synced husable hsync)
      exact .inl ⟨l', hsynced, hunread, by rw [hconnection, ← hsync]⟩
  | true =>
      unfold ensureProtocolSynced
      dsimp only
      have hpulled : viewBytes ((l.buffer.pullAvailable l.socket).2.1.view
          (l.buffer.pullAvailable l.socket).2.2) = l.unread := l.buffer.pullAvailable_bytes l.socket
      generalize l.buffer.pullAvailable l.socket = pulled at hpulled ⊢
      obtain ⟨result, b, s⟩ := pulled
      rw [hsync, if_neg (fun hnot => nomatch hnot.2), if_neg (fun hnot => nomatch hnot.2)]
      have hnulls := congrArg viewBytes (b.discardLeadingNulls_view s)
      rw [viewBytes_append, viewBytes_bytesView, hpulled] at hnulls
      generalize b.discardLeadingNulls.2 = b' at hnulls ⊢
      have hfuel : (sessionView (b', s)).length <
          Link.fuel ⟨l.connection, b', s⟩ := Nat.lt_succ_self _
      generalize Link.fuel ⟨l.connection, b', s⟩ = fuel at hfuel ⊢
      obtain ⟨hsame, hpeer⟩ := run_sessionView (drainOrphaned context fuel) (b', s)
      have hfinishes := drainOrphaned_finishes context hfuel
      have hfault : ∀ e, ((drainOrphaned context fuel).run viewSync (sessionView (b', s))).outcome =
          .error e → e.isProtocolFault = true := fun e => drainOrphaned_fault context
      have hread : ((drainOrphaned context fuel).run viewSync (sessionView (b', s))).outcome =
          .ok () → viewBytes ((drainOrphaned context fuel).run viewSync
            (sessionView (b', s))).peer = [] := by
        intro hout
        rcases h.orphan husable with hnone | ⟨r, halike, hrest⟩
        · rw [hnone] at hnulls
          exact absurd hout (drainOrphaned_nothing context (List.append_eq_nil_iff.mp hnulls.symm).2)
        · rw [hrest] at hnulls
          refine drainOrphaned_unread context halike hnulls ?_ hout
          exact Nat.le_of_lt (Nat.lt_of_le_of_lt (List.length_filterMap_le _ _) hfuel)
      rw [← hsame] at hfinishes hfault hread
      rw [← hpeer] at hread
      dsimp only [session]
      generalize (drainOrphaned context fuel).run Handshake.syncReader.port (b', s) = run at *
      obtain ⟨out, sent, b'', s''⟩ := run
      cases out with
      | unfinished => exact absurd rfl hfinishes
      | error e => exact .inr ⟨e, _, rfl, hfault e rfl, rfl⟩
      | ok u =>
          refine .inl ⟨_, rfl, ?_, rfl⟩
          have hleft := congrArg viewBytes (b''.discardLeadingNulls_view s'')
          rw [viewBytes_append, show viewBytes (b''.view s'') = [] from hread rfl] at hleft
          exact (List.append_eq_nil_iff.mp hleft.symm).2

end Link

/-! ## One command -/

theorem Stream.items_append (retries : IoErrorKind → Bool) (s t : Stream) :
    Stream.items retries (s ++ t) = s.items retries ++ t.items retries := by
  fun_induction Stream.items retries s with
  | case1 => rfl
  | case2 rest ih => exact congrArg (Item.stop none :: ·) ih
  | case3 b bs rest ih =>
      rw [List.append_assoc, ← ih]
      rfl
  | case4 kind rest hretried ih =>
      rw [← ih, List.cons_append, Stream.items, if_pos hretried]
  | case5 kind rest hretried ih =>
      rw [List.cons_append, List.cons_append, ← ih, Stream.items, if_neg hretried]

theorem assertCanExecute_eq {c : Connection} (h : c.canExecute = true) :
    assertCanExecute c = .ok () := by
  simp only [Connection.canExecute, Bool.and_eq_true, Bool.not_eq_true'] at h
  simp [assertCanExecute, h.1.1, h.1.2, h.2]

theorem assertCanExecute_error {c : Connection} (h : c.canExecute = false) :
    ∃ e, assertCanExecute c = .error e := by
  unfold assertCanExecute
  split
  · exact ⟨_, rfl⟩
  split
  · exact ⟨_, rfl⟩
  split
  · exact ⟨_, rfl⟩
  next hfaulted hconnected hexecuting =>
    simp only [Bool.not_eq_true, Bool.not_eq_false'] at hfaulted hconnected hexecuting
    rw [Connection.canExecute, hfaulted, hconnected, hexecuting] at h
    cases h

theorem canExecute_synced (c : Connection) :
    { c with protocolSyncRequired := false }.canExecute = c.canExecute :=
  rfl

/-- A packet that was delivered although its send failed leaves the connection retired, or waiting
for ReadyForQuery. -/
theorem afterSendError_usable {c : Connection} {prev : Bool} {send : SendOutcome} {x : NzError}
    (hdelivered : send.delivered = true) (hx : send.error = some x)
    (husable : (c.afterSendError prev x).canExecute = true) :
    (c.afterSendError prev x).protocolSyncRequired = true := by
  cases htimeout : isCommandTimeout x with
  | true =>
      unfold Connection.afterSendError
      rw [htimeout]
      exact Connection.markFaultedAfter_flags _ false x
  | false =>
      have hkind : ∃ kind, x = .io kind := by
        cases send with
        | sent => cases hx
        | notSent e => cases hdelivered
        | lostAtFlush kind =>
            cases hx
            exact ⟨kind, rfl⟩
        | lostAtWrite kind =>
            cases hx
            cases kind <;> first | exact ⟨_, rfl⟩ | cases htimeout
      obtain ⟨kind, rfl⟩ := hkind
      have hretired : (c.afterSendError prev (.io kind)).connected = false := by
        unfold Connection.afterSendError
        rw [htimeout]
        exact Connection.markFaultedAfter_io htimeout
      rw [Connection.canExecute_of_disconnected hretired] at husable
      cases husable

/-- A send that was refused for a protocol fault retires the connection. -/
theorem afterSendError_fault {c : Connection} {prev : Bool} {e : NzError}
    (h : e.isProtocolFault = true) : (c.afterSendError prev e).canExecute = false := by
  cases e with
  | protocol message => rfl
  | _ => cases h

section Commands

variable {V : Type} (files : ExternalFiles) (dec : Decoder V)

/-- The server answers with one response, whatever interrupts its reads. One that the orphaned drain
cannot walk over is sent for and read without an interruption. -/
def Fair (l : Link) (c : Command V) : Prop :=
  viewBytes (c.arrivals.items ReadBuffer.retries) = c.response.encode ∧
    (c.response.Alike ∨ (c.write = .sent ∧
      ∀ send l', l.sendQueryPacket c = some (send, l') → Unbroken (sessionView l'.session)))

/-- Behind a send everything unread is the response to its packet. -/
structure Sent (l l' : Link) (c : Command V) (send : SendOutcome) : Prop where
  usable : l'.connection.canExecute = l.connection.canExecute
  cases : (send = c.write ∧
      l'.unread = if c.write.delivered then c.response.encode else []) ∨
    ∃ e, send = .notSent e ∧ e.isProtocolFault = true

theorem sendQueryPacket_spec {l : Link} {c : Command V} (h : Aligned l.connection l.unread)
    (husable : l.connection.canExecute = true) (hfair : Fair l c) :
    ∃ send l', l.sendQueryPacket c = some (send, l') ∧ Sent l l' c send := by
  unfold Link.sendQueryPacket
  rcases Link.ensureProtocolSynced_spec c.sql h husable with
    ⟨l', hsync, hunread, hconnection⟩ | ⟨e, l', hsync, hfault, hconnection⟩
  · rw [hsync]
    refine ⟨_, _, rfl, ?_, .inl ⟨rfl, ?_⟩⟩
    · split
      · rw [hconnection, canExecute_synced]
      · rw [hconnection, canExecute_synced]
    · split
      · have hview : viewBytes (l'.buffer.view l'.socket) = [] := hunread
        show viewBytes (l'.buffer.view (l'.socket ++ c.arrivals)) = _
        rw [ReadBuffer.view, Stream.items_append, ← List.append_assoc, viewBytes_append,
          show bytesView l'.buffer.slice ++ _ = l'.buffer.view l'.socket from rfl, hview, hfair.1,
          List.nil_append]
      · exact hunread
  · rw [hsync]
    exact ⟨_, _, rfl, by rw [hconnection], .inr ⟨e, rfl, hfault⟩⟩

/-- What a batch has to show for itself. An answer that is no result, or that comes with a connection
which cannot be used or with a timeout, need not be the answer to its packet. -/
def Settled (a : Answer V) (c : Connection) : Prop :=
  (∃ q, a.result = .ok q) ∨
    (c.canExecute = true ∧ ∀ e, a.result = .error e → isCommandTimeout e = false)

/-- The connection while a batch runs. -/
def pendingOf (c : Connection) (sql : Text) : Connection :=
  { c with
    executing := true
    inTransaction := (transactionStateOf sql).1.getD c.inTransaction }

section Running

variable {c : Connection} {sql : Text} (hsql : sql.contains '\x00' = false)
  (husable : c.canExecute = true)

include hsql husable

theorem runBatchQuery_eq (fuel : Nat) (send : SendOutcome) (session : ReadBuffer × Stream) :
    runBatchQuery files dec fuel c sql send session =
      match send.error with
      | some x => ⟨.error x, (pendingOf c sql).afterSendError c.inTransaction x, session⟩
      | none => afterQuery (pendingOf c sql) sql c.inTransaction
          (frameInProgress files dec (bufferedEngine dec) fuel {} session)
          (drainResponseWithSink files dec (bufferedEngine dec) fuel {} session) := by
  unfold runBatchQuery
  rw [hsql, assertCanExecute_eq husable]
  rfl

theorem runBatchStream_eq (sink : Sink V) (fuel : Nat) (send : SendOutcome)
    (session : ReadBuffer × Stream) :
    runBatchStream files dec sink fuel c sql send session =
      match send.error with
      | some x =>
          { outcome := .error x
            connection := (pendingOf c sql).afterSendError c.inTransaction x
            cancels := if isCommandTimeout x then 1 else 0
            session := session }
      | none => afterStream (pendingOf c sql) sql c.inTransaction
          (frameInProgress files dec (streamEngine dec sink) fuel {} session)
          (drainResponseWithSink files dec (streamEngine dec sink) fuel {} session) := by
  unfold runBatchStream
  rw [hsql, assertCanExecute_eq husable]
  rfl

end Running

theorem afterQuery_result {c c' : Connection} {sql sql' : Text} {prev prev' inFrame inFrame' : Bool}
    {e e' : Ending (SyncState V) (Drained V) (ReadBuffer × Stream)} {r : Drained V}
    (he : e.outcome = .ok r) (he' : e'.outcome = .ok r) :
    (afterQuery c sql prev inFrame e).outcome = (afterQuery c' sql' prev' inFrame' e').outcome := by
  unfold afterQuery
  rw [he, he']
  dsimp only
  split <;> rfl

theorem afterStream_result {c c' : Connection} {sql sql' : Text} {prev prev' inFrame inFrame' : Bool}
    {e e' : Ending (StreamState V) (StreamDrained V) (ReadBuffer × Stream)} {r : StreamDrained V}
    (he : e.outcome = .ok r) (he' : e'.outcome = .ok r) (hstate : e'.state = e.state) :
    (afterStream c sql prev inFrame e).outcome =
        (afterStream c' sql' prev' inFrame' e').outcome ∧
      (afterStream c sql prev inFrame e).calls =
        (afterStream c' sql' prev' inFrame' e').calls := by
  unfold afterStream
  rw [he, he', hstate]
  dsimp only
  split <;> exact ⟨rfl, rfl⟩

theorem returned_some {A : Type} {outcome : Outcome NzError A} (h : outcome ≠ .unfinished)
    (kind : A → QueryResult V ⊕ StreamSummary) (calls : List (Callback V)) :
    ∃ a : Answer V, (∀ c session, Link.returned outcome c session kind calls =
      some (a, ⟨c, session.1, session.2⟩)) ∧
      ∀ x, outcome = .error x → a.result = .error x := by
  cases outcome with
  | ok value => exact ⟨⟨.ok (kind value), calls⟩, fun c session => rfl, nofun⟩
  | error e =>
      refine ⟨⟨.error e, calls⟩, fun c session => rfl, fun x hx => ?_⟩
      cases hx
      rfl
  | unfinished => exact absurd rfl h

/-- Behind an answer that shows for its batch the drain has returned. -/
theorem Settles.drained {S R A : Type} {e : Ending S R (ReadBuffer × Stream)} {inFrame : Bool}
    {outcome : Outcome NzError A} {c : Connection} {session : ReadBuffer × Stream}
    (h : Settles e inFrame outcome c session) (hown : DrainsOwn e inFrame) {a : Answer V}
    (ha : ∀ x, outcome = .error x → a.result = .error x) (hsettled : Settled a c) :
    ∃ r, e.outcome = .ok r := by
  cases hout : e.outcome with
  | ok r => exact ⟨r, rfl⟩
  | unfinished => exact absurd hout hown.finishes
  | error x =>
      obtain ⟨herror, hwaits⟩ := h.failed x hout
      rcases hsettled with ⟨q, hq⟩ | ⟨husable, hlasting⟩
      · exact absurd (hq.symm.trans (ha x herror)) nofun
      · have htimeout := (hwaits (hown.failed x hout).1 husable).1
        exact absurd (htimeout.symm.trans (hlasting x (ha x herror))) nofun

/-- What a drain and the end of its batch come to, for an answer made of `outcome` and `calls`. -/
theorem Settles.answer {S R A : Type} {e : Ending S R (ReadBuffer × Stream)} {inFrame : Bool}
    {outcome : Outcome NzError A} {connection : Connection} {session : ReadBuffer × Stream}
    (h : Settles e inFrame outcome connection session) (hown : DrainsOwn e inFrame)
    (kind : A → QueryResult V ⊕ StreamSummary) (calls : List (Callback V)) :
    ∃ a : Answer V, (∀ c session, Link.returned outcome c session kind calls =
        some (a, ⟨c, session.1, session.2⟩)) ∧
      Aligned connection (viewBytes (sessionView session)) ∧
      (Settled a connection → ∃ r, e.outcome = .ok r) := by
  obtain ⟨hfinishes, haligned⟩ := h.aligned hown
  obtain ⟨a, hreturned, herror⟩ := returned_some hfinishes kind calls
  exact ⟨a, hreturned, haligned, h.drained hown herror⟩

section Sending

variable {l : Link} {c : Command V} (hsql : c.sql.contains '\x00' = false)
  (husable : l.connection.canExecute = true)

include hsql husable

/-- A failed send ends the batch. -/
theorem runBatch_failed {send : SendOutcome} {x : NzError} (hx : send.error = some x) :
    l.runBatch files dec c send = some (⟨.error x, []⟩, { l with
      connection := (pendingOf l.connection c.sql).afterSendError l.connection.inTransaction x }) := by
  unfold Link.runBatch
  cases c.sink with
  | none =>
      dsimp only
      rw [runBatchQuery_eq files dec hsql husable, hx]
      rfl
  | some sink =>
      dsimp only
      rw [runBatchStream_eq files dec hsql husable, hx]
      rfl

/-- A batch whose packet was sent reads the response, and answers what it would on the response
alone. -/
theorem runBatch_drained (hunread : l.unread = c.response.encode)
    (hfair : c.response.Alike ∨ Unbroken (sessionView l.session)) :
    ∃ a l', l.runBatch files dec c .sent = some (a, l') ∧ Aligned l'.connection l'.unread ∧
      (Settled a l'.connection → ∀ m : Link, m.connection.canExecute = true →
        sessionView m.session = bytesView c.response.encode →
        ∃ m', m.runBatch files dec c .sent = some (a, m')) := by
  have hfuel : (sessionView l.session).length < l.fuel := Nat.lt_succ_self _
  have halone : ∀ m : Link, sessionView m.session = bytesView c.response.encode →
      c.response.encode.length < m.fuel := by
    intro m hm
    rw [Link.fuel, hm, bytesView, List.length_map]
    exact Nat.lt_succ_self _
  unfold Link.runBatch
  cases c.sink with
  | none =>
      have hown := drainResponseWithSink_own files dec (bufferedEngine_counted dec)
        (bufferedEngine_lawful dec) {} hunread hfuel hfair
      dsimp only
      rw [runBatchQuery_eq files dec hsql husable]
      obtain ⟨a, hreturned, haligned, hdrained⟩ :=
        (afterQuery_settles _).answer hown .inl []
      refine ⟨a, _, hreturned _ _, haligned, fun hsettled m hm hview => ?_⟩
      obtain ⟨r, hr⟩ := hdrained hsettled
      obtain ⟨hr', -⟩ := (drainBuffered_own files dec (bufferedEngine_counted dec)
        (bufferedEngine_lawful dec) hunread hfuel (mapError_ok hr)).2 hview (halone m hview)
      rw [runBatchQuery_eq files dec hsql hm]
      refine ⟨_, Eq.trans (congrArg (Link.returned · _ _ _ _) ?_) (hreturned _ _)⟩
      exact afterQuery_result (congrArg (Outcome.mapError drainError) hr') hr
  | some sink =>
      have hown := drainResponseWithSink_own files dec (streamEngine_counted dec sink)
        (streamEngine_lawful dec sink) {} hunread hfuel hfair
      dsimp only
      rw [runBatchStream_eq files dec hsql husable]
      obtain ⟨a, hreturned, haligned, hdrained⟩ := (afterStream_settles _).answer hown .inr _
      refine ⟨a, _, hreturned _ _, haligned, fun hsettled m hm hview => ?_⟩
      obtain ⟨r, hr⟩ := hdrained hsettled
      obtain ⟨hr', hstate⟩ := (drainBuffered_own files dec (streamEngine_counted dec sink)
        (streamEngine_lawful dec sink) hunread hfuel (mapError_ok hr)).2 hview (halone m hview)
      rw [runBatchStream_eq files dec hsql hm]
      have hdrain : (drainResponseWithSink files dec (streamEngine dec sink) m.fuel {} m.session).outcome
          = .ok r := congrArg (Outcome.mapError drainError) hr'
      obtain ⟨hsame, hcalls⟩ := afterStream_result hr hdrain hstate
      exact ⟨_, Eq.trans (congrArg₂ (Link.returned · _ _ _ ·) hsame.symm hcalls.symm) (hreturned _ _)⟩

end Sending

/-- What the connection is behind a failed send. -/
theorem sendFailed_aligned {l l' : Link} {c : Command V} {send : SendOutcome} {x : NzError}
    (hsent : Sent l l' c send) (hx : send.error = some x)
    (hfair : c.response.Alike ∨ c.write = .sent) (pending : Connection) (prev : Bool) :
    Aligned (pending.afterSendError prev x) l'.unread := by
  rcases hsent.cases with ⟨rfl, hunread⟩ | ⟨e, rfl, hfault⟩
  · rw [hunread]
    split
    next hdelivered =>
      have halike : c.response.Alike := by
        refine hfair.resolve_right fun hwrite => ?_
        rw [hwrite] at hx
        cases hx
      exact .waiting halike rfl (afterSendError_usable hdelivered hx)
    · exact .read _
  · cases hx
    exact .retired (afterSendError_fault hfault) _

/-- The command on a connection of its own. -/
def Command.alone (c : Command V) : Command V :=
  { c with arrivals := [.data c.response.encode] }

theorem encode_ne_nil (r : WireResponse) : r.encode ≠ [] := by
  simp [WireResponse.encode, Response.padded]

theorem sendQueryPacket_alone (c : Command V) :
    ∃ m, ({} : Link).sendQueryPacket c.alone = some (c.write, m) ∧
      m.connection.canExecute = true ∧
      (c.write.delivered = true → sessionView m.session = bytesView c.response.encode) := by
  obtain ⟨m, hsync, hunread, hconnection, hsocket⟩ :=
    Link.ensureProtocolSynced_synced (l := {}) c.sql rfl rfl
  unfold Link.sendQueryPacket
  rw [show c.alone.sql = c.sql from rfl, hsync]
  refine ⟨_, rfl, ?_, fun hdelivered => ?_⟩
  · split
    · rw [hconnection]
      rfl
    · rw [hconnection]
      rfl
  · rw [if_pos (show c.alone.write.delivered = true from hdelivered)]
    show m.buffer.view (m.socket ++ [.data c.response.encode]) = _
    have hbytes : viewBytes (m.buffer.view m.socket) = [] := hunread
    rw [hsocket rfl] at hbytes ⊢
    rw [ReadBuffer.view, viewBytes_append, viewBytes_bytesView, List.append_eq_nil_iff] at hbytes
    have hitems := chunked_items ReadBuffer.retries [c.response.encode]
      (by simpa using encode_ne_nil c.response)
    rw [ReadBuffer.view, hbytes.1]
    exact hitems.trans (congrArg bytesView (List.append_nil _))

/-- A command keeps a session aligned, and its answer is the one that it has alone. -/
theorem command_spec {l : Link} {c : Command V} (h : Aligned l.connection l.unread)
    (hfair : Fair l c) :
    ∃ a l', l.command files dec c = some (a, l') ∧ Aligned l'.connection l'.unread ∧
      (Settled a l'.connection → ∃ m, ({} : Link).command files dec c.alone = some (a, m)) := by
  cases hsql : c.sql.contains '\x00' with
  | true =>
      have hnul : ∀ (m : Link) (c' : Command V), c'.sql = c.sql → m.command files dec c' =
          some (⟨.error (.config "SQL contains NUL"), []⟩, m) := by
        intro m c' hsql'
        unfold Link.command
        rw [hsql', hsql, if_pos rfl]
      exact ⟨_, l, hnul l c rfl, h, fun _ => ⟨{}, hnul {} c.alone rfl⟩⟩
  | false =>
  cases husable : l.connection.canExecute with
  | false =>
      obtain ⟨x, hx⟩ := assertCanExecute_error husable
      refine ⟨⟨.error x, []⟩, l, ?_, h, fun hsettled => ?_⟩
      · unfold Link.command
        rw [hsql, if_neg nofun, hx]
      · rcases hsettled with ⟨q, hq⟩ | ⟨hcan, -⟩
        · cases hq
        · exact absurd (husable.symm.trans hcan) nofun
  | true =>
  have hrun : ∀ {m : Link} {c' : Command V} {send m'}, c'.sql = c.sql → m.connection.canExecute = true →
      m.sendQueryPacket c' = some (send, m') →
      m.command files dec c' = m'.runBatch files dec c' send := by
    intro m c' send m' hsql' hm hsend
    unfold Link.command
    rw [hsql', hsql, if_neg nofun, assertCanExecute_eq hm, hsend]
  obtain ⟨send, l', hsend, hsent⟩ := sendQueryPacket_spec h husable hfair
  have husable' := hsent.usable.trans husable
  rw [hrun rfl husable hsend]
  obtain ⟨m, hsend', hm, hview⟩ := sendQueryPacket_alone c
  rw [show Link.command files dec {} c.alone = _ from hrun rfl rfl hsend']
  cases hx : send.error with
  | some x =>
      refine ⟨_, _, runBatch_failed files dec hsql husable' hx, ?_, fun hsettled => ?_⟩
      · exact sendFailed_aligned hsent hx (hfair.2.imp_right fun hrest => hrest.1) _ _
      · rcases hsent.cases with ⟨rfl, -⟩ | ⟨e, rfl, hfault⟩
        · exact ⟨_, runBatch_failed files dec (c := c.alone) hsql hm hx⟩
        · cases hx
          rcases hsettled with ⟨q, hq⟩ | ⟨hcan, -⟩
          · cases hq
          · exact absurd ((afterSendError_fault hfault).symm.trans hcan) nofun
  | none =>
      rcases hsent.cases with ⟨hwrite, hunread⟩ | ⟨e, rfl, -⟩
      · obtain rfl : send = .sent := by
          cases send <;> first | rfl | cases hx
        rw [← hwrite] at hunread hview ⊢
        have hfair' := hfair.2.imp_right fun hrest => hrest.2 _ _ hsend
        obtain ⟨a, l'', hbatch, haligned, hown⟩ :=
          runBatch_drained files dec hsql husable' hunread hfair'
        refine ⟨a, l'', hbatch, haligned, fun hsettled => ?_⟩
        exact hown hsettled m hm (hview rfl)
      · cases hx

/-! ## A session -/

/-- A session from its handshake on, one command after the other. -/
def sessions : System Link (Command V) where
  initial l := l.connection = {} ∧ l.unread = []
  step l c l' := ∃ a, l.command files dec c = some (a, l')

theorem aligned_reachable {l : Link} (h : ((sessions files dec).guarded Fair).Reachable l) :
    Aligned l.connection l.unread := by
  refine h.invariant (P := fun l => Aligned l.connection l.unread) ?_ ?_
  · rintro l ⟨-, hunread⟩
    rw [hunread]
    exact .read _
  · rintro l c l' haligned ⟨hfair, a, hcommand⟩
    obtain ⟨a', l'', hcommand', haligned', -⟩ := command_spec files dec haligned hfair
    rw [hcommand] at hcommand'
    cases hcommand'
    exact haligned'

end Commands

/-- A command whose response comes behind the reads of `stalls`. -/
def setCommand (stalls : Stream) : Command Unit where
  sql := "SET X".toList
  sink := none
  write := .sent
  response := commandResponse
  arrivals := stalls ++ [.data commandResponse.encode]

theorem setCommand_fair {stalls : Stream} (h : viewBytes (stalls.items ReadBuffer.retries) = [])
    (l : Link) : Fair l (setCommand stalls) := by
  have halike : commandResponse.Alike := by
    intro entry hentry
    obtain rfl := List.mem_singleton.mp hentry
    exact nofun
  refine ⟨?_, .inl halike⟩
  show viewBytes (Stream.items _ (stalls ++ _)) = commandResponse.encode
  rw [Stream.items_append, viewBytes_append, h]
  decide

end NzRust
