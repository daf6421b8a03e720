import NzRust.Response.Totals
import NzRust.Session.Unread

/-!
# A synchronous session

`NzConnection` with its read buffer and its socket, from one command to the next.
The server answers every packet that reaches it with one response. How the
response is cut into reads, where the reads are interrupted and how the write of
the packet ends is left open; an interruption in front of an orphaned response
is one that outlasts the deadline of its drain.
-/

namespace NzRust

open Wire Response

structure Link where
  connection : Connection := {}
  buffer : ReadBuffer := ReadBuffer.new
  socket : Stream := []

namespace Link

def session (l : Link) : ReadBuffer × Stream :=
  (l.buffer, l.socket)

/-- What the server has sent and no drain has taken. -/
def unread (l : Link) : Bytes :=
  viewBytes (sessionView l.session)

/-- Every turn of a drain takes an item of what there is to read. -/
def fuel (l : Link) : Nat :=
  (sessionView l.session).length + 1

/-- `ensure_protocol_synced`, for a connection that has its stream. -/
def ensureProtocolSynced (l : Link) (context : Text) : Outcome NzError Unit × Link :=
  let mustWaitForReady := l.connection.protocolSyncRequired
  let pulled := l.buffer.pullAvailable l.socket
  let l := { l with buffer := pulled.2.1, socket := pulled.2.2 }
  if l.buffer.available = 0 ∧ mustWaitForReady = false then (.ok (), l)
  else
    let l := { l with buffer := l.buffer.discardLeadingNulls.2 }
    if l.buffer.available = 0 ∧ mustWaitForReady = false then (.ok (), l)
    else
      let r := (drainOrphaned context l.fuel).run Handshake.syncReader.port l.session
      match r.outcome with
      | .ok () =>
          (.ok (), {
            connection := { l.connection with protocolSyncRequired := false }
            buffer := r.peer.1.discardLeadingNulls.2
            socket := r.peer.2 })
      | .error e => (.error e, { l with buffer := r.peer.1, socket := r.peer.2 })
      | .unfinished => (.unfinished, l)

end Link

/-- A batch, with or without a sink, and what the server and the socket do about it. -/
structure Command (V : Type) where
  sql : Text
  sink : Option (Sink V)
  write : SendOutcome
  response : WireResponse
  /-- The reads that find the response. -/
  arrivals : Stream

/-- What the caller gets: a stored result, or the summary of a stream and what its sink was
told. -/
structure Answer (V : Type) where
  result : NzResult (QueryResult V ⊕ StreamSummary)
  calls : List (Callback V) := []

/-- A batch without a sink. -/
structure QueryBatch (V : Type) where
  outcome : Outcome NzError (QueryResult V)
  connection : Connection
  session : ReadBuffer × Stream

section Batch

variable {V : Type} (files : ExternalFiles) (dec : Decoder V)

/-- The end of `drain_response_with_sink` and of `run_batch_with_duration` behind it. -/
def afterQuery (c : Connection) (sql : Text) (prev inFrame : Bool)
    (e : Ending (SyncState V) (Drained V) (ReadBuffer × Stream)) : QueryBatch V :=
  match e.outcome with
  | .unfinished => ⟨.unfinished, c, e.session⟩
  | .error x =>
      let c := if isCommandTimeout x then c.afterDrainTimeout inFrame else c
      ⟨.error x, ({ c with executing := false }.restoreTxOnError sql prev).markFaultedAfter false x,
        e.session⟩
  | .ok r =>
      let c := { c with protocolSyncRequired := false, executing := false }
      match r.result with
      | .ok q => ⟨.ok (batchResult q), c, e.session⟩
      | .error x =>
          ⟨.error x, (c.restoreTxOnError sql prev).markFaultedAfter r.decodeErrorSynced x, e.session⟩

/-- `run_batch_with_duration` on the session that the send leaves. -/
def runBatchQuery (fuel : Nat) (c : Connection) (sql : Text) (send : SendOutcome)
    (session : ReadBuffer × Stream) : QueryBatch V :=
  if sql.contains '\x00' then ⟨.error (.config "SQL contains NUL"), c, session⟩
  else
    match assertCanExecute c with
    | .error x => ⟨.error x, c, session⟩
    | .ok () =>
        let pending := { c with
          executing := true
          inTransaction := (transactionStateOf sql).1.getD c.inTransaction }
        match send.error with
        | some x => ⟨.error x, pending.afterSendError c.inTransaction x, session⟩
        | none =>
            afterQuery pending sql c.inTransaction
              (frameInProgress files dec (bufferedEngine dec) fuel {} session)
              (drainResponseWithSink files dec (bufferedEngine dec) fuel {} session)

/-- The answer of a batch that has returned, with the link it leaves. -/
def Link.returned {A : Type} (outcome : Outcome NzError A) (connection : Connection)
    (session : ReadBuffer × Stream) (kind : A → QueryResult V ⊕ StreamSummary)
    (calls : List (Callback V)) : Option (Answer V × Link) :=
  match outcome with
  | .ok a => some (⟨.ok (kind a), calls⟩, ⟨connection, session.1, session.2⟩)
  | .error e => some (⟨.error e, calls⟩, ⟨connection, session.1, session.2⟩)
  | .unfinished => none

/-- The batch on the link that its send leaves. -/
def Link.runBatch (l : Link) (c : Command V) (send : SendOutcome) : Option (Answer V × Link) :=
  match c.sink with
  | none =>
      let b := runBatchQuery files dec l.fuel l.connection c.sql send l.session
      returned b.outcome b.connection b.session .inl []
  | some sink =>
      let b := runBatchStream files dec sink l.fuel l.connection c.sql send l.session
      returned b.outcome b.connection b.session .inr b.calls

/-- `send_query_packet`, and the reads that the server answers a delivered packet with. -/
def Link.sendQueryPacket (l : Link) (c : Command V) : Option (SendOutcome × Link) :=
  match l.ensureProtocolSynced c.sql with
  | (.ok (), l) =>
      some (c.write, if c.write.delivered then { l with socket := l.socket ++ c.arrivals } else l)
  | (.error e, l) => some (.notSent e, l)
  | (.unfinished, _) => none

/-- One command. Without a stream to use nothing is sent. -/
def Link.command (l : Link) (c : Command V) : Option (Answer V × Link) :=
  if c.sql.contains '\x00' then some (⟨.error (.config "SQL contains NUL"), []⟩, l)
  else
    match assertCanExecute l.connection with
    | .error x => some (⟨.error x, []⟩, l)
    | .ok () =>
        match l.sendQueryPacket c with
        | none => none
        | some (send, l) => l.runBatch files dec c send

end Batch

end NzRust
