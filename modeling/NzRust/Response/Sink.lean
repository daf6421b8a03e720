import NzRust.Response.Sync

/-!
# The synchronous drain with a sink, and its fast path

`drain_response_with_sink` over the read buffer itself. After a row that was
stored, the rows that are already buffered are decoded from there; the loop is
entered again at the first frame that is not complete. What the two forms of the
drain do with a message, with and without a sink, is an `Engine`.
-/

namespace NzRust.Response

open Wire
open Handshake (Step)

/-! ## Sinks -/

/-- The calls that a sink receives, with their arguments. -/
inductive Callback (V : Type) where
  | columns (index : Nat) (columns : List ColumnDesc) (nullability : Option (List Bool))
  | values (index : Nat) (columns : List ColumnDesc) (values : List V)
  | notice (message : Text)
  | commandComplete (tag : Text) (rowsAffected : Int)

/-- What a sink answers to the last of the calls it has received. -/
abbrev Sink (V : Type) := List (Callback V) → NzResult Unit

structure StreamResultSet where
  columns : List ColumnDesc
  nullability : Option (List Bool)
  rowCount : Nat
  deriving DecidableEq, Repr

/-- The variables of the loop that a drain with a sink uses, the calls made so far and the number of
cancel packets sent for the sink. -/
structure StreamState (V : Type) where
  resultSets : List StreamResultSet := []
  columnsSent : List Bool := []
  nextIndex : Nat := 0
  currentIndex : Option Nat := none
  cachedColumns : Option (List ColumnDesc) := none
  descriptor : Option DbosTupleDesc := none
  nullability : Option (List Bool) := none
  rowsAffected : Int := -1
  notices : List Text := []
  error : Option NzError := none
  deferredDecode : Option NzError := none
  sinkError : Option NzError := none
  sinkCancelSent : Bool := false
  cancels : Nat := 0
  calls : List (Callback V) := []

/-- What `drain_response_with_sink` returns, and whether a decoding error left the stream aligned. -/
structure StreamDrained (V : Type) where
  result : NzResult (QueryResult V × List StreamResultSet × Option NzError)
  decodeErrorSynced : Bool

namespace StreamState

variable {V : Type} (sink : Sink V)

/-- A call while no error is recorded; whether it failed. -/
def call (st : StreamState V) (cb : Callback V) : StreamState V × Bool :=
  let st := { st with calls := st.calls ++ [cb] }
  match sink st.calls with
  | .ok () => (st, false)
  | .error e => ({ st with sinkError := some e }, true)

/-- `cancel_if_sink_aborted!`. -/
def cancelIfSinkAborted (r : StreamState V × Bool) : StreamState V :=
  if r.2 && !r.1.sinkCancelSent then
    { r.1 with sinkCancelSent := true, cancels := r.1.cancels + 1 }
  else r.1

def ensureStreamResultSet (st : StreamState V) (columns : List ColumnDesc)
    (nullability : Option (List Bool)) : StreamState V × Nat :=
  match st.currentIndex with
  | some index => (st, index)
  | none =>
      ({ st with
          nextIndex := st.nextIndex + 1
          resultSets := st.resultSets ++ [⟨columns, nullability, 0⟩]
          columnsSent := st.columnsSent ++ [false]
          currentIndex := some st.nextIndex }, st.nextIndex)

def setAt (st : StreamState V) (index : Nat) : StreamResultSet :=
  st.resultSets.getD index ⟨[], none, 0⟩

def emitStreamColumns (st : StreamState V) (index : Nat) : StreamState V × Bool :=
  if st.sinkError.isSome then ({ st with columnsSent := st.columnsSent.set index true }, false)
  else if st.columnsSent.getD index false then (st, false)
  else
    let r := st.call sink (.columns index (st.setAt index).columns (st.setAt index).nullability)
    ({ r.1 with columnsSent := r.1.columnsSent.set index true }, r.2)

def emitStreamRow (st : StreamState V) (index : Nat) (values : List V) : StreamState V × Bool :=
  let r := st.emitStreamColumns sink index
  let r :=
    if r.1.sinkError.isNone then
      let r' := r.1.call sink (.values index (r.1.setAt index).columns values)
      (r'.1, r.2 || r'.2)
    else r
  ({ r.1 with
      resultSets := r.1.resultSets.modify index fun set => { set with rowCount := set.rowCount + 1 } },
    r.2)

def finishStreamResultSet (st : StreamState V) : StreamState V × Bool :=
  match st.currentIndex with
  | none => (st, false)
  | some index => { st with currentIndex := none }.emitStreamColumns sink index

def missingDescription : NzError :=
  .protocol "Invalid RowStandard sequence: row description is missing; reconnect is required."

def deferDecode (st : StreamState V) (e : NzError) : StreamState V :=
  { st with deferredDecode := st.deferredDecode <|> some e }

/-- A decoded row goes to the current set, or opens one with `columns`. -/
def streamRow (st : StreamState V) (columns : List ColumnDesc) :
    Decoded V → NzResult (StreamState V × Option Nat)
  | .malformed e => .error e
  | .undecodable e => .ok (st.deferDecode e, none)
  | .row values =>
      let opened := st.ensureStreamResultSet columns st.nullability
      .ok (cancelIfSinkAborted (opened.1.emitStreamRow sink opened.2 values), some opened.2)

/-- A row of the inner loop goes to the set of the row before it. -/
def streamAvailable (index : Nat) (st : StreamState V) : Decoded V → NzResult (StreamState V)
  | .malformed e => .error e
  | .undecodable e => .ok (st.deferDecode e)
  | .row values => .ok (cancelIfSinkAborted (st.emitStreamRow sink index values))

def commandTag (text : Text) : Text :=
  trim ((text.dropWhile (· == '\x00')).reverse.dropWhile (· == '\x00')).reverse

def completeCommand (st : StreamState V) (data : Bytes) : StreamState V :=
  let text := fromUtf8Lossy data
  let n := parseCommandCompleteRows text
  let st := { st with rowsAffected := addRows st.rowsAffected n }
  let st := cancelIfSinkAborted (st.finishStreamResultSet sink)
  if st.sinkError.isNone then cancelIfSinkAborted (st.call sink (.commandComplete (commandTag text) n))
  else st

def addNotice (st : StreamState V) (data : Bytes) : StreamState V :=
  let msg := (parseBackendErrorFields data).message
  if msg.isEmpty then st
  else
    let st := if st.sinkError.isNone then cancelIfSinkAborted (st.call sink (.notice msg)) else st
    { st with notices := st.notices ++ [msg] }

def addError (st : StreamState V) (data : Bytes) : StreamState V :=
  { st with error := st.error <|> some (.database (parseBackendErrorFields data)) }

def describe (st : StreamState V) (columns : List ColumnDesc) : StreamState V :=
  let st := cancelIfSinkAborted (st.finishStreamResultSet sink)
  { (st.ensureStreamResultSet columns none).1 with
    cachedColumns := some columns
    nullability := none }

def describeStandard (st : StreamState V) (desc : DbosTupleDesc) : StreamState V :=
  let nullability := some (desc.fields.map (·.nullAllowed))
  let columns := st.cachedColumns.getD desc.toColumnDescs
  let st :=
    { st with descriptor := some desc, nullability := nullability, cachedColumns := some columns }
  let opened := st.ensureStreamResultSet columns nullability
  let st :=
    { opened.1 with
      resultSets := opened.1.resultSets.modify opened.2 fun set =>
        { set with nullability := nullability } }
  cancelIfSinkAborted (st.emitStreamColumns sink opened.2)

/-- ReadyForQuery closes the last set; an error of its sink is recorded and not cancelled. -/
def finish (st : StreamState V) : StreamState V × StreamDrained V :=
  let st := (st.finishStreamResultSet sink).1
  let result : QueryResult V := ⟨[], st.rowsAffected, st.notices⟩
  match st.sinkError with
  | some e => (st, ⟨.ok (result, st.resultSets, some e), false⟩)
  | none =>
      match st.error with
      | some e => (st, ⟨.error e, false⟩)
      | none =>
          match st.deferredDecode with
          | some e => ({ st with deferredDecode := none }, ⟨.error e, true⟩)
          | none => (st, ⟨.ok (result, st.resultSets, none), false⟩)

end StreamState

/-! ## What a drain does with its messages -/

/-- The state `S` of a drain, its result `R`, and what its inner loop over rows has captured. -/
structure Engine (V S R K : Type) where
  descriptor : S → NzResult DbosTupleDesc
  row : S → DbosTupleDesc → Decoded V → NzResult (S × Option K)
  available : K → S → DbosTupleDesc → Decoded V → NzResult S
  framed : S → UInt8 → Step S
  finish : S → S × R

section Engines

variable {V : Type} (dec : Decoder V)

/-- Without a sink: rows are stored. -/
def bufferedEngine : Engine V (SyncState V) (Drained V) Unit where
  descriptor st :=
    match st.descriptor with
    | none => .error SyncState.missingDescriptor
    | some desc => .ok desc
  row st desc decoded :=
    (st.storeDecoded (st.dbosColumns desc) decoded).map fun st =>
      match decoded with
      | .row _ => (st, some ())
      | _ => (st, none)
  available _ st desc decoded := st.storeDecoded (st.dbosColumns desc) decoded
  framed st code := framedMessage dec st code
  finish st := (st.flushCurrent, st.finish)

variable (sink : Sink V)

/-- The text row of a drain with a sink. -/
def streamDataRow (st : StreamState V) (data : Bytes) : NzResult (StreamState V) :=
  match st.cachedColumns with
  | none => .error missingRowDescription
  | some columns => (st.streamRow sink columns (dec.text columns data)).map (·.1)

def streamFramed (st : StreamState V) (code : UInt8) : Step (StreamState V) :=
  if code = Code.commandComplete then do
    let data ← readCounted "commandCompletePayload"
    return st.completeCommand sink data
  else if code = Code.emptyQueryResponse then do
    let _ ← readCounted "emptyQueryPayload"
    return st
  else if code = Code.backendPayloadP then do
    let _ ← readCounted "backendPayloadP"
    return st
  else if code = Code.errorResponse then do
    let data ← readCounted "errorResponsePayload"
    return st.addError data
  else if code = Code.noticeResponse then do
    let data ← readCounted "noticeResponsePayload"
    return st.addNotice sink data
  else if code = Code.rowDescription then do
    let data ← readCounted "rowDescriptionPayload"
    let columns ← Prog.ofExcept (parseRowDescription data)
    return st.describe sink columns
  else if code = Code.dataRow then do
    let data ← readCounted "dataRowPayload"
    Prog.ofExcept (streamDataRow dec sink st data)
  else if code = Code.rowDescriptionStandard then do
    let data ← readCounted "rowDescriptionStandardPayload"
    let desc ← Prog.ofExcept (DbosTupleDesc.parse data st.cachedColumns)
    return st.describeStandard sink desc
  else do
    let _ ← readCounted "unknownMessagePayload"
    return st

/-- With a sink: rows are handed on. -/
def streamEngine : Engine V (StreamState V) (StreamDrained V) Nat where
  descriptor st :=
    match st.descriptor with
    | none => .error StreamState.missingDescription
    | some desc => .ok desc
  row st desc decoded := st.streamRow sink (st.cachedColumns.getD desc.toColumnDescs) decoded
  available index st _ decoded := st.streamAvailable sink index decoded
  framed st code := streamFramed dec sink st code
  finish st := st.finish sink

end Engines

/-! ## The loop -/

section Loop

variable {V S R K : Type} (files : ExternalFiles) (dec : Decoder V) (E : Engine V S R K)

/-- One message: the loop goes on, or looks for buffered rows first, or ends. -/
inductive Turn (S R K : Type) where
  | next (st : S)
  | rows (k : K) (desc : DbosTupleDesc) (st : S)
  | done (st : S) (result : R)

/-- The payload of a row under its length word. -/
def readRow (st : S) (desc : DbosTupleDesc) (len : Int) : Step (Turn S R K) := do
  let len ← Prog.ofExcept (validateProtocolLength len "rowStandardPayload" false)
  let payload ← readPayload len
  let stored ← Prog.ofExcept (E.row st desc (dec.dbos desc payload))
  match stored with
  | (st, none) => return .next st
  | (st, some k) => return .rows k desc st

/-- `read_dbos_tuple_into`, from the frame header on. -/
def rowTurn (st : S) : Step (Turn S R K) := do
  skipFrameHeader
  let desc ← Prog.ofExcept (E.descriptor st)
  skip 4
  let len ← readI32
  readRow dec E st desc len

/-- A message of the outer loop; a zero byte in front of one is a turn of its own. -/
def turn (fuel : Nat) (st : S) : Step (Turn S R K) := do
  let code ← readByte
  if code = 0 then return .next st
  else if Code.isExternal code then
    handleExternal files fuel code
    return .next st
  else if code = Code.rowStandard then rowTurn dec E st
  else
    skipFrameHeader
    if Code.isReady code then return .done (E.finish st).1 (E.finish st).2
    else if Code.isControl code then return .next st
    else
      let st ← E.framed st code
      return .next st

/-- `try_read_available_dbos_row`: the row at the front of the buffer, when all of it is there, and
the length of its frame. -/
def tryReadAvailableDbosRow (desc : DbosTupleDesc) (b : ReadBuffer) :
    NzResult (Option (Decoded V × Nat)) :=
  let available := b.slice
  if available.length < 13 ∨ available.headD 0 ≠ Code.rowStandard then .ok none
  else
    match validateProtocolLength (ByteString.beInt ((available.drop 9).take 4))
        "rowStandardPayload" false with
    | .error e => .error e
    | .ok rowLen =>
        if available.length < 13 + rowLen then .ok none
        else .ok (some (dec.dbos desc ((available.drop 13).take rowLen), 13 + rowLen))

/-- A frame that was found fits the window and is not empty. -/
theorem tryReadAvailableDbosRow_frame {desc : DbosTupleDesc} {b : ReadBuffer} {d : Decoded V}
    {frameLen : Nat} (h : tryReadAvailableDbosRow dec desc b = .ok (some (d, frameLen))) :
    13 ≤ frameLen ∧ frameLen ≤ b.available := by
  unfold tryReadAvailableDbosRow at h
  dsimp only at h
  split at h
  · cases h
  split at h
  · cases h
  next rowLen hlen =>
    split at h
    · cases h
    next hfits =>
      cases h
      rw [ReadBuffer.slice_length] at hfits
      omega

/-- The inner loop over the buffered rows. -/
def availableRows (k : K) (desc : DbosTupleDesc) (st : S) (b : ReadBuffer) :
    NzResult Unit × S × ReadBuffer :=
  match h : tryReadAvailableDbosRow dec desc b with
  | .error e => (.error e, st, b)
  | .ok none => (.ok (), st, b)
  | .ok (some (decoded, frameLen)) =>
      have _hframe := tryReadAvailableDbosRow_frame dec h
      match E.available k st desc decoded with
      | .error e => (.error e, st, b)
      | .ok st' => availableRows k desc st' (b.advance frameLen)
termination_by b.available
decreasing_by
  have hstop := b.start_le_stop
  simp only [ReadBuffer.available, ReadBuffer.advance] at *
  omega

/-- How a drain ended, the state it had reached, what it wrote and the session it left. -/
structure Ending (S R σ : Type) where
  outcome : Outcome NzError R
  state : S
  sent : Bytes
  session : σ

def Ending.after {σ : Type} (sent : Bytes) (e : Ending S R σ) : Ending S R σ :=
  { e with sent := sent ++ e.sent }

/-- The outer loop over a buffer and a socket. -/
def drainBuffered : Nat → S → ReadBuffer × Stream → Ending S R (ReadBuffer × Stream)
  | 0, st, session => ⟨.unfinished, st, [], session⟩
  | fuel + 1, st, session =>
      let r := (turn files dec E fuel st).run Handshake.syncReader.port session
      match r.outcome with
      | .error e => ⟨.error e, st, r.sent, r.peer⟩
      | .unfinished => ⟨.unfinished, st, r.sent, r.peer⟩
      | .ok (.done st' result) => ⟨.ok result, st', r.sent, r.peer⟩
      | .ok (.next st') => (drainBuffered fuel st' r.peer).after r.sent
      | .ok (.rows k desc st') =>
          match availableRows dec E k desc st' r.peer.1 with
          | (.error e, st'', b) => ⟨.error e, st'', r.sent, (b, r.peer.2)⟩
          | (.ok (), st'', b) => (drainBuffered fuel st'' (b, r.peer.2)).after r.sent

/-- `drain_response_with_sink` on a session; at the end a large buffer is given back. -/
def drainResponseWithSink (fuel : Nat) (st : S) (session : ReadBuffer × Stream) :
    Ending S R (ReadBuffer × Stream) :=
  let e := drainBuffered files dec E fuel st session
  ⟨e.outcome.mapError drainError, e.state, e.sent, (e.session.1.shrinkIfLarge, e.session.2)⟩

end Loop

end NzRust.Response
