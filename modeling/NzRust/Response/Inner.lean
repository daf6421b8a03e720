import NzRust.Response.Native
import NzRust.Row.Lazy
import NzRust.Row.TextLayout

/-!
# The asynchronous drain in full

`drain_response_inner` under every row policy and with either of the sinks that
a stream may hand it. A turn of its loop first takes a message from the session
and then acts on it; a row that is not retained is discarded past the buffer.
The results of what it asks of a sink are ignored by the code, so the calls are
kept apart, in their order.
-/

namespace NzRust.Response.Inner

open Wire Checked
open Handshake (Step nativeReader)
open Handshake.Native (readBytes skipBytes)
open Native (handleExternal missingDescriptor missingRowDescription)

inductive RowPolicy where
  | allRows
  | allRowsEager
  | firstExact
  | firstOptional
  | discard
  deriving DecidableEq, Repr

namespace RowPolicy

def retains (policy : RowPolicy) (resultSetIndex firstSetRowCount : Nat) : Bool :=
  match policy with
  | allRows | allRowsEager => true
  | firstExact | firstOptional => resultSetIndex == 0 && firstSetRowCount == 0
  | discard => false

def eagerlyDecodes : RowPolicy → Bool
  | allRowsEager => true
  | _ => false

end RowPolicy

/-! ## Rows, results and calls -/

/-- A row under its metadata: decoded, with the descriptor of a binary one, or raw. -/
inductive StoredRow (N : Numerics) where
  | values (columns : List ColumnDesc) (values : List (NzValue N)) (dbos : Option DbosTupleDesc)
  | raw (row : RawRow N)

structure RowSet (N : Numerics) where
  columns : List ColumnDesc
  rows : List (StoredRow N)
  nullability : Option (List Bool)

structure ParsedQueryResult (N : Numerics) where
  resultSets : List (RowSet N)
  rowsAffected : Int
  notices : List Text
  firstSetRowCount : Nat

inductive QueryStreamEvent (N : Numerics) where
  | row (row : StoredRow N)
  | notice (message : Text)
  | resultSetStart (index : Nat) (columns : List ColumnDesc) (nullability : Option (List Bool))
  | resultSetEnd (index rowCount : Nat)
  | commandComplete (tag : Text) (rowsAffected : Int)

/-- The sink that a response is drained into, if any. -/
inductive Sink where
  | none
  | events
  | batch
  deriving DecidableEq, Repr

/-- What the drain asks of its sink, and of the history that streams keep their notices in. -/
inductive Call (N : Numerics) where
  | send (event : QueryStreamEvent N)
  | pushRow (row : StoredRow N)
  | flushRows
  | pushBatch (row : StoredRow N)
  | flushBatch
  | record (message : Text)

/-! ## The state of the drain -/

structure DrainState (N : Numerics) where
  setIndex : Nat := 0
  rowCount : Nat := 0
  firstSetRowCount : Nat := 0
  started : Bool := false
  resultSets : List (RowSet N) := []
  current : Option (RowSet N) := none
  cachedColumns : Option (List ColumnDesc) := none
  tupdesc : Option DbosTupleDesc := none
  rowsAffected : Int := -1
  notices : List Text := []
  error : Option NzError := none
  decodeError : Option NzError := none
  batchExtraResultSet : Bool := false
  transaction : Bool := false

namespace DrainState

variable {N : Numerics}

def retains (st : DrainState N) (sink : Sink) (policy : RowPolicy) : Bool :=
  sink == .events || (sink == .batch && !st.batchExtraResultSet) ||
    policy.retains st.setIndex st.firstSetRowCount

/-- The open set, or the one that a row under these columns opens. -/
def openSet (st : DrainState N) (columns : List ColumnDesc) : RowSet N :=
  st.current.getD ⟨columns, [], none⟩

/-- The counters move for every row, retained or not. -/
def countRow (st : DrainState N) (set : RowSet N) : DrainState N :=
  { st with
    current := some set
    rowCount := st.rowCount + 1
    firstSetRowCount := st.firstSetRowCount + if st.setIndex = 0 then 1 else 0 }

/-- `emit_result_start`. -/
def emitResultStart (st : DrainState N) (set : RowSet N) : List (Call N) × DrainState N :=
  if st.started then ([], st)
  else ([.send (.resultSetStart st.setIndex set.columns set.nullability)], { st with started := true })

/-- Where a retained row goes. -/
def deliver (st : DrainState N) (sink : Sink) (set : RowSet N) (row : StoredRow N) :
    List (Call N) × DrainState N :=
  match sink with
  | .events =>
      let (calls, st) := st.emitResultStart set
      (calls ++ [.pushRow row], st)
  | .batch => if st.batchExtraResultSet then ([], st) else ([.pushBatch row], st)
  | .none => ([], { st with current := some { set with rows := set.rows ++ [row] } })

/-- `finish_response_set`. -/
def finishResponseSet (st : DrainState N) (sink : Sink) : List (Call N) × DrainState N :=
  let flushed : List (Call N) :=
    match sink with
    | .events => [.flushRows]
    | .batch => [.flushBatch]
    | .none => []
  match st.current with
  | none => (flushed, st)
  | some set =>
      let closed := fun st : DrainState N =>
        { st with current := none, setIndex := st.setIndex + 1, rowCount := 0, started := false }
      match sink with
      | .events =>
          let (calls, st) := st.emitResultStart set
          (flushed ++ calls ++ [.send (.resultSetEnd st.setIndex st.rowCount)], closed st)
      | .batch => (flushed, closed st)
      | .none => (flushed, closed { st with resultSets := st.resultSets ++ [set] })

end DrainState

/-! ## Taking a message -/

abbrev Session := Bytes × Stream

def wire {α : Type} (prog : Step α) : Act Session NzError α :=
  .ofProg nativeReader.port prog

def discardClosed : String := "socket closed while discarding async row"

/-- Direct reads of the socket through the scratch buffer. -/
def discardLoop (remaining : Nat) (s : Stream) : NzResult Unit × Stream :=
  if remaining = 0 then (.ok (), s)
  else
    match s.read (min remaining (16 * 1024)) with
    | (.error kind, s') => (.error (.io kind), s')
    | (.ok [], s') => (.error (.closed discardClosed), s')
    | (.ok (b :: bs), s') => discardLoop (remaining - (b :: bs).length) s'
  termination_by remaining
  decreasing_by
    simp only [List.length_cons]
    omega

/-- `discard_exact`: what is buffered is dropped in place, the rest never enters the buffer. -/
def discardExact (len : Nat) : Act Session NzError Unit := fun session =>
  let buffered := min len session.1.length
  match discardLoop (len - buffered) session.2 with
  | (.ok (), s') => ⟨.ok (), [], session.1.drop buffered, s'⟩
  | (.error e, s') => ⟨.error e, [], session.1.drop buffered, s'⟩

/-- The payload of a row, unless it is discarded. -/
def rowPayload (retain : Bool) (len : Nat) : Act Session NzError (Option Bytes) :=
  if retain then do
    let payload ← wire (readBytes len)
    return some payload
  else do
    discardExact len
    return none

/-- What a turn of the loop has read. A row that was discarded has no payload. -/
inductive Msg where
  | nothing
  | dbosRow (desc : DbosTupleDesc) (payload : Option Bytes)
  | textRow (columns : List ColumnDesc) (payload : Option Bytes)
  | rowDescription (data : Bytes)
  | rowDescriptionStandard (data : Bytes)
  | commandComplete (data : Bytes)
  | notice (data : Bytes)
  | error (data : Bytes)
  | ready

section Receive

variable {N : Numerics} (sink : Sink) (policy : RowPolicy)

def receiveRowStandard (st : DrainState N) : Act Session NzError Msg := do
  wire (skipBytes 4)
  let _ ← wire readI32
  let len ← wire (Native.readLen "rowStandardPayload" false)
  let desc ← wire (Prog.ofExcept (match st.tupdesc with
    | none => .error missingDescriptor
    | some desc => .ok desc))
  let payload ← rowPayload (st.retains sink policy) len
  return .dbosRow desc payload

def receiveDataRow (st : DrainState N) : Act Session NzError Msg := do
  let len ← wire (Native.readLen "dataRowPayload" false)
  let columns ← wire (Prog.ofExcept (match st.current.map (·.columns) <|> st.cachedColumns with
    | none => .error missingRowDescription
    | some columns => .ok columns))
  let payload ← rowPayload (st.retains sink policy) len
  return .textRow columns payload

/-- The messages that are framed by a length and kept whole. -/
def receiveFramed (code : UInt8) : Step Msg :=
  if code = Code.rowDescription then do
    let data ← Native.readCounted "rowDescriptionPayload" false
    return .rowDescription data
  else if code = Code.rowDescriptionStandard then do
    let data ← Native.readCounted "rowDescriptionStandardPayload" false
    return .rowDescriptionStandard data
  else if code = Code.commandComplete then do
    let data ← Native.readCounted "commandCompletePayload" false
    return .commandComplete data
  else if code = Code.noticeResponse then do
    let data ← Native.readCounted "noticePayload" true
    return .notice data
  else if code = Code.errorResponse then do
    let data ← Native.readCounted "errorPayload" false
    return .error data
  else if Code.isReady code then return .ready
  else if Code.isControl code then return .nothing
  else if code = Code.emptyQueryResponse ∨ code = Code.backendPayloadP then do
    let _ ← Native.readCounted "ignoredPayload" true
    return .nothing
  else do
    let _ ← Native.readCounted "unknownPayload" true
    return .nothing

/-- A zero byte is padding, and a turn of its own here. -/
def receive (files : ExternalFiles) (fuel : Nat) (st : DrainState N) : Act Session NzError Msg := do
  let code ← wire readByte
  if code = 0 then return .nothing
  else if code = Code.rowStandard then receiveRowStandard sink policy st
  else if Code.isExternal code then
    wire (handleExternal files fuel code)
    return .nothing
  else
    wire (skipBytes 4)
    if code = Code.dataRow then receiveDataRow sink policy st
    else wire (receiveFramed code)

end Receive

/-! ## Acting on a message -/

/-- The loop goes on, or the drain ends, with whether it set the mark of a decode error that left
the session aligned. -/
inductive Next (N : Numerics) where
  | go (st : DrainState N)
  | ends (result : Exec NzError (ParsedQueryResult N)) (synced : Bool)

structure Turn (N : Numerics) where
  calls : List (Call N)
  next : Next N

section Handle

variable {N : Numerics} (ops : NumberOps N) (sink : Sink) (policy : RowPolicy)

/-- A row, or an error of a value in a row whose layout is fine. -/
def classified {V : Type} (make : V → StoredRow N) :
    Exec (NzError × Bool) V → Exec NzError (NzError ⊕ StoredRow N)
  | .ok values => .ok (.inr (make values))
  | .error (.error (e, stage)) => if stage then .ok (.inl e) else fail e
  | .error .panic => panics

def buildDbos (columns : List ColumnDesc) (desc : DbosTupleDesc) (payload : Bytes) :
    Exec NzError (NzError ⊕ StoredRow N) :=
  if policy.eagerlyDecodes then
    classified (.values columns · (some desc)) (desc.parseRowClassified ops payload)
  else do
    let row ← RawRow.fromDbosRaw columns payload desc
    return .inr (.raw row)

def buildText (columns : List ColumnDesc) (payload : Bytes) :
    Exec NzError (NzError ⊕ StoredRow N) :=
  if policy.eagerlyDecodes then
    classified (.values columns · none) (TextRow.parseTextDataRowClassified ops payload columns)
  else do
    let row ← RawRow.fromTextRaw columns payload
    return .inr (.raw row)

/-- A row of the set, counted already. -/
def handleRow (st : DrainState N) (set : RowSet N) (built : Exec NzError (NzError ⊕ StoredRow N)) :
    Turn N :=
  match built with
  | .error fault => ⟨[], .ends (.error fault) false⟩
  | .ok (.inl e) => ⟨[], .go { st with decodeError := st.decodeError <|> some e }⟩
  | .ok (.inr row) =>
      let (calls, st) := st.deliver sink set row
      ⟨calls, .go st⟩

def handleRowDescription (st : DrainState N) (data : Bytes) : Turn N :=
  let (calls, st) := st.finishResponseSet sink
  let extra := sink == .batch && decide (0 < st.setIndex)
  match parseRowDescription data with
  | .error e => ⟨calls, .ends (fail e) false⟩
  | .ok columns =>
      ⟨calls, .go { st with
        batchExtraResultSet := st.batchExtraResultSet || extra
        cachedColumns := some columns
        tupdesc := none
        current := some ⟨columns, [], none⟩ }⟩

def handleRowDescriptionStandard (st : DrainState N) (data : Bytes) : Turn N :=
  match DbosTupleDesc.parse data st.cachedColumns with
  | .error e => ⟨[], .ends (fail e) false⟩
  | .ok desc =>
      let set := st.openSet (st.cachedColumns.getD desc.toColumnDescs)
      ⟨[], .go { st with
        tupdesc := some desc
        current := some { set with nullability := some (desc.fields.map (·.nullAllowed)) } }⟩

/-- `trim_matches('\0')`. -/
def trimNuls (text : Text) : Text :=
  DbosTupleDesc.trimEndMatches '\x00' (text.dropWhile (· == '\x00'))

def handleCommandComplete (st : DrainState N) (data : Bytes) : Turn N :=
  let text := fromUtf8Lossy data
  let count := parseCommandCompleteRows text
  let st := { st with
    transaction :=
      (transactionStateOf (DbosTupleDesc.trimEndMatches '\x00' text)).1.getD st.transaction
    rowsAffected := addRows st.rowsAffected count }
  let (calls, st) : List (Call N) × DrainState N :=
    match sink with
    | .events =>
        let (started, st) :=
          match st.current with
          | some set => st.emitResultStart set
          | none => ([], st)
        (started ++ [.flushRows, .send (.commandComplete (trimNuls text) count)], st)
    | _ => ([], st)
  let (closing, st) := st.finishResponseSet sink
  ⟨calls ++ closing, .go st⟩

def handleNotice (st : DrainState N) (data : Bytes) : Turn N :=
  let message := (parseBackendErrorFields data).message
  if message.isEmpty then ⟨[], .go st⟩
  else
    match sink with
    | .events => ⟨[.record message, .flushRows, .send (.notice message)], .go st⟩
    | .batch => ⟨[.record message], .go st⟩
    | .none => ⟨[], .go { st with notices := st.notices ++ [message] }⟩

def batchesOnlyFirst : NzError :=
  .config "query_batches only exposes the first result set; use query_stream_events for multiple result sets"

def handleReady (st : DrainState N) : Turn N :=
  let (calls, st) := st.finishResponseSet sink
  match st.error with
  | some e => ⟨calls, .ends (fail e) false⟩
  | none =>
      match st.decodeError with
      | some e => ⟨calls, .ends (fail e) true⟩
      | none =>
          if st.batchExtraResultSet then ⟨calls, .ends (fail batchesOnlyFirst) false⟩
          else
            ⟨calls,
              .ends (.ok ⟨st.resultSets, st.rowsAffected, st.notices, st.firstSetRowCount⟩) false⟩

def handle (st : DrainState N) : Msg → Turn N
  | .nothing => ⟨[], .go st⟩
  | .dbosRow desc payload =>
      let set := st.openSet (st.cachedColumns.getD desc.toColumnDescs)
      let st := st.countRow set
      match payload with
      | none => ⟨[], .go st⟩
      | some payload => handleRow sink st set (buildDbos ops policy set.columns desc payload)
  | .textRow columns payload =>
      let set := st.openSet columns
      let st := st.countRow set
      match payload with
      | none => ⟨[], .go st⟩
      | some payload => handleRow sink st set (buildText ops policy set.columns payload)
  | .rowDescription data => handleRowDescription sink st data
  | .rowDescriptionStandard data => handleRowDescriptionStandard st data
  | .commandComplete data => handleCommandComplete sink st data
  | .notice data => handleNotice sink st data
  | .error data =>
      ⟨[], .go { st with error := st.error <|> some (.database (parseBackendErrorFields data)) }⟩
  | .ready => handleReady sink st

end Handle

/-! ## The loop -/

/-- How a drain ended, with what it asked of its sink and wrote to the backend. -/
structure Ended (N : Numerics) where
  outcome : Outcome (Fault NzError) (ParsedQueryResult N)
  synced : Bool
  calls : List (Call N)
  sent : Bytes
  transaction : Bool
  session : Session

def outcomeOf {ε α : Type} : Exec ε α → Outcome (Fault ε) α
  | .ok a => .ok a
  | .error fault => .error fault

section Loop

variable {N : Numerics} (ops : NumberOps N) (files : ExternalFiles) (sink : Sink)
  (policy : RowPolicy)

def drainLoop : Nat → DrainState N → Session → Ended N
  | 0, st, session => ⟨.unfinished, false, [], [], st.transaction, session⟩
  | fuel + 1, st, session =>
      let received := receive sink policy files fuel st session
      match received.outcome with
      | .unfinished => ⟨.unfinished, false, [], received.sent, st.transaction, received.peer⟩
      | .error e => ⟨.error (.error e), false, [], received.sent, st.transaction, received.peer⟩
      | .ok msg =>
          let turn := handle ops sink policy st msg
          match turn.next with
          | .ends result synced =>
              ⟨outcomeOf result, synced, turn.calls, received.sent, st.transaction, received.peer⟩
          | .go st' =>
              let rest := drainLoop fuel st' received.peer
              { rest with
                calls := turn.calls ++ rest.calls
                sent := received.sent ++ rest.sent }

def drainResponseInner (fuel : Nat) (transaction : Bool) (session : Session) : Ended N :=
  drainLoop ops files sink policy fuel { transaction := transaction } session

end Loop

end NzRust.Response.Inner
