import NzRust.Connection.Transaction
import NzRust.Response.Message

/-!
# The synchronous buffered drain

`drain_response_with_sink` without a sink. One turn of the loop reads one
message; a zero byte in front of a message is a turn of its own. The inner loop
of the source over rows that are already buffered decodes the same frames with
the same descriptor and is not a step of its own here. Local files appear only
through what opening and reading them yields.
-/

namespace NzRust.Response

open Wire
open Handshake (Step)

variable {V : Type}

/-! ## Reads -/

def readByte : Step UInt8 := do
  let bytes ← Prog.take 1
  return bytes.headD 0

def readI32 : Step Int := do
  let bytes ← Prog.take 4
  return ByteString.beInt bytes

/-- `skip` checks the length under its own name. -/
def skip (n : Nat) : Step Unit := do
  Prog.ofExcept (ReadBuffer.checkLen n "buffer skip")
  let _ ← Prog.take n
  return ()

def skipFrameHeader : Step Unit :=
  skip 4

def readLen (field : String) : Step Nat := do
  let len ← readI32
  Prog.ofExcept (validateProtocolLength len field true)

def readPayload (len : Nat) : Step Bytes :=
  Prog.take len

/-- A length and as many bytes. -/
def readCounted (field : String) : Step Bytes := do
  let len ← readLen field
  readPayload len

/-! ## External-table messages -/

/-- The local files behind external tables: whether an export file or log could be created, and
the chunks and clean end of an import source that could be opened. -/
structure ExternalFiles where
  creates : Text → Bool
  chunks : Text → Nat → Option (List Bytes × Bool)

def decodeFilename (bytes : Bytes) : NzResult Text :=
  let bytes := if bytes.getLast? = some 0 then bytes.dropLast else bytes
  match fromUtf8 bytes with
  | none => .error (.protocol "external filename is not UTF-8")
  | some name =>
      if name.isEmpty || name.contains '\x00' then .error (.protocol "invalid external filename")
      else .ok name

def sendI32 (value : Int) : Step Unit :=
  Prog.send (ByteString.toBe 4 value)

def handleExportStart (files : ExternalFiles) : Step Unit := do
  skipFrameHeader
  skip 10
  skip 16
  let len ← readLen "externalTableExportFilename"
  if len = 0 then
    .fail (.protocol "Invalid external-table export filename length; reconnect is required.")
  else
    let name ← readPayload len
    let filename ← Prog.ofExcept (decodeFilename name)
    if files.creates filename then sendI32 0 else sendI32 1

/-- The status loop of an export. -/
def consumeExportStream : Nat → Step Unit
  | 0 => .unfinished
  | fuel + 1 => do
      let status ← readI32
      if status = 1 then
        let _ ← readCounted "externalTableExportDataChunk"
        consumeExportStream fuel
      else if status = 2 then
        let len ← Prog.take 2
        let _ ← readPayload (ByteString.beNat len)
        return ()
      else return ()

def handleExportData (fuel : Nat) : Step Unit := do
  skipFrameHeader
  skip 4
  consumeExportStream fuel

/-- A NUL-terminated name of at most 4096 bytes. -/
def readName (tooLong : NzError) : Nat → Bytes → Step Bytes
  | 0, _ => .fail tooLong
  | room + 1, name => do
      let b ← Prog.take 1
      if b.headD 0 = 0 then return name
      else if 4096 < name.length + 1 then .fail tooLong
      else readName tooLong room (name ++ b)

def sendChunks : List Bytes → Step Unit
  | [] => return ()
  | chunk :: chunks => do
      Prog.send (ByteString.toBe 4 1 ++ ByteString.toBe 4 chunk.length)
      Prog.send chunk
      sendChunks chunks

def sendImportReader (chunks : List Bytes) (clean : Bool) : Step Unit := do
  sendChunks chunks
  if clean then sendI32 3 else sendI32 2

def handleImport (files : ExternalFiles) : Step Unit := do
  skip 8
  let nameBytes ← readName
    (.protocol "Invalid external-table import filename; reconnect is required.") 4097 []
  let filename ← Prog.ofExcept (decodeFilename nameBytes)
  let _ ← readI32
  sendI32 1
  let _ ← readI32
  let size ← readI32
  let size ← Prog.ofExcept (validateProtocolLength size "externalTableImportBufferSize" true)
  match files.chunks filename (min (max size 1) 65536) with
  | some (chunks, clean) => sendImportReader chunks clean
  | none => sendI32 2

def logChunks : Nat → Step Unit
  | 0 => .unfinished
  | fuel + 1 => do
      let len ← readLen "externalTableLogChunk"
      if len = 0 then return ()
      else
        let _ ← readPayload len
        logChunks fuel

def handleExtLog (fuel : Nat) : Step Unit := do
  skipFrameHeader
  let len ← readLen "fileTransfer.logDirectoryLength"
  if len = 0 then
    .fail (.protocol "Invalid external-table log directory length; reconnect is required.")
  else
    let dir ← readPayload (len - 1)
    let _ ← readPayload 1
    let _ ← Prog.ofExcept (decodeFilename dir)
    let nameBytes ← readName (.protocol "external filename is too long") 4097 []
    let _ ← Prog.ofExcept (decodeFilename nameBytes)
    let _ ← readI32
    logChunks fuel

/-- The messages handled before the shared header. -/
def handleExternal (files : ExternalFiles) (fuel : Nat) (code : UInt8) : Step Unit :=
  if code = Code.extExportStart then handleExportStart files
  else if code = Code.extExportData then handleExportData fuel
  else if code = Code.extImport then handleImport files
  else if code = Code.extCancel then skip 4
  else handleExtLog fuel

/-! ## The state of the drain -/

/-- The variables that the loop carries. `descriptor` is the shared tuple descriptor; the unwrapped
copy and its flag always follow it. -/
structure SyncState (V : Type) where
  sets : List (ResultSet V) := []
  current : Option (ResultSet V) := none
  cachedColumns : Option (List ColumnDesc) := none
  descriptor : Option DbosTupleDesc := none
  nullability : Option (List Bool) := none
  rowsAffected : Int := -1
  notices : List Text := []
  rowColumns : Option (List ColumnDesc) := none
  rowMetadata : Option (List ColumnDesc) := none
  error : Option NzError := none
  deferredDecode : Option NzError := none

namespace SyncState

/-- `flush_current`: an empty set is kept only when it has columns. -/
def flushCurrent (st : SyncState V) : SyncState V :=
  let sets :=
    match st.current with
    | none => st.sets
    | some set => if set.rows.isEmpty && set.columns.isEmpty then st.sets else st.sets ++ [set]
  { st with sets := sets, current := none, rowColumns := none }

def countMismatch (values columns : Nat) : NzError :=
  .protocol s!"Row/column count mismatch: {values} values for {columns} columns; reconnect is required."

/-- `push_existing_row`: the first row of a set without a description opens it. -/
def pushExistingRow (st : SyncState V) (row : Row V) : NzResult (SyncState V) :=
  let opened : NzResult (ResultSet V × Option (List ColumnDesc)) :=
    match st.current with
    | some set => .ok (set, st.rowColumns)
    | none =>
        if !row.columns.isEmpty && row.values.length != row.columns.length then
          .error (countMismatch row.values.length row.columns.length)
        else
          .ok (⟨row.columns, [], st.nullability⟩, some row.columns)
  match opened with
  | .error e => .error e
  | .ok (set, rowColumns) =>
      if !set.columns.isEmpty && row.values.length != set.columns.length then
        .error (countMismatch row.values.length set.columns.length)
      else
        .ok { st with
              current := some { set with rows := set.rows ++ [row] }
              rowColumns := rowColumns <|> some set.columns }

/-- A decoded row is stored under the metadata of its set, created from `columns` if need be. -/
def storeDecoded (st : SyncState V) (columns : List ColumnDesc) : Decoded V → NzResult (SyncState V)
  | .malformed e => .error e
  | .undecodable e => .ok { st with deferredDecode := st.deferredDecode <|> some e }
  | .row values =>
      let metadata := st.rowMetadata.getD columns
      { st with rowMetadata := some metadata }.pushExistingRow ⟨metadata, values⟩

def missingDescriptor : NzError :=
  .protocol "DBOS row descriptor is missing"

/-- The columns that a binary row is stored under. -/
def dbosColumns (st : SyncState V) (desc : DbosTupleDesc) : List ColumnDesc :=
  (st.rowColumns <|> st.cachedColumns).getD desc.toColumnDescs

/-- The columns that a text row is parsed with. -/
def textColumns (st : SyncState V) : Option (List ColumnDesc) :=
  st.rowColumns <|> st.cachedColumns <|> st.current.map (·.columns)

def addNotice (st : SyncState V) (data : Bytes) : SyncState V :=
  let msg := (parseBackendErrorFields data).message
  if msg.isEmpty then st else { st with notices := st.notices ++ [msg] }

def addError (st : SyncState V) (data : Bytes) : SyncState V :=
  { st with error := st.error <|> some (.database (parseBackendErrorFields data)) }

def addCount (st : SyncState V) (data : Bytes) : SyncState V :=
  { st with
    rowsAffected := addRows st.rowsAffected (parseCommandCompleteRows (fromUtf8Lossy data)) }

/-- RowDescription closes the set before it and opens the next. -/
def describe (st : SyncState V) (columns : List ColumnDesc) : SyncState V :=
  { st.flushCurrent with
    cachedColumns := some columns
    nullability := none
    rowColumns := some columns
    rowMetadata := some columns
    current := some ⟨columns, [], none⟩ }

/-- RowDescriptionStandard gives the open set its nullability; without any columns so far it
supplies them. -/
def describeStandard (st : SyncState V) (desc : DbosTupleDesc) : SyncState V :=
  let nullability := some (desc.fields.map (·.nullAllowed))
  let fresh := st.current.isNone && st.cachedColumns.isNone
  { st with
    descriptor := some desc
    nullability := nullability
    cachedColumns := if fresh then some desc.toColumnDescs else st.cachedColumns
    rowMetadata := if fresh then some desc.toColumnDescs else st.rowMetadata
    current := st.current.map fun set => { set with nullability := nullability } }

/-- The end of the drain: the first backend error, else a deferred decoding error, else the result. -/
def finish (st : SyncState V) : Drained V :=
  let st := st.flushCurrent
  match st.error with
  | some e => ⟨.error e, false⟩
  | none =>
      match st.deferredDecode with
      | some e => ⟨.error e, true⟩
      | none => ⟨.ok ⟨st.sets, st.rowsAffected, st.notices⟩, false⟩

end SyncState

/-! ## The message loop -/

/-- `read_dbos_tuple_into` and the row it yields. -/
def rowStandard (dec : Decoder V) (st : SyncState V) : Step (SyncState V) := do
  skipFrameHeader
  match st.descriptor with
  | none => .fail SyncState.missingDescriptor
  | some desc =>
      skip 4
      let len ← readI32
      let len ← Prog.ofExcept (validateProtocolLength len "rowStandardPayload" false)
      let payload ← readPayload len
      Prog.ofExcept (st.storeDecoded (st.dbosColumns desc) (dec.dbos desc payload))

def missingRowDescription : NzError :=
  .protocol "Invalid DataRow sequence: row description is missing; reconnect is required."

def dataRow (dec : Decoder V) (st : SyncState V) (data : Bytes) : NzResult (SyncState V) :=
  match st.textColumns with
  | none => .error missingRowDescription
  | some columns => st.storeDecoded columns (dec.text columns data)

/-- A message with the shared header and a length-prefixed payload. -/
def framedMessage (dec : Decoder V) (st : SyncState V) (code : UInt8) : Step (SyncState V) :=
  if code = Code.commandComplete then do
    let data ← readCounted "commandCompletePayload"
    return { (st.addCount data).flushCurrent with rowMetadata := none }
  else if code = Code.emptyQueryResponse then do
    let _ ← readCounted "emptyQueryPayload"
    return st
  else if code = Code.backendPayloadP then do
    let _ ← readCounted "backendPayloadP"
    return st
  else if code = Code.errorResponse then do
    let data ← readCounted "errorResponsePayload"
    return st.addError data
  else if code = Code.noticeResponse then do
    let data ← readCounted "noticeResponsePayload"
    return st.addNotice data
  else if code = Code.rowDescription then do
    let data ← readCounted "rowDescriptionPayload"
    let columns ← Prog.ofExcept (parseRowDescription data)
    return st.describe columns
  else if code = Code.dataRow then do
    let data ← readCounted "dataRowPayload"
    Prog.ofExcept (dataRow dec st data)
  else if code = Code.rowDescriptionStandard then do
    let data ← readCounted "rowDescriptionStandardPayload"
    let desc ← Prog.ofExcept (DbosTupleDesc.parse data st.cachedColumns)
    return st.describeStandard desc
  else do
    let _ ← readCounted "unknownMessagePayload"
    return st

/-- The loop up to ReadyForQuery. -/
def drainLoop (files : ExternalFiles) (dec : Decoder V) : Nat → SyncState V → Step (Drained V)
  | 0, _ => .unfinished
  | fuel + 1, st => do
      let code ← readByte
      if code = 0 then drainLoop files dec fuel st
      else if Code.isExternal code then
        handleExternal files fuel code
        drainLoop files dec fuel st
      else if code = Code.rowStandard then
        let st ← rowStandard dec st
        drainLoop files dec fuel st
      else
        skipFrameHeader
        if Code.isReady code then return st.finish
        else if Code.isControl code then drainLoop files dec fuel st
        else
          let st ← framedMessage dec st code
          drainLoop files dec fuel st

/-- A command timeout is reported as such, whatever read it interrupted. -/
def drainError (e : NzError) : NzError :=
  if isCommandTimeout e then .timeout "Command execution timeout" else e

def drainResponse (files : ExternalFiles) (dec : Decoder V) (fuel : Nat) : Step (Drained V) :=
  (drainLoop files dec fuel {}).mapError drainError

end NzRust.Response
