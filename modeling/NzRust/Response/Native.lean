import NzRust.Handshake.Native
import NzRust.Response.Sync

/-!
# The asynchronous drain

`drain_response_inner` without a sink, under the policy that retains and
decodes every row. An open set carries its rows under its own columns, since
the metadata beside them is always built from the same columns.
-/

namespace NzRust.Response.Native

open Wire
open Handshake (Step)
open Handshake.Native (readBytes skipBytes)

variable {V : Type}

def readLen (field : String) (allowZero : Bool) : Step Nat := do
  let len ← readI32
  Prog.ofExcept (validateProtocolLength len field allowZero)

def readCounted (field : String) (allowZero : Bool) : Step Bytes := do
  let len ← readLen field allowZero
  readBytes len

/-! ## External-table messages -/

def handleExportStart (files : ExternalFiles) : Step Unit := do
  skipBytes 4
  skipBytes 10
  skipBytes 16
  let len ← readLen "externalTableExportFilename" true
  if len = 0 then .fail (.protocol "Invalid external-table export filename length")
  else
    let name ← readBytes len
    let filename ← Prog.ofExcept (decodeFilename name)
    if files.creates filename then sendI32 0 else sendI32 1

def exportLoop : Nat → Step Unit
  | 0 => .unfinished
  | fuel + 1 => do
      let status ← readI32
      if status = 1 then
        let _ ← readCounted "externalTableExportDataChunk" true
        exportLoop fuel
      else if status = 2 then
        let len ← readBytes 2
        let _ ← readBytes (ByteString.beNat len)
        return ()
      else return ()

def handleExportData (fuel : Nat) : Step Unit := do
  skipBytes 4
  skipBytes 4
  exportLoop fuel

def handleImport (files : ExternalFiles) : Step Unit := do
  skipBytes 8
  let name ← readName (.protocol "Invalid external-table import filename") 4097 []
  let filename ← Prog.ofExcept (decodeFilename name)
  let _ ← readI32
  sendI32 1
  let _ ← readI32
  let size ← readLen "externalTableImportBufferSize" true
  match files.chunks filename (min (max size 1) 65536) with
  | some (chunks, clean) => sendImportReader chunks clean
  | none => sendI32 2

def logChunks : Nat → Step Unit
  | 0 => .unfinished
  | fuel + 1 => do
      let len ← readLen "externalTableLogChunk" true
      if len = 0 then return ()
      else
        let _ ← readBytes len
        logChunks fuel

def handleExtLog (fuel : Nat) : Step Unit := do
  skipBytes 4
  let len ← readLen "fileTransfer.logDirectoryLength" true
  if len = 0 then .fail (.protocol "Invalid external-table log directory length")
  else
    let directory ← readBytes (len - 1)
    let _ ← readBytes 1
    let name ← readName (.protocol "external log filename is too long") 4097 []
    let _ ← readI32
    let _ ← Prog.ofExcept (decodeFilename directory)
    let _ ← Prog.ofExcept (decodeFilename name)
    logChunks fuel

def handleExternal (files : ExternalFiles) (fuel : Nat) (code : UInt8) : Step Unit :=
  if code = Code.extExportStart then handleExportStart files
  else if code = Code.extExportData then handleExportData fuel
  else if code = Code.extImport then handleImport files
  else if code = Code.extCancel then skipBytes 4
  else handleExtLog fuel

/-! ## The state of the drain -/

structure NativeState (V : Type) where
  sets : List (ResultSet V) := []
  current : Option (ResultSet V) := none
  cachedColumns : Option (List ColumnDesc) := none
  descriptor : Option DbosTupleDesc := none
  rowsAffected : Int := -1
  notices : List Text := []
  error : Option NzError := none
  decodeError : Option NzError := none
  transaction : Bool := false

namespace NativeState

/-- `finish_response_set`. -/
def finishSet (st : NativeState V) : NativeState V :=
  match st.current with
  | none => st
  | some set => { st with sets := st.sets ++ [set], current := none }

/-- The open set, created without nullability if there is none. -/
def openSet (st : NativeState V) (columns : List ColumnDesc) : ResultSet V :=
  st.current.getD ⟨columns, [], none⟩

/-- What becomes of a row of the set that is open now. -/
def storeDecoded (st : NativeState V) (set : ResultSet V) : Decoded V → NzResult (NativeState V)
  | .malformed e => .error e
  | .undecodable e =>
      .ok { st with current := some set, decodeError := st.decodeError <|> some e }
  | .row values =>
      .ok { st with current := some { set with rows := set.rows ++ [⟨set.columns, values⟩] } }

def addNotice (st : NativeState V) (data : Bytes) : NativeState V :=
  let message := (parseBackendErrorFields data).message
  if message.isEmpty then st else { st with notices := st.notices ++ [message] }

def addError (st : NativeState V) (data : Bytes) : NativeState V :=
  { st with error := st.error <|> some (.database (parseBackendErrorFields data)) }

/-- CommandComplete also moves the session's transaction flag. -/
def complete (st : NativeState V) (data : Bytes) : NativeState V :=
  let text := fromUtf8Lossy data
  let tag := (text.reverse.dropWhile (· == '\x00')).reverse
  { st with
    transaction := (transactionStateOf tag).1.getD st.transaction
    rowsAffected := addRows st.rowsAffected (parseCommandCompleteRows text) }.finishSet

def describe (st : NativeState V) (columns : List ColumnDesc) : NativeState V :=
  { st.finishSet with
    cachedColumns := some columns
    descriptor := none
    current := some ⟨columns, [], none⟩ }

def describeStandard (st : NativeState V) (desc : DbosTupleDesc) : NativeState V :=
  let set := st.openSet (st.cachedColumns.getD desc.toColumnDescs)
  { st with
    descriptor := some desc
    current := some { set with nullability := some (desc.fields.map (·.nullAllowed)) } }

def finish (st : NativeState V) : Drained V :=
  let st := st.finishSet
  match st.error with
  | some e => ⟨.error e, false⟩
  | none =>
      match st.decodeError with
      | some e => ⟨.error e, true⟩
      | none => ⟨.ok ⟨st.sets, st.rowsAffected, st.notices⟩, false⟩

end NativeState

/-! ## The message loop -/

def missingDescriptor : NzError :=
  .protocol "DBOS row received before descriptor"

def rowStandard (dec : Decoder V) (st : NativeState V) : Step (NativeState V) := do
  skipBytes 4
  let _ ← readI32
  let len ← readLen "rowStandardPayload" false
  match st.descriptor with
  | none => .fail missingDescriptor
  | some desc =>
      let payload ← readBytes len
      Prog.ofExcept
        (st.storeDecoded (st.openSet (st.cachedColumns.getD desc.toColumnDescs))
          (dec.dbos desc payload))

def missingRowDescription : NzError :=
  .protocol "DataRow received before RowDescription"

def dataRow (dec : Decoder V) (st : NativeState V) : Step (NativeState V) := do
  let len ← readLen "dataRowPayload" false
  match st.current.map (·.columns) <|> st.cachedColumns with
  | none => .fail missingRowDescription
  | some columns =>
      let data ← readBytes len
      Prog.ofExcept (st.storeDecoded (st.openSet columns) (dec.text columns data))

def framedMessage (dec : Decoder V) (st : NativeState V) (code : UInt8) : Step (NativeState V) :=
  if code = Code.rowDescription then do
    let data ← readCounted "rowDescriptionPayload" false
    let columns ← Prog.ofExcept (parseRowDescription data)
    return st.describe columns
  else if code = Code.dataRow then dataRow dec st
  else if code = Code.rowDescriptionStandard then do
    let data ← readCounted "rowDescriptionStandardPayload" false
    let desc ← Prog.ofExcept (DbosTupleDesc.parse data st.cachedColumns)
    return st.describeStandard desc
  else if code = Code.commandComplete then do
    let data ← readCounted "commandCompletePayload" false
    return st.complete data
  else if code = Code.noticeResponse then do
    let data ← readCounted "noticePayload" true
    return st.addNotice data
  else if code = Code.errorResponse then do
    let data ← readCounted "errorPayload" false
    return st.addError data
  else if code = Code.emptyQueryResponse ∨ code = Code.backendPayloadP then do
    let _ ← readCounted "ignoredPayload" true
    return st
  else do
    let _ ← readCounted "unknownPayload" true
    return st

def drainLoop (files : ExternalFiles) (dec : Decoder V) : Nat → NativeState V → Step (Drained V)
  | 0, _ => .unfinished
  | fuel + 1, st => do
      let code ← readByte
      if code = 0 then drainLoop files dec fuel st
      else if code = Code.rowStandard then
        let st ← rowStandard dec st
        drainLoop files dec fuel st
      else if Code.isExternal code then
        handleExternal files fuel code
        drainLoop files dec fuel st
      else
        skipBytes 4
        if Code.isReady code then return st.finish
        else if Code.isControl code then drainLoop files dec fuel st
        else
          let st ← framedMessage dec st code
          drainLoop files dec fuel st

def drainResponse (files : ExternalFiles) (dec : Decoder V) (fuel : Nat) : Step (Drained V) :=
  drainLoop files dec fuel {}

end NzRust.Response.Native
