import NzRust.Core.Digits
import NzRust.Handshake.Peers
import NzRust.Row.Columns

/-!
# Backend messages

The wire format of a response: the message codes, the results that a drain
assembles and the messages with their encoding. Zero bytes may stand before
every message. A row decoder is a parameter of both drains; it separates a row
whose layout is wrong from one whose layout is fine and whose value is not.
-/

namespace NzRust

namespace Code

def errorResponse : UInt8 := 69
def noticeResponse : UInt8 := 78
def readyForQuery : UInt8 := 90
def rowDescription : UInt8 := 84
def rowDescriptionStandard : UInt8 := 88
def dataRow : UInt8 := 68
def commandComplete : UInt8 := 67
def emptyQueryResponse : UInt8 := 73
def rowStandard : UInt8 := 89
def readyForQueryAlt : UInt8 := 76
def controlZero : UInt8 := 48
def controlA : UInt8 := 65
def backendPayloadP : UInt8 := 80
def extExportStart : UInt8 := 117
def extExportData : UInt8 := 85
def extImport : UInt8 := 108
def extCancel : UInt8 := 120
def extLog : UInt8 := 101

/-- The external-table messages, which do not share the frame of the others. -/
def isExternal (code : UInt8) : Bool :=
  code == extExportStart || code == extExportData || code == extImport || code == extCancel ||
    code == extLog

def isReady (code : UInt8) : Bool :=
  code == readyForQuery || code == readyForQueryAlt

def isControl (code : UInt8) : Bool :=
  code == controlZero || code == controlA

/-- The codes followed by a header, a length and a payload. -/
def isFramed (code : UInt8) : Bool :=
  code != 0 && code != rowStandard && !isExternal code && !isReady code && !isControl code

theorem isFramed_spec {code : UInt8} (h : isFramed code = true) :
    code ≠ 0 ∧ code ≠ rowStandard ∧ isExternal code = false ∧ isReady code = false ∧
      isControl code = false := by
  simp only [isFramed, Bool.and_eq_true, bne_iff_ne, ne_eq, Bool.not_eq_true'] at h
  exact ⟨h.1.1.1.1, h.1.1.1.2, h.1.1.2, h.1.2, h.2⟩

theorem isControl_spec {code : UInt8} (h : isControl code = true) :
    code ≠ 0 ∧ code ≠ rowStandard ∧ isExternal code = false ∧ isReady code = false := by
  simp only [isControl, Bool.or_eq_true, beq_iff_eq] at h
  rcases h with rfl | rfl <;> decide

theorem isReady_spec {code : UInt8} (h : isReady code = true) :
    code ≠ 0 ∧ code ≠ rowStandard ∧ isExternal code = false := by
  simp only [isReady, Bool.or_eq_true, beq_iff_eq] at h
  rcases h with rfl | rfl <;> decide

end Code

/-! ## Results -/

/-- What decoding the payload of a row yields. -/
inductive Decoded (V : Type) where
  | row (values : List V)
  | undecodable (error : NzError)
  | malformed (error : NzError)

/-- The row decoders, shared by the engines: a row has a value for each column or field, a text row
of any column has bytes, and a wrong layout is a protocol fault. -/
structure Decoder (V : Type) where
  text : List ColumnDesc → Bytes → Decoded V
  dbos : DbosTupleDesc → Bytes → Decoded V
  text_length : ∀ {columns data values}, text columns data = .row values →
    values.length = columns.length
  dbos_length : ∀ {desc data values}, dbos desc data = .row values →
    values.length = desc.numFields
  text_nil : ∀ {columns}, columns ≠ [] → ∃ e, text columns [] = .malformed e
  text_malformed : ∀ {columns data e}, text columns data = .malformed e →
    e.isProtocolFault = true
  dbos_malformed : ∀ {desc data e}, dbos desc data = .malformed e → e.isProtocolFault = true

structure Row (V : Type) where
  columns : List ColumnDesc
  values : List V
  deriving DecidableEq, Repr

structure ResultSet (V : Type) where
  columns : List ColumnDesc
  rows : List (Row V)
  nullability : Option (List Bool)
  deriving DecidableEq, Repr

structure QueryResult (V : Type) where
  resultSets : List (ResultSet V)
  rowsAffected : Int
  notices : List Text
  deriving DecidableEq, Repr

/-- How a drain that reached ReadyForQuery ends. -/
structure Drained (V : Type) where
  result : NzResult (QueryResult V)
  decodeErrorSynced : Bool

/-! ## CommandComplete -/

def countingCommands : List Text :=
  ["INSERT".toList, "UPDATE".toList, "DELETE".toList, "SELECT".toList]

/-- The last word of a counting command, or `-1`. -/
def parseCommandCompleteRows (commandText : Text) : Int :=
  match splitWhitespace (trim (commandText.filter (· != '\x00'))) with
  | [] => -1
  | command :: values =>
      if countingCommands.contains (command.map Char.toUpper) then
        match values.getLast? with
        | none => -1
        | some last => (parseSigned 64 last).getD (-1)
      else -1

/-- `rows_affected` is an `i64` and wraps. -/
def addRows (rowsAffected n : Int) : Int :=
  if n < 0 then rowsAffected
  else if rowsAffected < 0 then n
  else ByteString.signed 64 ((rowsAffected + n) % 2 ^ 64).toNat

end NzRust
