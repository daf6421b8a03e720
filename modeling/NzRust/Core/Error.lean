import NzRust.Core.Text

/-!
# Driver errors

The error type of the driver, the parse of a backend ErrorResponse and the
check on backend-supplied lengths. The code never inspects its own messages,
and they stay Lean strings.
-/

namespace NzRust

/-- The `std::io::ErrorKind`s that the driver tells apart. -/
inductive IoErrorKind where
  | wouldBlock
  | timedOut
  | interrupted
  | notFound
  | permissionDenied
  | invalidInput
  | notADirectory
  | filesystemLoop
  | other
  deriving DecidableEq, Repr

/-- Structured database error built from a backend ErrorResponse payload. -/
structure NzDatabaseError where
  severity : Option Text := none
  code : Option Text := none
  message : Text := []
  detail : Option Text := none
  hint : Option Text := none
  diagnostics : List (Char × Text) := []
  raw : Text := []
  deriving DecidableEq, Repr

/-- The fields of a structured ErrorResponse: a type byte and a NUL-terminated value each. -/
def errorFields : Nat → Bytes → List (Char × Text)
  | 0, _ => []
  | _ + 1, [] => []
  | fuel + 1, fieldType :: rest =>
      if fieldType = 0 then []
      else
        (Char.ofNat fieldType.toNat, fromUtf8Lossy (rest.takeWhile (· != 0))) ::
          errorFields fuel (rest.dropWhile (· != 0)).tail

def NzDatabaseError.setField (err : NzDatabaseError) (field : Char) (value : Text) :
    NzDatabaseError :=
  let err := { err with diagnostics := err.diagnostics ++ [(field, value)] }
  if field = 'S' ∧ err.severity.isNone then { err with severity := some value }
  else if field = 'V' then { err with severity := some value }
  else if field = 'C' then { err with code := some value }
  else if field = 'M' then { err with message := value }
  else if field = 'D' then { err with detail := some value }
  else if field = 'H' then { err with hint := some value }
  else err

/-- A message for a body without one: its text, or a fixed sentence when that is empty. -/
def fallbackMessage (raw : Text) : Text :=
  let text := trim (raw.filter (· != '\x00'))
  if text.isEmpty then "Netezza backend returned an empty error response".toList else text

def parseBackendErrorFields (data : Bytes) : NzDatabaseError :=
  let raw := fromUtf8Lossy data
  let err : NzDatabaseError := { raw := (raw.reverse.dropWhile (· == '\x00')).reverse }
  let err :=
    if 2 ≤ data.countP (· == 0) then
      (errorFields data.length data).foldl (fun err field => err.setField field.1 field.2) err
    else err
  if err.message.isEmpty then { err with message := fallbackMessage raw } else err

/-- Top-level driver error. -/
inductive NzError where
  | io (kind : IoErrorKind)
  | protocol (message : String)
  | database (error : NzDatabaseError)
  | config (message : String)
  | unsupported (message : String)
  | closed (message : String)
  | timeout (message : String)
  | cancelled (message : String)
  deriving DecidableEq, Repr

/-- The variants of the error type. -/
inductive ErrorKind where
  | io
  | protocol
  | database
  | config
  | unsupported
  | closed
  | timeout
  | cancelled
  deriving DecidableEq, Repr

def NzError.kind : NzError → ErrorKind
  | .io _ => .io
  | .protocol _ => .protocol
  | .database _ => .database
  | .config _ => .config
  | .unsupported _ => .unsupported
  | .closed _ => .closed
  | .timeout _ => .timeout
  | .cancelled _ => .cancelled

abbrev NzResult (α : Type) := Except NzError α

def NzDatabaseError.display (err : NzDatabaseError) : String :=
  String.ofList err.message ++
    match err.code with
    | some code => s!" (SQLSTATE {String.ofList code})"
    | none => ""

/-- `Display`, without the text of an operating system error. -/
def NzError.display : NzError → String
  | .io _ => "I/O error"
  | .protocol message => s!"protocol error: {message}"
  | .database err => s!"database error: {err.display}"
  | .config message => s!"config error: {message}"
  | .unsupported message => s!"unsupported: {message}"
  | .closed message => s!"connection closed: {message}"
  | .timeout message => s!"timeout: {message}"
  | .cancelled message => s!"cancelled: {message}"

/-- Protocol faults, after which the socket must be dropped. -/
def NzError.isProtocolFault : NzError → Bool
  | .protocol _ => true
  | _ => false

/-- Upper bound for length-prefixed protocol fields. -/
def maxProtocolPayload : Nat := 10000000

/-- `validate_protocol_length`: a checked backend length, as the `usize` every caller casts it to. -/
def validateProtocolLength (length : Int) (field : String) (allowZero : Bool) : NzResult Nat :=
  if length < 0 then
    .error (.protocol s!"Invalid backend protocol length for '{field}': {length}; negative lengths are not valid. The connection is no longer safe to reuse; reconnect is required.")
  else if !allowZero && length == 0 then
    .error (.protocol s!"Invalid backend protocol length for '{field}': 0; zero is not valid for this field. The connection is no longer safe to reuse; reconnect is required.")
  else if length > maxProtocolPayload then
    .error (.protocol s!"Invalid backend protocol length for '{field}': {length}; maximum supported payload is {maxProtocolPayload} bytes. The connection is no longer safe to reuse; reconnect is required.")
  else
    .ok length.toNat

/-- The lengths a frame may announce. -/
theorem validateProtocolLength_eq_ok {length : Int} {field : String} {allowZero : Bool} {n : Nat} :
    validateProtocolLength length field allowZero = .ok n ↔
      length = n ∧ n ≤ maxProtocolPayload ∧ (allowZero = true ∨ 0 < n) := by
  unfold validateProtocolLength
  cases allowZero <;> simp only [Bool.not_true, Bool.not_false, Bool.false_and, Bool.true_and,
    beq_iff_eq, Bool.false_eq_true, if_false]
  · split
    · simp; omega
    · split
      · simp; omega
      · split
        · simp; omega
        · simp only [Except.ok.injEq]; omega
  · split
    · simp; omega
    · split
      · simp; omega
      · simp only [Except.ok.injEq, true_or, and_true]; omega

/-- Every rejected length is reported as a protocol fault. -/
theorem validateProtocolLength_error {length : Int} {field : String} {allowZero : Bool}
    {e : NzError} (h : validateProtocolLength length field allowZero = .error e) :
    e.isProtocolFault = true := by
  unfold validateProtocolLength at h
  split at h
  · cases h; rfl
  · split at h
    · cases h; rfl
    · split at h
      · cases h; rfl
      · cases h

end NzRust
