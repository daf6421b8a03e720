import NzRust.Handshake.Common

/-!
# The synchronous handshake

The stages of `handshake`, each under the error mapping of its stage. The only
loop without a bound of its own is the wait for ReadyForQuery; it is given
fuel, and a run that uses it up is `unfinished`.
-/

namespace NzRust.Handshake.Sync

open Wire

variable {α : Type}

/-- A read that timed out is reported as a timeout of its stage. -/
def stageError (platform : Platform) (stage : String) : NzError → NzError
  | .io .wouldBlock =>
      .timeout s!"handshake {stage} timed out: {platform.describeIo .wouldBlock}"
  | .io .timedOut => .timeout s!"handshake {stage} timed out: {platform.describeIo .timedOut}"
  | e => e

def readByte : Step UInt8 := do
  let bytes ← Prog.take 1
  return bytes.headD 0

def readI32 : Step Int := do
  let bytes ← Prog.take 4
  return ByteString.beInt bytes

/-! ## Backend errors -/

def isLegacyTextByte (b : UInt8) : Bool :=
  if 0x20 ≤ b then b != 0x7f else b == 0x09 || b == 0x0a || b == 0x0d

/-- What one byte of a legacy text does to the characters read before it. -/
def legacyByte (minChars : Nat) (chars : Bytes) (more : Bytes → Step (Option Bytes)) :
    NzResult Bytes → Step (Option Bytes)
  | .error _ => .ret none
  | .ok bytes =>
      let b := bytes.headD 0
      if b = 0 then .ret (if chars.length < minChars then none else some chars)
      else if isLegacyTextByte b then more (chars ++ [b])
      else .ret none

/-- The loop of `read_legacy_error_text_into`, with room for that many more characters. -/
def legacyLoop (minChars : Nat) : Nat → Bytes → Step (Option Bytes)
  | 0, chars => .read 1 (legacyByte minChars chars fun _ => .ret none)
  | room + 1, chars => .read 1 (legacyByte minChars chars (legacyLoop minChars room))

/-- A NUL-terminated text of at most 4096 bytes, or nothing when the bytes cannot be one. -/
def readLegacyErrorText (minChars : Nat) (chars : Bytes) : Step (Option Bytes) :=
  if 4096 < chars.length then .ret none
  else legacyLoop minChars (4096 - chars.length) chars

def databaseError (data : Bytes) : Step α :=
  .fail (.database (parseBackendErrorFields data))

/-- The length-prefixed error frame. -/
def framedError (stage : String) (len : Int) : Step α :=
  match validateProtocolLength len s!"{stage}FrameLength" false with
  | .error e => .fail e
  | .ok l =>
      if 4 ≤ l then
        match validateProtocolLength (l - 4) s!"{stage}Payload" true with
        | .error e => .fail e
        | .ok bodyLen => (Prog.take bodyLen).bind databaseError
      else
        .fail (.protocol s!"Invalid backend protocol length for '{stage}Payload': frame is smaller than its 4-byte overhead.")

/-- A text ends the error; without one the frame is read on. -/
def textOr (fallback : Step α) : Option Bytes → Step α
  | some text => databaseError text
  | none => fallback

/-- The zero-length legacy form: a NUL-terminated text behind the length field. -/
def zeroLengthError (stage : String) (len : Int) : NzResult Bytes → Step α
  | .error e => .fail e
  | .ok bytes =>
      let first := bytes.headD 0
      if first = 0 then databaseError []
      else if isLegacyTextByte first then
        (readLegacyErrorText 4 [first]).bind (textOr (framedError stage len))
      else framedError stage len

def throwBackendError (stage : String) : Step α :=
  (Prog.take 4).bind fun lenBuf =>
    let len := ByteString.beInt lenBuf
    let framed : Step α :=
      if len = 0 then .read 1 (zeroLengthError stage len) else framedError stage len
    -- a printable length field is the start of a message without one
    if lenBuf.all (fun b => 0x20 ≤ b && b ≤ 0x7e) then
      (readLegacyErrorText 0 lenBuf).bind (textOr framed)
    else framed

/-! ## Stages -/

/-- The single-byte acknowledgement. -/
def expectN (platform : Platform) (stage : String) : Step Unit := do
  let b ← readByte.mapError (stageError platform stage)
  if b = letterN then return ()
  else if b = letterE then throwBackendError stage
  else .fail (.protocol s!"Handshake {stage}: unexpected response byte 0x{hexByte b}")

/-- Version negotiation; a downgrade is strict, so the versions below the first bound the rounds. -/
def connHandshakeNegotiate : Nat → Nat → Step Nat
  | 0, _ => .unfinished
  | rounds + 1, version => do
      writeI16Frame hsv2ClientBegin [version]
      let beresp ← readByte
      if beresp = letterN then return version
      else if beresp = letterM then
        let c ← readByte
        match proposedVersion c with
        | none =>
            .fail (.protocol s!"Handshake negotiation: server suggested unknown version {c.toNat}")
        | some proposed =>
            Prog.ofExcept (validateVersionDowngrade version proposed)
            connHandshakeNegotiate rounds proposed
      else if beresp = letterE then throwBackendError "handshakeNegotiationError"
      else .fail (.protocol "Handshake negotiation: bad protocol error")

def connSendDatabase (database : Bytes) : Step Unit := do
  writeCstringFrame hsv2Db database
  let beresp ← readByte
  if beresp = letterN then return ()
  else if beresp = letterE then throwBackendError "databaseSelectionError"
  else .fail (.protocol "Handshake: unknown database selection response")

/-- Whether the server wants TLS. -/
def connSecureSession (level : SecurityLevel) : Step Bool := do
  writeI32Frame hsv2SslNegotiate level.asI32
  let beresp ← readByte
  if beresp = letterN then
    if level = .onlySecuredSession then
      .fail (.protocol "Server refused secure session, but OnlySecuredSession was requested.")
    else return false
  else if beresp = letterS then return true
  else if beresp = letterE then throwBackendError "secureSessionError"
  else .fail (.protocol "Handshake: unknown secure-session response")

def sendOption (platform : Platform) (option : HandshakeOption) : Step Unit := do
  writeFrame option.opcode option.payload
  match option.ackAfter with
  | some stage => expectN platform stage
  | none => return ()

def sendOptions (platform : Platform) : List HandshakeOption → Step Unit
  | [] => return ()
  | option :: options => do
      sendOption platform option
      sendOptions platform options

def connSendOptions (platform : Platform) (config : NzConnectionConfig) (version : Nat) :
    Step Unit :=
  sendOptions platform (optionPlan platform config version)

def connAuthenticate (platform : Platform) (password : Bytes) : Step Unit := do
  let beresp ← readByte
  if beresp = letterE then throwBackendError "authenticationError"
  else if beresp = letterR then
    let request ← readI32
    let saltLen ← Prog.ofExcept (authSaltLen request)
    let salt ← Prog.take saltLen
    match ← Prog.ofExcept (authResponse platform request password salt) with
    | some payload => writeAuthResponse payload
    | none => return ()
  else
    .fail (.protocol s!"Authentication error: unexpected response byte 0x{hexByte beresp}")

/-- The loop until ReadyForQuery. -/
def connConnectionComplete : Nat → HandshakeResult → Step HandshakeResult
  | 0, _ => .unfinished
  | fuel + 1, result => do
      let beresp ← readByte
      if beresp = 0 then connConnectionComplete fuel result
      else if beresp = letterR then
        let _ ← readI32
        connConnectionComplete fuel result
      else if beresp = letterE then throwBackendError "connectionCompleteError"
      else
        -- every other message carries a prefix of four bytes
        let _ ← Prog.take 4
        if beresp = letterK then
          let _ ← Prog.take 4
          let backendProcessId ← readI32
          let backendSecretKey ← readI32
          connConnectionComplete fuel ⟨backendProcessId, backendSecretKey⟩
        else if beresp = letterZ then return result
        else if beresp = letterN then
          let len ← readI32
          let len ← Prog.ofExcept (validateProtocolLength len "connectionCompleteNoticePayload" true)
          let _ ← Prog.take len
          connConnectionComplete fuel result
        else
          .fail (.protocol s!"Handshake connection complete: unexpected response byte 0x{hexByte beresp}")

/-! ## The handshake -/

/-- What follows the database selection and the answer to the SSL request. -/
def connRest (platform : Platform) (config : NzConnectionConfig) (fuel version : Nat) :
    Step HandshakeResult := do
  (connSendOptions platform config version).mapError (stageError platform "options")
  (connAuthenticate platform config.password).mapError (stageError platform "authentication")
  (connConnectionComplete fuel ⟨0, 0⟩).mapError (stageError platform "complete")

/-- The plaintext `SSL_CONNECT` frame, the upgrade and the confirmation over TLS. -/
def connUpgrade (platform : Platform) : Step Unit := do
  (writeI16Frame hsv2SslConnect []).mapError (stageError platform "ssl-connect")
  Prog.switch.mapError (stageError platform "tls-upgrade")
  (expectN platform "sslHandshake").mapError (stageError platform "ssl-confirm")

def handshake (platform : Platform) (config : NzConnectionConfig) (fuel : Nat) :
    Step HandshakeResult := do
  let version ← (connHandshakeNegotiate 6 6).mapError (stageError platform "negotiate")
  (connSendDatabase config.database).mapError (stageError platform "database")
  let secure ←
    (connSecureSession config.securityLevel).mapError (stageError platform "security")
  (if secure then connUpgrade platform else return ())
  connRest platform config fuel version

end NzRust.Handshake.Sync
