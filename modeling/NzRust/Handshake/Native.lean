import NzRust.Handshake.Common

/-!
# The asynchronous handshake

`AsyncSession::handshake`. It shares the option plan and the authentication
response with the synchronous one; its error frames are length-prefixed only,
and its payload reads are checked before the buffer is filled.
-/

namespace NzRust.Handshake.Native

open Wire

variable {α : Type}

def readByte : Step UInt8 := do
  let bytes ← Prog.take 1
  return bytes.headD 0

def readI32 : Step Int := do
  let bytes ← Prog.take 4
  return ByteString.beInt bytes

def readBytes (len : Nat) : Step Bytes := do
  let _ ← Prog.ofExcept (validateProtocolLength (ByteString.signed 32 (len % 2 ^ 32)) "asyncPayload" true)
  Prog.take len

def skipBytes (len : Nat) : Step Unit := do
  let _ ← Prog.take len
  return ()

def readBackendError (stage : String) : Step α := do
  let length ← readI32
  match validateProtocolLength length stage false with
  | .error e => .fail e
  | .ok value =>
      if 4 ≤ value then
        let data ← readBytes (value - 4)
        .fail (.database (parseBackendErrorFields data))
      else .fail (.protocol s!"invalid {stage} frame length")

def expectAck (stage : String) : Step Unit := do
  let b ← readByte
  if b = letterN then return ()
  else if b = letterE then readBackendError stage
  else .fail (.protocol s!"handshake {stage}: unexpected byte 0x{hexByte b}")

def negotiateVersion : Nat → Nat → Step Nat
  | 0, _ => .unfinished
  | rounds + 1, version => do
      writeI16Frame hsv2ClientBegin [version]
      let b ← readByte
      if b = letterN then return version
      else if b = letterM then
        let c ← readByte
        match proposedVersion c with
        | none => .fail (.protocol s!"unknown handshake version byte {c.toNat}")
        | some proposed =>
            Prog.ofExcept (validateVersionDowngrade version proposed)
            negotiateVersion rounds proposed
      else if b = letterE then readBackendError "handshakeNegotiationError"
      else .fail (.protocol s!"handshake negotiation: unexpected byte 0x{hexByte b}")

/-- The answer to the SSL request, up to and including the upgrade it may ask for. -/
def secureSession (level : SecurityLevel) : Step Unit := do
  writeI32Frame hsv2SslNegotiate level.asI32
  let b ← readByte
  if b = letterN ∧ level ≠ .onlySecuredSession then return ()
  else if b = letterS then
    writeI16Frame hsv2SslConnect []
    Prog.switch
    expectAck "sslHandshake"
  else if b = letterN then
    .fail (.protocol "server refused secure session, but OnlySecuredSession was requested")
  else if b = letterE then readBackendError "secureSessionError"
  else .fail (.protocol s!"handshake secure-session response: unexpected byte 0x{hexByte b}")

def sendOption (option : HandshakeOption) : Step Unit := do
  writeFrame option.opcode option.payload
  match option.ackAfter with
  | some stage => expectAck stage
  | none => return ()

def sendOptions : List HandshakeOption → Step Unit
  | [] => return ()
  | option :: options => do
      sendOption option
      sendOptions options

def authenticate (platform : Platform) (password : Bytes) : Step Unit := do
  let b ← readByte
  if b = letterR then
    let request ← readI32
    let saltLen ← Prog.ofExcept (authSaltLen request)
    let salt ← readBytes saltLen
    match ← Prog.ofExcept (authResponse platform request password salt) with
    | some payload => writeAuthResponse payload
    | none => return ()
  else if b = letterE then readBackendError "authenticationError"
  else .fail (.protocol s!"authentication: unexpected response byte 0x{hexByte b}")

/-- The loop until ReadyForQuery. -/
def connectionComplete : Nat → HandshakeResult → Step HandshakeResult
  | 0, _ => .unfinished
  | fuel + 1, result => do
      let msg ← readByte
      if msg = 0 then connectionComplete fuel result
      else if msg = letterR then
        let _ ← readI32
        connectionComplete fuel result
      else if msg = letterE then readBackendError "connectionCompleteError"
      else
        skipBytes 4
        if msg = letterK then
          skipBytes 4
          let backendProcessId ← readI32
          let backendSecretKey ← readI32
          connectionComplete fuel ⟨backendProcessId, backendSecretKey⟩
        else if msg = letterZ then return result
        else if msg = letterN then
          let len ← readI32
          let len ← Prog.ofExcept (validateProtocolLength len "connectionCompleteNotice" true)
          let _ ← readBytes len
          connectionComplete fuel result
        else .fail (.protocol s!"connection complete: unexpected byte 0x{hexByte msg}")

def handshake (platform : Platform) (config : NzConnectionConfig) (fuel : Nat) :
    Step HandshakeResult := do
  let version ← negotiateVersion 6 6
  writeCstringFrame hsv2Db config.database
  expectAck "database"
  secureSession config.securityLevel
  sendOptions (optionPlan platform config version)
  authenticate platform config.password
  connectionComplete fuel ⟨0, 0⟩

end NzRust.Handshake.Native
