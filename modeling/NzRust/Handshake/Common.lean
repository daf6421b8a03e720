import NzRust.Core.Error
import NzRust.Lib.Bytes
import NzRust.Lib.Wire

/-!
# Decisions shared by the two handshakes

The wire layout of handshake frames, the version negotiation rule, the plan of
option frames and the authentication response. The strings of a configuration
reach the wire only as bytes and are kept as such; the hash functions, the
process id and the operating system name come from the platform.
-/

namespace NzRust

inductive SecurityLevel where
  | preferredUnsecured
  | onlyUnsecuredSession
  | preferredSecuredSession
  | onlySecuredSession
  deriving DecidableEq, Repr

def SecurityLevel.asI32 : SecurityLevel → Int
  | .preferredUnsecured => 0
  | .onlyUnsecuredSession => 1
  | .preferredSecuredSession => 2
  | .onlySecuredSession => 3

/-- The settings that the handshake reads. -/
structure NzConnectionConfig where
  database : Bytes
  user : Bytes
  password : Bytes
  securityLevel : SecurityLevel
  appName : Bytes
  osUser : Bytes
  clientHostName : Bytes
  clientType : Int

/-- What the driver takes from the machine and from its hash crates. -/
structure Platform where
  os : Bytes
  processId : Int
  md5 : Bytes → Bytes
  sha256 : Bytes → Bytes
  describeIo : IoErrorKind → String

namespace Handshake

open Wire

abbrev Step := Prog NzError

/-! ## Opcodes and letters -/

def hsv2ClientBegin : Int := 1
def hsv2Db : Int := 2
def hsv2User : Int := 3
def hsv2RemotePid : Int := 6
def hsv2ClientType : Int := 8
def hsv2Protocol : Int := 9
def hsv2SslNegotiate : Int := 11
def hsv2SslConnect : Int := 12
def hsv2AppName : Int := 13
def hsv2ClientOs : Int := 14
def hsv2ClientHostName : Int := 15
def hsv2ClientOsUser : Int := 16
def hsv264BitVarlenaEnabled : Int := 17
def hsv2ClientDone : Int := 1000

def letterE : UInt8 := 69
def letterK : UInt8 := 75
def letterM : UInt8 := 77
def letterN : UInt8 := 78
def letterR : UInt8 := 82
def letterS : UInt8 := 83
def letterZ : UInt8 := 90

def hexDigit (n : Nat) : String :=
  String.singleton (if n < 10 then Char.ofNat (48 + n) else Char.ofNat (87 + n))

/-- A byte as the format `02x` prints it. -/
def hexByte (b : UInt8) : String :=
  hexDigit (b.toNat / 16) ++ hexDigit (b.toNat % 16)

/-! ## Frames -/

/-- `[len(4)][opcode(2)][payload]`, where the length counts the whole frame. -/
def frame (opcode : Int) (payload : Bytes) : Bytes :=
  ByteString.toBe 4 (4 + 2 + payload.length) ++ ByteString.toBe 2 opcode ++ payload

def cstringPayload (value : Bytes) : Bytes :=
  value ++ [0]

def i16sPayload (values : List Int) : Bytes :=
  (values.map (ByteString.toBe 2)).flatten

def writeFrame (opcode : Int) (payload : Bytes) : Step Unit :=
  Prog.send (frame opcode payload)

def writeCstringFrame (opcode : Int) (value : Bytes) : Step Unit :=
  writeFrame opcode (cstringPayload value)

def writeI16Frame (opcode : Int) (values : List Int) : Step Unit :=
  writeFrame opcode (i16sPayload values)

def writeI32Frame (opcode : Int) (value : Int) : Step Unit :=
  writeFrame opcode (ByteString.toBe 4 value)

/-- A length-prefixed payload without an opcode. -/
def writeAuthResponse (payload : Bytes) : Step Unit :=
  Prog.send (ByteString.toBe 4 (4 + payload.length) ++ payload)

/-! ## Version negotiation -/

def validateVersionDowngrade (current proposed : Nat) : NzResult Unit :=
  if current ≤ proposed then
    .error (.protocol s!"Handshake negotiation: server proposed version {proposed} after {current}")
  else .ok ()

/-- The version behind the letter `M`. -/
def proposedVersion (c : UInt8) : Option Nat :=
  if c = 50 then some 2
  else if c = 51 then some 3
  else if c = 52 then some 4
  else if c = 53 then some 5
  else none

/-! ## Options -/

structure HandshakeOption where
  opcode : Int
  payload : Bytes
  ackAfter : Option String

def cstringOption (opcode : Int) (value : Bytes) (ackAfter : String) : HandshakeOption :=
  ⟨opcode, cstringPayload value, some ackAfter⟩

def i16Option (opcode value : Int) (ackAfter : String) : HandshakeOption :=
  ⟨opcode, ByteString.toBe 2 value, some ackAfter⟩

def i16sOption (opcode : Int) (values : List Int) (ackAfter : String) : HandshakeOption :=
  ⟨opcode, i16sPayload values, some ackAfter⟩

def i32Option (opcode value : Int) (ackAfter : String) : HandshakeOption :=
  ⟨opcode, ByteString.toBe 4 value, some ackAfter⟩

/-- Any client type is accepted as it is. -/
def normalizeClientType (value : Int) : Int := value

/-- The frames and acknowledgement stages for a negotiated version. -/
def optionPlan (platform : Platform) (config : NzConnectionConfig) (version : Nat) :
    List HandshakeOption :=
  [cstringOption hsv2User config.user "user"] ++
    (if version = 4 ∨ version = 6 then
      [cstringOption hsv2AppName config.appName "appname",
        cstringOption hsv2ClientOs platform.os "clientOs",
        cstringOption hsv2ClientHostName config.clientHostName "clientHostName",
        cstringOption hsv2ClientOsUser config.osUser "clientOsUser"]
    else []) ++
    [i16sOption hsv2Protocol [3, 5] "remotePid",
      i32Option hsv2RemotePid platform.processId "clientType",
      i16Option hsv2ClientType (normalizeClientType config.clientType)
        (if 5 ≤ version then "64bitVarlena" else "clientDone")] ++
    (if 5 ≤ version then [i16Option hsv264BitVarlenaEnabled 1 "clientDone"] else []) ++
    [⟨hsv2ClientDone, [], none⟩]

/-! ## Authentication -/

def authSaltLen (request : Int) : NzResult Nat :=
  if request = 0 ∨ request = 3 then .ok 0
  else if request = 5 ∨ request = 6 then .ok 2
  else .error (.protocol s!"Unsupported authentication type requested by server: {request}")

def base64Table : Text :=
  "ABCDEFGHIJKLMNOPQRSTUVWXYZabcdefghijklmnopqrstuvwxyz0123456789+/".toList

/-- The table's letter for six bits, as the byte it is sent as. -/
def base64Digit (n : Nat) : UInt8 :=
  UInt8.ofNat (base64Table.getD (n % 64) 'A').toNat

/-- Base64 without padding. -/
def base64EncodeUnpadded : Bytes → Bytes
  | [] => []
  | [b0] =>
      let n := b0.toNat * 65536
      [base64Digit (n / 262144), base64Digit (n / 4096)]
  | [b0, b1] =>
      let n := b0.toNat * 65536 + b1.toNat * 256
      [base64Digit (n / 262144), base64Digit (n / 4096), base64Digit (n / 64)]
  | b0 :: b1 :: b2 :: rest =>
      let n := b0.toNat * 65536 + b1.toNat * 256 + b2.toNat
      base64Digit (n / 262144) :: base64Digit (n / 4096) :: base64Digit (n / 64) ::
        base64Digit n :: base64EncodeUnpadded rest

/-- The response payload with its trailing NUL, or nothing for credentials already accepted. -/
def authResponse (platform : Platform) (request : Int) (password salt : Bytes) :
    NzResult (Option Bytes) :=
  if request = 0 then .ok none
  else if request = 3 then .ok (some (cstringPayload password))
  else if request = 5 ∨ request = 6 then
    if salt.length ≠ 2 then
      .error (.protocol s!"authentication salt must contain 2 bytes, received {salt.length}")
    else
      let digest :=
        if request = 5 then platform.md5 (salt ++ password) else platform.sha256 (salt ++ password)
      .ok (some (base64EncodeUnpadded digest ++ [0]))
  else .error (.protocol s!"Unsupported authentication type requested by server: {request}")

/-- What the last phase of a handshake leaves in the session. -/
structure HandshakeResult where
  backendProcessId : Int
  backendSecretKey : Int
  deriving DecidableEq, Repr

end Handshake

end NzRust
