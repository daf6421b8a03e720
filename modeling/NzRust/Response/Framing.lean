import NzRust.Response.Native
import NzRust.Response.Orphan

/-!
# Frames

The messages of a response with their encoding, and what the reads of the two
drains do on encoded messages. The external-table messages have no common
frame and are not among them.
-/

namespace NzRust.Response

open Wire
open Handshake (Step)

/-- A message as it stands on the wire; its fields fit the frame. -/
inductive Message where
  | framed (code : UInt8) (header payload : Bytes) (hcode : Code.isFramed code = true)
      (hheader : header.length = 4) (hlen : payload.length ≤ maxProtocolPayload)
  | control (code : UInt8) (header : Bytes) (hcode : Code.isControl code = true)
      (hheader : header.length = 4)
  | rowStandard (header reserved payload : Bytes) (hheader : header.length = 4)
      (hreserved : reserved.length = 4) (hlen : payload.length ≤ maxProtocolPayload)

def Message.encode : Message → Bytes
  | .framed code header payload _ _ _ =>
      code :: (header ++ (ByteString.toBe 4 payload.length ++ payload))
  | .control code header _ _ => code :: header
  | .rowStandard header reserved payload _ _ _ =>
      Code.rowStandard ::
        (header ++ (reserved ++ (ByteString.toBe 4 payload.length ++ payload)))

/-- Messages with the number of zero bytes in front of each. -/
abbrev Messages := List (Nat × Message)

def padded (padding : Nat) (bytes : Bytes) : Bytes :=
  List.replicate padding 0 ++ bytes

def encodeMessages : Messages → Bytes
  | [] => []
  | (padding, m) :: rest => padded padding m.encode ++ encodeMessages rest

/-- A complete response: its messages and ReadyForQuery. -/
structure WireResponse where
  messages : Messages
  padding : Nat
  ready : UInt8
  header : Bytes
  hready : Code.isReady ready = true
  hheader : header.length = 4

def WireResponse.encode (r : WireResponse) : Bytes :=
  encodeMessages r.messages ++ padded r.padding (r.ready :: r.header)

/-! ## Reading encoded bytes -/

/-- A peer whose state is the view it serves, for reads within the protocol limit. -/
structure ByteFed (P : Peer NzError View) : Prop where
  read_bytes : ∀ bytes view, bytes.length ≤ maxProtocolPayload →
    P.read bytes.length (bytesView bytes ++ view) = (.ok bytes, view)

theorem viewPeer_byteFed {closed : String} {check : Nat → NzResult Unit}
    (h : ∀ n, n ≤ maxProtocolPayload → check n = .ok ()) :
    ByteFed (Handshake.viewPeer closed check) where
  read_bytes bytes view hlen := by
    simp only [Handshake.viewPeer, h _ hlen]
    rw [viewRead_bytes (Nat.le_refl _), List.take_length, List.drop_length]
    rfl

theorem checkLen_ok {n : Nat} (h : n ≤ maxProtocolPayload) (field : String) :
    ReadBuffer.checkLen n field = .ok () := by
  have hsmall : ¬ 2 ^ 31 ≤ n := by
    simp only [maxProtocolPayload] at h
    omega
  have hvalid : validateProtocolLength n field true = .ok n :=
    validateProtocolLength_eq_ok.mpr ⟨rfl, h, .inl rfl⟩
  rw [ReadBuffer.checkLen, if_neg hsmall, hvalid]
  rfl

theorem asyncCheck_ok {n : Nat} (h : n ≤ maxProtocolPayload) :
    Handshake.asyncCheck n = .ok () := by
  have hsmall : ¬ Handshake.maxBufferedFrame < n := by
    simp only [maxProtocolPayload] at h
    simp only [Handshake.maxBufferedFrame]
    omega
  rw [Handshake.asyncCheck, if_neg hsmall]

namespace ByteFed

variable {P : Peer NzError View} (hP : ByteFed P) {view : View} {V : Type}

include hP

theorem take {n : Nat} {bytes : Bytes} (hn : bytes.length = n) (hlen : n ≤ maxProtocolPayload) :
    Yields P (Prog.take n) (bytesView bytes ++ view) bytes view := by
  subst hn
  exact .take (hP.read_bytes bytes view hlen)

theorem readByte (b : UInt8) : Yields P readByte (.byte b :: view) b view :=
  have hone : Yields P (Prog.take 1) (bytesView [b] ++ view) [b] view := hP.take rfl (by decide)
  .bind hone (.ret P _ _)

theorem readI32 {bytes : Bytes} (h : bytes.length = 4) :
    Yields P readI32 (bytesView bytes ++ view) (ByteString.beInt bytes) view :=
  .bind (hP.take h (by decide)) (.ret P _ _)

theorem skip {n : Nat} {bytes : Bytes} (h : bytes.length = n) (hlen : n ≤ maxProtocolPayload) :
    Yields P (skip n) (bytesView bytes ++ view) () view := by
  unfold Response.skip
  rw [checkLen_ok hlen]
  exact .bind (.ofExcept P _ _) (.bind (hP.take h hlen) (.ret P _ _))

theorem skipBytes {n : Nat} {bytes : Bytes} (h : bytes.length = n) (hlen : n ≤ maxProtocolPayload) :
    Yields P (Handshake.Native.skipBytes n) (bytesView bytes ++ view) () view :=
  .bind (hP.take h hlen) (.ret P _ _)

theorem nativeReadBytes {bytes : Bytes} (hlen : bytes.length ≤ maxProtocolPayload) :
    Yields P (Handshake.Native.readBytes bytes.length) (bytesView bytes ++ view) bytes view := by
  unfold Handshake.Native.readBytes
  have hsmall : bytes.length < 2 ^ 31 := by
    simp only [maxProtocolPayload] at hlen
    omega
  have hsigned : ByteString.signed 32 (bytes.length % 2 ^ 32) = bytes.length := by
    rw [Nat.mod_eq_of_lt (by omega), ByteString.signed, if_pos (by omega)]
  have hvalid : validateProtocolLength (bytes.length : Int) "asyncPayload" true =
      .ok bytes.length := validateProtocolLength_eq_ok.mpr ⟨rfl, hlen, .inl rfl⟩
  rw [hsigned, hvalid]
  exact .bind (.ofExcept P _ _) (hP.take rfl hlen)

/-- The length field of a payload that fits the frame. -/
theorem lengthField {payload : Bytes} (hlen : payload.length ≤ maxProtocolPayload) :
    Yields P Response.readI32 (bytesView (ByteString.toBe 4 payload.length) ++ view)
      (payload.length : Int) view := by
  have hsmall : payload.length < 2 ^ 31 := by
    simp only [maxProtocolPayload] at hlen
    omega
  have hread : Yields P Response.readI32 (bytesView (ByteString.toBe 4 payload.length) ++ view)
      (ByteString.beInt (ByteString.toBe 4 payload.length)) view :=
    hP.readI32 (ByteString.toBe_length 4 payload.length)
  rw [ByteString.beInt_toBe_ofNat hsmall] at hread
  exact hread

theorem readCounted (field : String) {payload : Bytes}
    (hlen : payload.length ≤ maxProtocolPayload) :
    Yields P (readCounted field)
      (bytesView (ByteString.toBe 4 payload.length ++ payload) ++ view) payload view := by
  have hvalid : validateProtocolLength (payload.length : Int) field true = .ok payload.length :=
    validateProtocolLength_eq_ok.mpr ⟨rfl, hlen, .inl rfl⟩
  rw [bytesView_append, List.append_assoc]
  refine .bind (.bind (hP.lengthField hlen) ?_) (hP.take rfl hlen)
  rw [hvalid]
  exact .ofExcept P _ _

theorem nativeReadLen (field : String) {payload : Bytes} {allowZero : Bool}
    (hlen : payload.length ≤ maxProtocolPayload) (hzero : allowZero = true ∨ 0 < payload.length) :
    Yields P (Native.readLen field allowZero)
      (bytesView (ByteString.toBe 4 payload.length) ++ view) payload.length view := by
  have hvalid : validateProtocolLength (payload.length : Int) field allowZero =
      .ok payload.length := validateProtocolLength_eq_ok.mpr ⟨rfl, hlen, hzero⟩
  refine .bind (hP.lengthField hlen) ?_
  rw [hvalid]
  exact .ofExcept P _ _

theorem nativeReadCounted (field : String) {payload : Bytes} {allowZero : Bool}
    (hlen : payload.length ≤ maxProtocolPayload) (hzero : allowZero = true ∨ 0 < payload.length) :
    Yields P (Native.readCounted field allowZero)
      (bytesView (ByteString.toBe 4 payload.length ++ payload) ++ view) payload view := by
  rw [bytesView_append, List.append_assoc]
  exact .bind (hP.nativeReadLen field hlen hzero) (hP.nativeReadBytes hlen)

end ByteFed

/-! ## A session with everything buffered -/

def buffered (bytes : Bytes) : ReadBuffer where
  buf := bytes
  start := 0
  stop := bytes.length
  start_le_stop := Nat.zero_le _
  stop_le_length := Nat.le_refl _

theorem buffered_view (bytes : Bytes) : (buffered bytes).view [] = bytesView bytes ++ [] := by
  simp [ReadBuffer.view, ReadBuffer.slice, ReadBuffer.available, buffered, Stream.items]

def noFiles : ExternalFiles where
  creates _ := false
  chunks _ _ := none

/-- A decoder that looks only at how many values there are. -/
def shapeDecoder : Decoder Unit where
  text columns data :=
    if columns ≠ [] ∧ data = [] then .malformed (.protocol "row without bytes")
    else .row (columns.map fun _ => ())
  dbos desc _ := .row (desc.fields.map fun _ => ())
  text_length := by
    intro columns data values h
    split at h
    · cases h
    · cases h
      exact List.length_map _
  dbos_length := by
    intro desc data values h
    cases h
    exact List.length_map _
  text_nil := by
    intro columns h
    exact ⟨_, if_pos ⟨h, rfl⟩⟩
  text_malformed := by
    intro columns data e h
    split at h
    · cases h
      rfl
    · cases h
  dbos_malformed := nofun

def zeros (n : Nat) : Bytes :=
  List.replicate n 0

theorem blankHeader_length : (zeros 4).length = 4 := rfl

theorem readyForQuery_isReady : Code.isReady Code.readyForQuery = true := rfl

theorem commandComplete_isFramed : Code.isFramed Code.commandComplete = true := rfl

end NzRust.Response
