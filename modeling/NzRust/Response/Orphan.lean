import NzRust.Response.Sync

/-!
# The drain of an orphaned response

`drain_orphaned` throws a response away after a timeout. It walks the frames
with rules of its own. Each wait for buffered bytes is followed by the read of
those bytes, and the two are one read here that fails with the error of the
wait; the zero bytes that are buffered behind ReadyForQuery are dropped from
the session's buffer once the walk has ended.
-/

namespace NzRust.Response

open Wire
open Handshake (Step hexByte)

/-- The first 80 characters of the statement, its whitespace collapsed. -/
def protocolSyncError (context : Text) (detail : String) : NzError :=
  let preview := String.ofList ((((splitWhitespace context).intersperse [' ']).flatten).take 80)
  .protocol s!"Connection protocol out of sync before executing \"{preview}\": {detail}. Reconnect required."

/-- `wait_buffered` and the read that follows it. -/
def awaited (context : Text) (n : Nat) (detail : String) : Step Bytes :=
  .read n fun r =>
    match r with
    | .ok bytes => .ret bytes
    | .error _ => .fail (protocolSyncError context detail)

/-- The length check of an orphaned frame, reported as a lost synchronisation. -/
def orphanedLength (context : Text) (len : Int) (field : String) (allowZero : Bool)
    (detail : String) : Step Nat :=
  match validateProtocolLength len field allowZero with
  | .ok n => .ret n
  | .error _ => .fail (protocolSyncError context detail)

/-- A binary row: the header of four bytes, the DBOS header of eight, and then eight bytes more
than the row length in that header. -/
def orphanedRow (context : Text) : Step Unit := do
  let header ← awaited context 8 "truncated orphaned RowStandard header"
  let rowLen := ByteString.beInt (header.drop 4)
  let rowLen ← orphanedLength context rowLen "orphanedRowStandardPayload" false
    s!"invalid orphaned RowStandard rowLength={rowLen}"
  Prog.ofExcept (ReadBuffer.checkLen (8 + rowLen) "buffer skip")
  let _ ← awaited context (8 + rowLen) "truncated orphaned RowStandard payload"
  return ()

def orphanedPayload (context : Text) (code : UInt8) : Step Unit := do
  let len ← awaited context 4 s!"truncated orphaned length for type 0x{hexByte code}"
  let len := ByteString.beInt len
  let len ← orphanedLength context len "orphanedPayload" true
    s!"invalid orphaned length={len} for type 0x{hexByte code}"
  let _ ← awaited context len s!"truncated orphaned payload for type 0x{hexByte code}"
  return ()

def drainOrphaned (context : Text) : Nat → Step Unit
  | 0 => .unfinished
  | fuel + 1 => do
      let b ← awaited context 1 "orphaned response incomplete (no ReadyForQuery)"
      let code := b.headD 0
      if code = 0 then drainOrphaned context fuel
      else
        let _ ← awaited context 4 s!"truncated orphaned header for type 0x{hexByte code}"
        if code = Code.rowStandard then
          orphanedRow context
          drainOrphaned context fuel
        else if Code.isReady code then return ()
        else if code = Code.emptyQueryResponse ∨ Code.isControl code then
          drainOrphaned context fuel
        else
          orphanedPayload context code
          drainOrphaned context fuel

end NzRust.Response
