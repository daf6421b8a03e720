import NzRust.Handshake.Boundary
import NzRust.Lib.Keeping
import NzRust.Response.Framing

/-!
# Export and import data

The two sides of the chunked transfer of external tables, with the local files
they read and write. A source of an import is what its reads will find. An
export writes to the file that the session holds, and what the file system
makes of each write is left to a `Disk`.
-/

namespace NzRust.External

open Wire Handshake
open Response (readI32 readPayload sendI32 decodeFilename ByteFed)

/-! ## The local side of an export -/

/-- The file that the session holds, how many it has created, and everything written so far with
the file it went to. Files are numbered in the order they were created. -/
structure Exports where
  exportFile : Option Nat := none
  created : Nat := 0
  written : List (Nat × Bytes) := []
  deriving DecidableEq, Repr

/-- What the file system answers. A write that fails may have stored the first bytes of its
chunk. -/
structure Disk where
  creates : Exports → Text → Bool
  stores : Exports → Nat → Bytes → Except (Nat × IoErrorKind) Unit
  flushes : Exports → Nat → Except IoErrorKind Unit

namespace Exports

def create (files : Exports) : Exports :=
  { files with exportFile := some files.created, created := files.created + 1 }

def drop (files : Exports) : Exports :=
  { files with exportFile := none }

def record (files : Exports) (file : Nat) (bytes : Bytes) : Exports :=
  { files with written := files.written ++ [(file, bytes)] }

/-- The bytes that a file has been given. -/
def contents (files : Exports) (file : Nat) : Bytes :=
  (files.written.filter (·.1 == file)).flatMap (·.2)

end Exports

namespace Disk

variable (disk : Disk)

/-- `write_all` to the file that is held, if any. -/
def write (chunk : Bytes) (files : Exports) : NzResult Unit × Exports :=
  match files.exportFile with
  | none => (.ok (), files)
  | some file =>
      match disk.stores files file chunk with
      | .ok () => (.ok (), files.record file chunk)
      | .error (n, kind) => (.error (.io kind), files.record file (chunk.take n))

/-- `take` and `flush`. -/
def finish (files : Exports) : NzResult Unit × Exports :=
  match files.exportFile with
  | none => (.ok (), files)
  | some file =>
      match disk.flushes files file with
      | .ok () => (.ok (), files.drop)
      | .error kind => (.error (.io kind), files.drop)

/-- The created file is held in place of the old one; if none is created, the old one stays. -/
def createFile (filename : Text) (files : Exports) : NzResult Bool × Exports :=
  if disk.creates files filename then (.ok true, files.create) else (.ok false, files)

end Disk

abbrev ExportStep (α : Type) := Keeping Exports NzError α

open Keeping (wire keep)

def dropFile : ExportStep Unit :=
  keep fun files => (.ok (), files.drop)

/-- The status loop of an export, with what an engine does for a chunk and for an error text. -/
def statusLoop (disk : Disk) (data errorText : ExportStep Unit) : Nat → ExportStep Unit
  | 0 => Keeping.unfinished
  | fuel + 1 => do
      let status ← wire readI32
      if status = 1 then
        data
        statusLoop disk data errorText fuel
      else if status = 3 then keep disk.finish
      else if status = 2 then
        errorText
        dropFile
      else dropFile

namespace Sync

def dataChunk (disk : Disk) : ExportStep Unit := do
  let n ← wire (Response.readLen "externalTableExportDataChunk")
  if 0 < n then
    let chunk ← wire (readPayload n)
    keep (disk.write chunk)
  else return ()

def errorText : ExportStep Unit := do
  let len ← wire (Prog.take 2)
  if 0 < ByteString.beNat len then
    let _ ← wire (readPayload (ByteString.beNat len))
    return ()
  else return ()

def consumeExportStream (disk : Disk) : Nat → ExportStep Unit :=
  statusLoop disk (dataChunk disk) errorText

def handleExportData (disk : Disk) (fuel : Nat) : ExportStep Unit := do
  wire Response.skipFrameHeader
  wire (Response.skip 4)
  consumeExportStream disk fuel

/-- The name that an export-start message carries. -/
def exportFilename : Step Text := do
  Response.skipFrameHeader
  Response.skip 10
  Response.skip 16
  let len ← Response.readLen "externalTableExportFilename"
  if len = 0 then
    .fail (.protocol "Invalid external-table export filename length; reconnect is required.")
  else
    let name ← readPayload len
    Prog.ofExcept (decodeFilename name)

end Sync

namespace Native

def dataChunk (disk : Disk) : ExportStep Unit := do
  let n ← wire (Response.Native.readLen "externalTableExportDataChunk" true)
  let chunk ← wire (Handshake.Native.readBytes n)
  keep (disk.write chunk)

def errorText : ExportStep Unit := do
  let len ← wire (Handshake.Native.readBytes 2)
  if 0 < ByteString.beNat len then
    let _ ← wire (Handshake.Native.readBytes (ByteString.beNat len))
    return ()
  else return ()

/-- The loop of `handle_export_data`. -/
def exportLoop (disk : Disk) : Nat → ExportStep Unit :=
  statusLoop disk (dataChunk disk) errorText

def handleExportData (disk : Disk) (fuel : Nat) : ExportStep Unit := do
  wire (Handshake.Native.skipBytes 4)
  wire (Handshake.Native.skipBytes 4)
  exportLoop disk fuel

/-- The name that an export-start message carries. -/
def exportFilename : Step Text := do
  Handshake.Native.skipBytes 4
  Handshake.Native.skipBytes 10
  Handshake.Native.skipBytes 16
  let len ← Response.Native.readLen "externalTableExportFilename" true
  if len = 0 then .fail (.protocol "Invalid external-table export filename length")
  else
    let name ← Handshake.Native.readBytes len
    Prog.ofExcept (decodeFilename name)

end Native

/-- `handle_export_start`, behind the name. -/
def startExport (disk : Disk) (exportFilename : Step Text) : ExportStep Unit := do
  let filename ← wire exportFilename
  let created ← keep (disk.createFile filename)
  if created then wire (sendI32 0) else wire (sendI32 1)

/-! ## The sending side -/

/-- The room for one read: `buffer_size.clamp(1, 64 * 1024)`. -/
def chunkRoom (bufferSize : Nat) : Nat :=
  max 1 (min bufferSize (64 * 1024))

def sendChunk (chunk : Bytes) : Step Unit := do
  Prog.send (ByteString.toBe 4 1 ++ ByteString.toBe 4 chunk.length)
  Prog.send chunk

/-- A read that was interrupted is made again. -/
def Sync.sendImportReader (bufferSize : Nat) (source : Stream) : Step Unit :=
  match _h : source.read (chunkRoom bufferSize) with
  | (.ok [], _) => sendI32 3
  | (.ok (b :: bs), rest) => do
      sendChunk (b :: bs)
      Sync.sendImportReader bufferSize rest
  | (.error .interrupted, rest) => Sync.sendImportReader bufferSize rest
  | (.error _, _) => sendI32 2
termination_by source.weight
decreasing_by
  · exact Stream.read_weight_lt _h (List.cons_ne_nil _ _)
  · exact Stream.read_failed_weight_lt _h

def Native.sendImportReader (bufferSize : Nat) (source : Stream) : Step Unit :=
  match _h : source.read (chunkRoom bufferSize) with
  | (.ok [], _) => sendI32 3
  | (.ok (b :: bs), rest) => do
      sendChunk (b :: bs)
      Native.sendImportReader bufferSize rest
  | (.error _, _) => sendI32 2
termination_by source.weight
decreasing_by exact Stream.read_weight_lt _h (List.cons_ne_nil _ _)

/-! ## What is sent -/

/-- What the reads of a source yield up to its end, or up to a failure: the bytes, and whether it
was the end. -/
def delivered : View → Bytes × Bool
  | [] => ([], true)
  | .byte b :: view => (b :: (delivered view).1, (delivered view).2)
  | .stop none :: _ => ([], true)
  | .stop (some _) :: _ => ([], false)

theorem delivered_bytes (bytes : Bytes) (view : View) :
    delivered (bytesView bytes ++ view) = (bytes ++ (delivered view).1, (delivered view).2) := by
  induction bytes with
  | nil => rfl
  | cons b bytes ih =>
      rw [bytesView_cons_append, delivered, ih]
      rfl

example : delivered (Stream.items ReadBuffer.retries
    [.data [1, 2], .failed .interrupted, .data [3]]) = ([1, 2, 3], true) := rfl

/-- The messages of an import. -/
inductive TransferMessage where
  | data (chunk : Bytes)
  | done
  | failed
  deriving DecidableEq, Repr

def TransferMessage.encode : TransferMessage → Bytes
  | .data chunk => ByteString.toBe 4 1 ++ ByteString.toBe 4 chunk.length ++ chunk
  | .done => ByteString.toBe 4 3
  | .failed => ByteString.toBe 4 2

/-- The chunks, and how the sequence ends. -/
def transfer (chunks : List Bytes) (clean : Bool) : List TransferMessage :=
  chunks.map .data ++ [if clean then .done else .failed]

def encodeTransfer (messages : List TransferMessage) : Bytes :=
  messages.flatMap TransferMessage.encode

theorem encodeTransfer_cons (chunk : Bytes) (chunks : List Bytes) (clean : Bool) :
    encodeTransfer (transfer (chunk :: chunks) clean) =
      (TransferMessage.data chunk).encode ++ encodeTransfer (transfer chunks clean) := rfl

/-- The chunks that one reads a source in, into the room for one read. -/
structure CutInto (bufferSize : Nat) (chunks : List Bytes) (bytes : Bytes) : Prop where
  nonempty : ∀ chunk ∈ chunks, 1 ≤ chunk.length
  fits : ∀ chunk ∈ chunks, chunk.length ≤ min (max bufferSize 1) 65536
  all : chunks.flatten = bytes

theorem chunkRoom_eq (bufferSize : Nat) : chunkRoom bufferSize = min (max bufferSize 1) 65536 := by
  unfold chunkRoom
  omega

theorem chunkRoom_pos (bufferSize : Nat) : 0 < chunkRoom bufferSize := by
  unfold chunkRoom
  omega

theorem CutInto.nil (bufferSize : Nat) : CutInto bufferSize [] [] where
  nonempty _ h := absurd h List.not_mem_nil
  fits _ h := absurd h List.not_mem_nil
  all := rfl

theorem CutInto.cons {bufferSize : Nat} {chunk : Bytes} {chunks : List Bytes} {bytes : Bytes}
    (h : CutInto bufferSize chunks bytes) (hne : chunk ≠ [])
    (hlen : chunk.length ≤ chunkRoom bufferSize) :
    CutInto bufferSize (chunk :: chunks) (chunk ++ bytes) where
  nonempty := List.forall_mem_cons.mpr ⟨List.length_pos_of_ne_nil hne, h.nonempty⟩
  fits := List.forall_mem_cons.mpr ⟨chunkRoom_eq bufferSize ▸ hlen, h.fits⟩
  all := by rw [List.flatten_cons, h.all]

/-- A sender walks through a source as its reads find it. -/
def Sends (sender : Step Unit) (bufferSize : Nat) (view : View) : Prop :=
  ∃ chunks, CutInto bufferSize chunks (delivered view).1 ∧
    sender = Response.sendImportReader chunks (delivered view).2

section Sends

variable {bufferSize : Nat} {view : View}

theorem Sends.ended (h : view = [] ∨ ∃ rest, view = .stop none :: rest) :
    Sends (sendI32 3) bufferSize view := by
  have hview : delivered view = ([], true) := by
    rcases h with rfl | ⟨rest, rfl⟩ <;> rfl
  unfold Sends
  rw [hview]
  exact ⟨[], .nil bufferSize, rfl⟩

theorem Sends.failed (kind : IoErrorKind) (rest : View) :
    Sends (sendI32 2) bufferSize (.stop (some kind) :: rest) :=
  ⟨[], .nil bufferSize, rfl⟩

theorem Sends.chunk {sender : Step Unit} {chunk : Bytes} (h : Sends sender bufferSize view)
    (hne : chunk ≠ []) (hlen : chunk.length ≤ chunkRoom bufferSize) :
    Sends (sendChunk chunk >>= fun _ => sender) bufferSize (bytesView chunk ++ view) := by
  obtain ⟨chunks, hcut, rfl⟩ := h
  refine ⟨chunk :: chunks, ?_, ?_⟩
  · rw [delivered_bytes]
    exact hcut.cons hne hlen
  · rw [delivered_bytes]
    rfl

end Sends

theorem Sync.sendImportReader_sends (bufferSize : Nat) (source : Stream) :
    Sends (Sync.sendImportReader bufferSize source) bufferSize
      (source.items ReadBuffer.retries) := by
  fun_induction Sync.sendImportReader bufferSize source with
  | case1 source rest h =>
      refine .ended ((Stream.read_items_end (chunkRoom_pos bufferSize) h).imp And.left ?_)
      exact fun hview => ⟨_, hview⟩
  | case2 source b bs rest h ih =>
      rw [Stream.read_items_data (List.cons_ne_nil b bs) h]
      exact ih.chunk (List.cons_ne_nil b bs) (Stream.read_length_le h)
  | case3 source rest h ih =>
      rw [Stream.read_items_failed h]
      exact ih
  | case4 source kind rest hkind h =>
      have hretry : ReadBuffer.retries kind = false := beq_eq_false_iff_ne.mpr hkind
      rw [Stream.read_items_failed h, hretry]
      exact .failed kind _

theorem Native.sendImportReader_sends (bufferSize : Nat) (source : Stream) :
    Sends (Native.sendImportReader bufferSize source) bufferSize
      (source.items fun _ => false) := by
  fun_induction Native.sendImportReader bufferSize source with
  | case1 source rest h =>
      refine .ended ((Stream.read_items_end (chunkRoom_pos bufferSize) h).imp And.left ?_)
      exact fun hview => ⟨_, hview⟩
  | case2 source b bs rest h ih =>
      rw [Stream.read_items_data (List.cons_ne_nil b bs) h]
      exact ih.chunk (List.cons_ne_nil b bs) (Stream.read_length_le h)
  | case3 source kind rest h =>
      rw [Stream.read_items_failed h]
      exact .failed kind _

theorem sendChunk_run {σ : Type} (P : Peer NzError σ) (s : σ) (chunk : Bytes) :
    (sendChunk chunk).run P s = ⟨.ok (), (TransferMessage.data chunk).encode, s⟩ := by
  show (⟨.ok (), (ByteString.toBe 4 1 ++ ByteString.toBe 4 chunk.length) ++ (chunk ++ []), s⟩ :
    Finish NzError Unit σ) = _
  rw [List.append_nil]
  rfl

/-- The bytes of the chunks and of the status behind them. -/
theorem sendImportReader_run {σ : Type} (P : Peer NzError σ) (s : σ) (chunks : List Bytes)
    (clean : Bool) :
    (Response.sendImportReader chunks clean).run P s =
      ⟨.ok (), encodeTransfer (transfer chunks clean), s⟩ := by
  induction chunks with
  | nil => cases clean <;> rfl
  | cons chunk chunks ih =>
      calc (Response.sendImportReader (chunk :: chunks) clean).run P s
          = ((sendChunk chunk).bind fun _ => Response.sendImportReader chunks clean).run P s := rfl
        _ = ⟨.ok (), encodeTransfer (transfer (chunk :: chunks) clean), s⟩ := by
          rw [run_bind, sendChunk_run, encodeTransfer_cons]
          dsimp only
          rw [ih]

/-! ## What is received -/

namespace Exports

/-- Chunks written to one file, one after the other. -/
def recordAll (files : Exports) (file : Nat) (chunks : List Bytes) : Exports :=
  { files with written := files.written ++ chunks.map fun chunk => (file, chunk) }

theorem recordAll_nil (files : Exports) (file : Nat) : files.recordAll file [] = files := by
  simp [recordAll]

theorem recordAll_cons (files : Exports) (file : Nat) (chunk : Bytes) (chunks : List Bytes) :
    files.recordAll file (chunk :: chunks) = (files.record file chunk).recordAll file chunks := by
  simp [recordAll, record]

theorem recordAll_contents (files : Exports) (file : Nat) (chunks : List Bytes) :
    (files.recordAll file chunks).contents file = files.contents file ++ chunks.flatten := by
  simp [recordAll, contents, List.filter_append, List.flatMap_append, List.filter_map,
    Function.comp_def, List.flatMap_map, List.flatMap_id']

theorem recordAll_contents_ne {file other : Nat} (h : other ≠ file) (files : Exports)
    (chunks : List Bytes) :
    (files.recordAll file chunks).contents other = files.contents other := by
  have hne : (file == other) = false := beq_eq_false_iff_ne.mpr h.symm
  simp [recordAll, contents, List.filter_append, List.filter_map, Function.comp_def, hne]

end Exports

/-- A file system on which nothing fails. -/
structure Disk.Sound (disk : Disk) : Prop where
  stores : ∀ files file chunk, disk.stores files file chunk = .ok ()
  flushes : ∀ files file, disk.flushes files file = .ok ()

section Disk

variable {disk : Disk} (hdisk : disk.Sound) {files : Exports} {file : Nat}

include hdisk

theorem Disk.Sound.write (hfile : files.exportFile = some file) (chunk : Bytes) :
    disk.write chunk files = (.ok (), files.record file chunk) := by
  unfold Disk.write
  rw [hfile]
  dsimp only
  rw [hdisk.stores]

theorem Disk.Sound.finish (hfile : files.exportFile = some file) :
    disk.finish files = (.ok (), files.drop) := by
  unfold Disk.finish
  rw [hfile]
  dsimp only
  rw [hdisk.flushes]

end Disk

section Loop

variable {P : Peer NzError View} (hP : ByteFed P) {disk : Disk}

/-- An engine reads a chunk off the wire and writes it. -/
def ReadsChunks (P : Peer NzError View) (disk : Disk) (data : ExportStep Unit) : Prop :=
  ∀ chunk files view, chunk ≠ [] → chunk.length ≤ maxProtocolPayload →
    Yields P (data.enter files) (bytesView (ByteString.toBe 4 chunk.length ++ chunk) ++ view)
      (disk.write chunk files) view

include hP

theorem Sync.dataChunk_reads : ReadsChunks P disk (Sync.dataChunk disk) := by
  intro chunk files view hne hlen
  have hvalid : validateProtocolLength (chunk.length : Int) "externalTableExportDataChunk" true =
      .ok chunk.length := validateProtocolLength_eq_ok.mpr ⟨rfl, hlen, .inl rfl⟩
  have hread : Yields P (Response.readLen "externalTableExportDataChunk")
      (bytesView (ByteString.toBe 4 chunk.length) ++ (bytesView chunk ++ view)) chunk.length
      (bytesView chunk ++ view) := by
    refine .bind (hP.lengthField hlen) ?_
    rw [hvalid]
    exact .ofExcept P _ _
  rw [bytesView_append, List.append_assoc]
  refine Keeping.yields_bind (Keeping.yields_wire hread) ?_
  rw [if_pos (List.length_pos_of_ne_nil hne)]
  refine Keeping.yields_bind (Keeping.yields_wire (hP.take rfl hlen)) ?_
  exact Keeping.yields_keep P _ _

theorem Native.dataChunk_reads : ReadsChunks P disk (Native.dataChunk disk) := by
  intro chunk files view hne hlen
  rw [bytesView_append, List.append_assoc]
  refine Keeping.yields_bind (Keeping.yields_wire (hP.nativeReadLen _ hlen (.inl rfl))) ?_
  refine Keeping.yields_bind (Keeping.yields_wire (hP.nativeReadBytes hlen)) ?_
  exact Keeping.yields_keep P _ _

/-- The loop takes a transfer that ended well off the wire, and has written its chunks. -/
theorem statusLoop_transfer (hdisk : disk.Sound) {data errorText : ExportStep Unit}
    (hdata : ReadsChunks P disk data) {file fuel : Nat} {chunks : List Bytes}
    (hfuel : chunks.length < fuel)
    (hchunks : ∀ chunk ∈ chunks, chunk ≠ [] ∧ chunk.length ≤ maxProtocolPayload)
    {files : Exports} (hfile : files.exportFile = some file) (view : View) :
    Yields P ((statusLoop disk data errorText fuel).enter files)
      (bytesView (encodeTransfer (transfer chunks true)) ++ view)
      (.ok (), (files.recordAll file chunks).drop) view := by
  induction chunks generalizing files fuel with
  | nil =>
      obtain ⟨fuel, rfl⟩ : ∃ more, fuel = more + 1 := ⟨fuel - 1, by omega⟩
      have hread : Yields P readI32 (bytesView (ByteString.toBe 4 3) ++ view) 3 view :=
        hP.readI32 rfl
      refine Keeping.yields_bind (Keeping.yields_wire hread) ?_
      rw [files.recordAll_nil, ← hdisk.finish hfile]
      exact Keeping.yields_keep P _ _
  | cons chunk chunks ih =>
      obtain ⟨fuel, rfl⟩ : ∃ more, fuel = more + 1 := ⟨fuel - 1, by omega⟩
      obtain ⟨hchunk, hrest⟩ := List.forall_mem_cons.mp hchunks
      have hread : ∀ view, Yields P readI32 (bytesView (ByteString.toBe 4 1) ++ view) 1 view :=
        fun view => hP.readI32 rfl
      have hwrite := hdata chunk files
        (bytesView (encodeTransfer (transfer chunks true)) ++ view) hchunk.1 hchunk.2
      rw [hdisk.write hfile] at hwrite
      rw [encodeTransfer_cons, TransferMessage.encode]
      simp only [bytesView_append, List.append_assoc] at hwrite ⊢
      refine Keeping.yields_bind (Keeping.yields_wire (hread _)) ?_
      refine Keeping.yields_bind hwrite ?_
      rw [files.recordAll_cons]
      exact ih (by simp only [List.length_cons] at hfuel; omega) hrest hfile

theorem Sync.handleExportData_yields {fuel : Nat} {header : Bytes} (hheader : header.length = 8)
    {files : Exports} {view view' : View} {r : NzResult Unit × Exports}
    (h : Yields P ((Sync.consumeExportStream disk fuel).enter files) view r view') :
    Yields P ((Sync.handleExportData disk fuel).enter files) (bytesView header ++ view) r
      view' := by
  rw [← List.take_append_drop 4 header, bytesView_append, List.append_assoc]
  refine Keeping.yields_bind (Keeping.yields_wire (hP.skip ?_ (by decide))) ?_
  · simp [hheader]
  refine Keeping.yields_bind (Keeping.yields_wire (hP.skip ?_ (by decide))) h
  simp [hheader]

theorem Native.handleExportData_yields {fuel : Nat} {header : Bytes} (hheader : header.length = 8)
    {files : Exports} {view view' : View} {r : NzResult Unit × Exports}
    (h : Yields P ((Native.exportLoop disk fuel).enter files) view r view') :
    Yields P ((Native.handleExportData disk fuel).enter files) (bytesView header ++ view) r
      view' := by
  rw [← List.take_append_drop 4 header, bytesView_append, List.append_assoc]
  refine Keeping.yields_bind (Keeping.yields_wire (hP.skipBytes ?_ (by decide))) ?_
  · simp [hheader]
  refine Keeping.yields_bind (Keeping.yields_wire (hP.skipBytes ?_ (by decide))) h
  simp [hheader]

end Loop

/-! ## Without the files

The drains of a response do not look at what an export writes. Where the file system takes it all,
their handlers are these. -/

section Erases

variable {σ : Type} {P : Peer NzError σ} {disk : Disk} (hdisk : disk.Sound)

include hdisk

theorem Disk.Sound.erases_write (chunk : Bytes) :
    Keeping.Erases P (keep (disk.write chunk)) (.ret ()) := by
  refine Keeping.erases_keep fun files => ?_
  cases hfile : files.exportFile with
  | none => simp [Disk.write, hfile]
  | some file => rw [hdisk.write hfile]

theorem Disk.Sound.erases_finish : Keeping.Erases P (keep disk.finish) (.ret ()) := by
  refine Keeping.erases_keep fun files => ?_
  cases hfile : files.exportFile with
  | none => simp [Disk.finish, hfile]
  | some file => rw [hdisk.finish hfile]

omit hdisk in
theorem erases_dropFile : Keeping.Erases P dropFile (.ret ()) :=
  Keeping.erases_keep fun _ => rfl

theorem statusLoop_erases {data errorText : ExportStep Unit} {counted : Step Bytes}
    {text : Step Unit} {loop : Nat → Step Unit} (hzero : loop 0 = .unfinished)
    (hsucc : ∀ fuel, loop (fuel + 1) = readI32.bind fun status =>
      if status = 1 then counted.bind fun _ => loop fuel
      else if status = 2 then text
      else .ret ())
    (hdata : Keeping.Erases P data (counted.bind fun _ => .ret ()))
    (htext : Keeping.Erases P errorText text) (fuel : Nat) :
    Keeping.Erases P (statusLoop disk data errorText fuel) (loop fuel) := by
  induction fuel with
  | zero =>
      rw [hzero]
      exact Keeping.erases_unfinished
  | succ fuel ih =>
      rw [hsucc]
      refine (Keeping.erases_wire readI32).bind fun status => ?_
      by_cases hone : status = 1
      · rw [if_pos hone, if_pos hone]
        have hboth := hdata.bind fun _ => ih
        rwa [Prog.bind_assoc] at hboth
      rw [if_neg hone, if_neg hone]
      by_cases hthree : status = 3
      · have htwo : ¬ status = 2 := by omega
        rw [if_pos hthree, if_neg htwo]
        exact hdisk.erases_finish
      rw [if_neg hthree]
      by_cases htwo : status = 2
      · rw [if_pos htwo, if_pos htwo]
        have hboth := htext.bind fun _ => erases_dropFile
        rwa [Prog.bind_ret] at hboth
      · rw [if_neg htwo, if_neg htwo]
        exact erases_dropFile

omit hdisk in
/-- A read of nothing may be left out. -/
theorem erases_no_read {read : Step Bytes} (hread : ∀ s, Yields P read s [] s) :
    Keeping.Erases P (return () : ExportStep Unit) (read.bind fun _ => .ret ()) :=
  Keeping.Erases.of_run (Keeping.erases_keep fun _ => rfl) fun s =>
    ((hread s).run_bind fun _ => .ret ()).symm

variable (hempty : ∀ s, P.read 0 s = (.ok [], s))

include hempty

theorem Sync.consumeExportStream_erases (fuel : Nat) :
    Keeping.Erases P (Sync.consumeExportStream disk fuel) (Response.consumeExportStream fuel) := by
  have hnone : ∀ s, Yields P (readPayload 0) s [] s := fun s => .take (hempty s)
  have hdata : Keeping.Erases P (Sync.dataChunk disk)
      ((Response.readCounted "externalTableExportDataChunk").bind fun _ => .ret ()) := by
    show Keeping.Erases P _ (((Response.readLen _).bind readPayload).bind fun _ => .ret ())
    rw [Prog.bind_assoc]
    refine (Keeping.erases_wire _).bind fun n => ?_
    by_cases hn : 0 < n
    · rw [if_pos hn]
      exact (Keeping.erases_wire _).bind fun chunk => hdisk.erases_write chunk
    · obtain rfl : n = 0 := by omega
      exact erases_no_read hnone
  have htext : Keeping.Erases P Sync.errorText
      ((Prog.take 2).bind fun len =>
        (readPayload (ByteString.beNat len)).bind fun _ => .ret ()) := by
    refine (Keeping.erases_wire _).bind fun len => ?_
    by_cases hn : 0 < ByteString.beNat len
    · rw [if_pos hn]
      exact (Keeping.erases_wire _).bind fun _ => Keeping.erases_keep fun _ => rfl
    · rw [if_neg hn, Nat.eq_zero_of_not_pos hn]
      exact erases_no_read hnone
  exact statusLoop_erases hdisk rfl (fun _ => rfl) hdata htext fuel

theorem Native.exportLoop_erases (fuel : Nat) :
    Keeping.Erases P (Native.exportLoop disk fuel) (Response.Native.exportLoop fuel) := by
  have hnone : ∀ s, Yields P (Handshake.Native.readBytes 0) s [] s := fun s =>
    .bind (.ofExcept P 0 s) (.take (hempty s))
  have hdata : Keeping.Erases P (Native.dataChunk disk)
      ((Response.Native.readCounted "externalTableExportDataChunk" true).bind fun _ => .ret ()) := by
    show Keeping.Erases P _
      (((Response.Native.readLen _ true).bind Handshake.Native.readBytes).bind fun _ => .ret ())
    rw [Prog.bind_assoc]
    refine (Keeping.erases_wire _).bind fun n => ?_
    exact (Keeping.erases_wire _).bind fun chunk => hdisk.erases_write chunk
  have htext : Keeping.Erases P Native.errorText
      ((Handshake.Native.readBytes 2).bind fun len =>
        (Handshake.Native.readBytes (ByteString.beNat len)).bind fun _ => .ret ()) := by
    refine (Keeping.erases_wire _).bind fun len => ?_
    by_cases hn : 0 < ByteString.beNat len
    · rw [if_pos hn]
      exact (Keeping.erases_wire _).bind fun _ => Keeping.erases_keep fun _ => rfl
    · rw [if_neg hn, Nat.eq_zero_of_not_pos hn]
      exact erases_no_read hnone
  exact statusLoop_erases hdisk rfl (fun _ => rfl) hdata htext fuel

theorem Sync.handleExportData_erases (fuel : Nat) :
    Keeping.Erases P (Sync.handleExportData disk fuel) (Response.handleExportData fuel) :=
  (Keeping.erases_wire _).bind fun _ => (Keeping.erases_wire _).bind fun _ =>
    Sync.consumeExportStream_erases hdisk hempty fuel

theorem Native.handleExportData_erases (fuel : Nat) :
    Keeping.Erases P (Native.handleExportData disk fuel) (Response.Native.handleExportData fuel) :=
  (Keeping.erases_wire _).bind fun _ => (Keeping.erases_wire _).bind fun _ =>
    Native.exportLoop_erases hdisk hempty fuel

end Erases

section Start

variable {σ : Type} {P : Peer NzError σ} {disk : Disk} {files : Response.ExternalFiles}
  (hcreates : ∀ held filename, disk.creates held filename = files.creates filename)

include hcreates

theorem startExport_erases (filename : Step Text) :
    Keeping.Erases P (startExport disk filename)
      (filename.bind fun name => if files.creates name then sendI32 0 else sendI32 1) := by
  refine (Keeping.erases_wire filename).bind fun name => ?_
  have hcreate : Keeping.Erases P (keep (disk.createFile name)) (.ret (files.creates name)) := by
    refine Keeping.erases_keep fun held => ?_
    unfold Disk.createFile
    rw [hcreates]
    cases files.creates name <;> rfl
  show Keeping.Erases P _ ((Prog.ret (files.creates name)).bind fun created =>
    if created then sendI32 0 else sendI32 1)
  refine hcreate.bind fun created => ?_
  cases created with
  | true => exact Keeping.erases_wire _
  | false => exact Keeping.erases_wire _

omit hcreates in
/-- What follows a name follows each way of reading it. -/
theorem bind_unless {α β : Type} {c : Prop} [Decidable c] (e : NzError) (p : Step α)
    (k : α → Step β) :
    (if c then Prog.fail e else p : Step α).bind k = if c then .fail e else p.bind k := by
  by_cases hc : c
  · rw [if_pos hc, if_pos hc]
    rfl
  · rw [if_neg hc, if_neg hc]

theorem Sync.handleExportStart_erases :
    Keeping.Erases P (startExport disk Sync.exportFilename) (Response.handleExportStart files) := by
  have hassoc : (Sync.exportFilename.bind fun name =>
      if files.creates name then sendI32 0 else sendI32 1) = Response.handleExportStart files := by
    unfold Sync.exportFilename Response.handleExportStart
    simp only [bind, Prog.bind_assoc, bind_unless]
  exact hassoc ▸ startExport_erases hcreates Sync.exportFilename

theorem Native.handleExportStart_erases :
    Keeping.Erases P (startExport disk Native.exportFilename)
      (Response.Native.handleExportStart files) := by
  have hassoc : (Native.exportFilename.bind fun name =>
      if files.creates name then sendI32 0 else sendI32 1) =
        Response.Native.handleExportStart files := by
    unfold Native.exportFilename Response.Native.handleExportStart
    simp only [bind, Prog.bind_assoc, bind_unless]
  exact hassoc ▸ startExport_erases hcreates Native.exportFilename

end Start

/-! ## Engines -/

/-- What an engine keeps in front of its socket. -/
def Buffer : Engine → Type
  | .sync => ReadBuffer
  | .native => Bytes

def reader : (engine : Engine) → Reader (Buffer engine)
  | .sync => syncReader
  | .native => nativeReader

/-- What a session has not read yet. -/
def unread (engine : Engine) (session : Buffer engine × Stream) : View :=
  bytesView ((reader engine).window session.1) ++ session.2.items engine.retries

def sendImportReader : Engine → Nat → Stream → Step Unit
  | .sync => Sync.sendImportReader
  | .native => Native.sendImportReader

def exportLoop : Engine → Disk → Nat → ExportStep Unit
  | .sync => Sync.consumeExportStream
  | .native => Native.exportLoop

def handleExportData : Engine → Disk → Nat → ExportStep Unit
  | .sync => Sync.handleExportData
  | .native => Native.handleExportData

theorem viewPeer_byteFed (engine : Engine) : ByteFed engine.viewPeer := by
  cases engine with
  | sync => exact Response.viewPeer_byteFed fun _ hn => Response.checkLen_ok hn _
  | native => exact Response.viewPeer_byteFed fun _ hn => Response.asyncCheck_ok hn

theorem sendImportReader_sends (engine : Engine) (bufferSize : Nat) (source : Stream) :
    Sends (sendImportReader engine bufferSize source) bufferSize
      (source.items engine.retries) := by
  cases engine with
  | sync => exact Sync.sendImportReader_sends bufferSize source
  | native => exact Native.sendImportReader_sends bufferSize source

/-- A run on what is unread is a run on the buffer and its socket. -/
theorem port_yields {engine : Engine} {α : Type} {prog : Step α} {a : α} {view : View}
    {session : Buffer engine × Stream}
    (h : Yields engine.viewPeer prog (unread engine session) a view) :
    ∃ session', Yields (reader engine).port prog session a session' ∧
      unread engine session' = view := by
  have hrun : (prog.run (reader engine).port session).outcome =
        (prog.run engine.viewPeer (unread engine session)).outcome ∧
      (prog.run (reader engine).port session).sent =
        (prog.run engine.viewPeer (unread engine session)).sent ∧
      (prog.run engine.viewPeer (unread engine session)).peer =
        unread engine (prog.run (reader engine).port session).peer := by
    cases engine with
    | sync => exact syncReader_serves.run_port prog session.1 session.2
    | native => exact nativeReader_serves.run_port prog session.1 session.2
  rw [show prog.run engine.viewPeer _ = _ from h] at hrun
  obtain ⟨hout, hsent, hpeer⟩ := hrun
  refine ⟨(prog.run (reader engine).port session).peer, ?_, hpeer.symm⟩
  show (⟨(prog.run (reader engine).port session).outcome,
    (prog.run (reader engine).port session).sent, _⟩ : Finish NzError α _) = _
  rw [hout, hsent]

theorem exportLoop_transfer {engine : Engine} {disk : Disk} (hdisk : disk.Sound) {file fuel : Nat}
    {chunks : List Bytes} (hfuel : chunks.length < fuel)
    (hchunks : ∀ chunk ∈ chunks, chunk ≠ [] ∧ chunk.length ≤ maxProtocolPayload)
    {files : Exports} (hfile : files.exportFile = some file) (view : View) :
    Yields engine.viewPeer ((exportLoop engine disk fuel).enter files)
      (bytesView (encodeTransfer (transfer chunks true)) ++ view)
      (.ok (), (files.recordAll file chunks).drop) view := by
  have hP := viewPeer_byteFed engine
  cases engine with
  | sync =>
      exact statusLoop_transfer hP hdisk (Sync.dataChunk_reads hP) hfuel hchunks hfile view
  | native =>
      exact statusLoop_transfer hP hdisk (Native.dataChunk_reads hP) hfuel hchunks hfile view

theorem handleExportData_yields {engine : Engine} {disk : Disk} {fuel : Nat} {header : Bytes}
    (hheader : header.length = 8) {files : Exports} {view view' : View}
    {r : NzResult Unit × Exports}
    (h : Yields engine.viewPeer ((exportLoop engine disk fuel).enter files) view r view') :
    Yields engine.viewPeer ((handleExportData engine disk fuel).enter files)
      (bytesView header ++ view) r view' := by
  have hP := viewPeer_byteFed engine
  cases engine with
  | sync => exact Sync.handleExportData_yields hP hheader h
  | native => exact Native.handleExportData_yields hP hheader h

/-! ## The transfer -/

/-- Wherever its session finds the message, the consumer takes it and no more, gives these bytes to
the file that is held, and holds it no longer. -/
def Receives (engine : Engine) (consumer : Disk → Nat → ExportStep Unit) (message content : Bytes) :
    Prop :=
  ∀ disk files file session rest fuel, disk.Sound → files.exportFile = some file →
    unread engine session = bytesView message ++ rest → message.length ≤ fuel →
      ∃ files' session',
        Yields (reader engine).port ((consumer disk fuel).enter files) session (.ok (), files')
            session' ∧
          unread engine session' = rest ∧ files'.exportFile = none ∧
            files'.contents file = files.contents file ++ content ∧
              ∀ other, other ≠ file → files'.contents other = files.contents other

theorem Receives.of_yields {engine : Engine} {consumer : Disk → Nat → ExportStep Unit}
    {message : Bytes} {chunks : List Bytes}
    (h : ∀ disk files file fuel view, disk.Sound → files.exportFile = some file →
      message.length ≤ fuel →
        Yields engine.viewPeer ((consumer disk fuel).enter files) (bytesView message ++ view)
          (.ok (), (files.recordAll file chunks).drop) view) :
    Receives engine consumer message chunks.flatten := by
  intro disk files file session rest fuel hdisk hfile hunread hfuel
  have hyields := h disk files file fuel rest hdisk hfile hfuel
  rw [← hunread] at hyields
  obtain ⟨session', hrun, hrest⟩ := port_yields hyields
  refine ⟨_, session', hrun, hrest, rfl, files.recordAll_contents file chunks, ?_⟩
  exact fun other hne => files.recordAll_contents_ne hne chunks

theorem length_lt_encodeTransfer (chunks : List Bytes) (clean : Bool) :
    chunks.length < (encodeTransfer (transfer chunks clean)).length := by
  induction chunks with
  | nil => cases clean <;> decide
  | cons chunk chunks ih =>
      rw [encodeTransfer_cons, List.length_append, TransferMessage.encode]
      simp only [List.length_append, ByteString.toBe_length, List.length_cons]
      omega

theorem exportLoop_receives (engine : Engine) {chunks : List Bytes}
    (hchunks : ∀ chunk ∈ chunks, chunk ≠ [] ∧ chunk.length ≤ maxProtocolPayload) :
    Receives engine (exportLoop engine) (encodeTransfer (transfer chunks true)) chunks.flatten := by
  refine .of_yields fun disk files file fuel view hdisk hfile hfuel => ?_
  have hlt := length_lt_encodeTransfer chunks true
  exact exportLoop_transfer hdisk (by omega) hchunks hfile view

theorem handleExportData_receives (engine : Engine) {chunks : List Bytes} {header : Bytes}
    (hheader : header.length = 8)
    (hchunks : ∀ chunk ∈ chunks, chunk ≠ [] ∧ chunk.length ≤ maxProtocolPayload) :
    Receives engine (handleExportData engine) (header ++ encodeTransfer (transfer chunks true))
      chunks.flatten := by
  refine .of_yields fun disk files file fuel view hdisk hfile hfuel => ?_
  have hlt := length_lt_encodeTransfer chunks true
  rw [List.length_append] at hfuel
  rw [bytesView_append, List.append_assoc]
  exact handleExportData_yields hheader
    (exportLoop_transfer hdisk (by omega) hchunks hfile view)

/-- What an import sends of its source is a sequence of chunks that fit the room and a final status.
A source that ended is what either engine writes of that sequence when it is exported, taking
exactly the sequence; a source that failed is not reported as done. -/
theorem external_data_exact (sender receiver : Engine) (bufferSize : Nat) (source : Stream) :
    ∃ chunks messages,
      CutInto bufferSize chunks (delivered (source.items sender.retries)).1 ∧
      (∀ {σ : Type} (P : Peer NzError σ) (s : σ),
        (sendImportReader sender bufferSize source).run P s =
          ⟨.ok (), encodeTransfer messages, s⟩) ∧
      ((delivered (source.items sender.retries)).2 = true →
        messages = chunks.map .data ++ [.done] ∧
        Receives receiver (exportLoop receiver) (encodeTransfer messages)
          (delivered (source.items sender.retries)).1 ∧
        ∀ header : Bytes, header.length = 8 →
          Receives receiver (handleExportData receiver) (header ++ encodeTransfer messages)
            (delivered (source.items sender.retries)).1) ∧
      ((delivered (source.items sender.retries)).2 = false →
        messages = chunks.map .data ++ [.failed] ∧ .done ∉ messages) := by
  obtain ⟨chunks, hcut, hsends⟩ := sendImportReader_sends sender bufferSize source
  have hchunks : ∀ chunk ∈ chunks, chunk ≠ [] ∧ chunk.length ≤ maxProtocolPayload := by
    intro chunk hmem
    have hfits := hcut.fits chunk hmem
    refine ⟨List.ne_nil_of_length_pos (hcut.nonempty chunk hmem), ?_⟩
    simp only [maxProtocolPayload]
    omega
  refine ⟨chunks, _, hcut, fun P s => hsends ▸ sendImportReader_run P s chunks _, ?_, ?_⟩
  · intro hclean
    rw [hclean, ← hcut.all]
    exact ⟨rfl, exportLoop_receives receiver hchunks, fun header hheader =>
      handleExportData_receives receiver hheader hchunks⟩
  · intro hfailed
    rw [hfailed]
    exact ⟨rfl, by simp [transfer]⟩

end NzRust.External
