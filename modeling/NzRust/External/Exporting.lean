import NzRust.Connection.Transaction
import NzRust.External.Transfer
import NzRust.Lib.Transition

/-!
# The file behind export data

`export_file` over the commands of a session. One message opens it, a later one
writes to it, and what clears it differs between the engines: the asynchronous
one drops it behind every request, the synchronous one only when it retires the
socket. Beside the session stands what the latest export start of the command
created, and for every write what that was then.
-/

namespace NzRust.External

open Wire Handshake Transition
open Response (readByte readI32 sendI32)
open Keeping (wire keep)

/-! ## One message -/

def exportFilename : Engine → Step Text
  | .sync => Sync.exportFilename
  | .native => Native.exportFilename

/-- A turn of the drain as far as it concerns exports; the rest of any other message is read by
code that has no part in the files. -/
def turn (engine : Engine) (disk : Disk) (fuel : Nat) : ExportStep UInt8 := do
  let code ← wire readByte
  if code = Code.extExportStart then
    startExport disk (exportFilename engine)
    return code
  else if code = Code.extExportData then
    handleExportData engine disk fuel
    return code
  else return code

/-- The name of the file that the next message asks for, if it is an export start. -/
def announced (engine : Engine) : Step (Option Text) := do
  let code ← readByte
  if code = Code.extExportStart then
    let filename ← exportFilename engine
    return some filename
  else return none

/-! ## The session -/

structure ExportSession (σ : Type) where
  peer : σ
  files : Exports := {}
  usable : Bool := true
  running : Bool := false
  /-- What the latest export start of the command created. -/
  latest : Option Nat := none
  /-- Every write, behind what `latest` was then. -/
  log : List (Option Nat × Nat × Bytes) := []

/-- A command begins, the drain takes a message, it does anything else, or the command ends. What
makes the asynchronous driver keep its session is left open. -/
inductive ExportAction (σ : Type) where
  | begin
  | message (fuel : Nat)
  | other (peer : σ)
  | finish (outcome : DrainOutcome) (reusable : Bool)

namespace ExportSession

variable {σ : Type}

/-- What the synchronous driver makes of a finished drain; `mark_protocol_fault` takes the file. -/
def settle (s : ExportSession σ) (outcome : DrainOutcome) : ExportSession σ :=
  let connection := Connection.afterDrain { executing := true } [] false outcome
  { s with
    running := false
    usable := connection.connected
    files := if connection.connected then s.files else s.files.drop }

def ended (engine : Engine) (s : ExportSession σ) (outcome : DrainOutcome) (reusable : Bool) :
    ExportSession σ :=
  match engine with
  | .sync => s.settle outcome
  | .native => { s with running := false, usable := reusable, files := s.files.drop }

/-- A message has been taken, or the drain fails inside it. -/
def received (engine : Engine) (s : ExportSession σ) (peer : σ) (r : NzResult UInt8 × Exports) :
    ExportSession σ :=
  let s' := { s with
    peer := peer
    files := r.2
    log := s.log ++ (r.2.written.drop s.files.written.length).map fun write => (s.latest, write) }
  match r.1 with
  | .error e => s'.ended engine (.failed e true false) false
  | .ok code =>
      if code = Code.extExportStart then
        { s' with latest := if s.files.created < r.2.created then r.2.exportFile else none }
      else s'

variable (engine : Engine) (disk : Disk) (P : Peer NzError σ)

def next (s : ExportSession σ) : ExportAction σ → Option (ExportSession σ)
  | .begin =>
      if s.usable && !s.running then some { s with running := true, latest := none } else none
  | .message fuel =>
      if s.running then
        let run := ((turn engine disk fuel).enter s.files).run P s.peer
        match run.outcome with
        | .ok r => some (s.received engine run.peer r)
        | _ => none
      else none
  | .other peer => if s.running then some { s with peer := peer } else none
  | .finish outcome reusable =>
      if s.running then some (s.ended engine outcome reusable) else none

end ExportSession

/-- A usable session, all its commands and all messages of its server. -/
def exporting {σ : Type} (engine : Engine) (disk : Disk) (P : Peer NzError σ) :
    System (ExportSession σ) (ExportAction σ) where
  initial s := ∃ peer, s = { peer := peer }
  step s a s' := s.next engine disk P a = some s'

/-- No export start is refused while a file is held, and with the synchronous driver no command
begins while a file is held. -/
def NothingHeld {σ : Type} (engine : Engine) (disk : Disk) (P : Peer NzError σ)
    (s : ExportSession σ) : ExportAction σ → Prop
  | .begin => engine = .sync → s.files.exportFile = none
  | .message _ =>
      ∀ filename, ((announced engine).run P s.peer).outcome = .ok (some filename) →
        s.files.exportFile = none ∨ disk.creates s.files filename = true
  | _ => True

/-! ## What a message does to the files -/

/-- Data was written to the held file only, which is held on or dropped. -/
structure Fed (files files' : Exports) : Prop where
  grows : ∃ more, files'.written = files.written ++ more ∧
    ∀ write ∈ more, files.exportFile = some write.1
  held : files'.exportFile = files.exportFile ∨ files'.exportFile = none

theorem Fed.refl (files : Exports) : Fed files files where
  grows := ⟨[], (List.append_nil _).symm, fun _ h => absurd h List.not_mem_nil⟩
  held := .inl rfl

theorem Fed.trans {files files' files'' : Exports} (h : Fed files files')
    (h' : Fed files' files'') : Fed files files'' := by
  obtain ⟨more, hwritten, hmore⟩ := h.grows
  obtain ⟨more', hwritten', hmore'⟩ := h'.grows
  refine ⟨⟨more ++ more', by rw [hwritten', hwritten, List.append_assoc], ?_⟩, ?_⟩
  · intro write hmem
    rcases List.mem_append.mp hmem with hfirst | hsecond
    · exact hmore write hfirst
    · have hheld := hmore' write hsecond
      rcases h.held with hsame | hnone
      · rw [← hsame]
        exact hheld
      · rw [hnone] at hheld
        cases hheld
  · rcases h'.held with hsame | hnone
    · rw [hsame]
      exact h.held
    · exact .inr hnone

theorem fed_record (files : Exports) {file : Nat} (hfile : files.exportFile = some file)
    (bytes : Bytes) : Fed files (files.record file bytes) where
  grows := ⟨[(file, bytes)], rfl, fun write hmem => by rw [List.mem_singleton.mp hmem, hfile]⟩
  held := .inl rfl

theorem fed_drop (files : Exports) : Fed files files.drop where
  grows := (Fed.refl files).grows
  held := .inr rfl

theorem fed_write (disk : Disk) (chunk : Bytes) (files : Exports) :
    Fed files (disk.write chunk files).2 := by
  unfold Disk.write
  split
  · exact .refl files
  case h_2 file hfile =>
    split
    · exact fed_record files hfile chunk
    · exact fed_record files hfile _

theorem fed_finish (disk : Disk) (files : Exports) : Fed files (disk.finish files).2 := by
  unfold Disk.finish
  split
  · exact .refl files
  · split <;> exact fed_drop files

section Moves

variable (disk : Disk)

/-- Programs that only feed the held file, one behind the other. -/
theorem feeds_bind {α β : Type} {x : ExportStep α} {k : α → ExportStep β}
    (h : Keeping.Moves Fed x) (hk : ∀ a, Keeping.Moves Fed (k a)) : Keeping.Moves Fed (x >>= k) :=
  h.bind (fun _ _ _ hfirst hrest => hfirst.trans hrest) hk

theorem feeds_wire {α : Type} (prog : Step α) : Keeping.Moves Fed (wire prog : ExportStep α) :=
  Keeping.moves_wire Fed.refl prog

theorem statusLoop_feeds {data errorText : ExportStep Unit} (hdata : Keeping.Moves Fed data)
    (htext : Keeping.Moves Fed errorText) (fuel : Nat) :
    Keeping.Moves Fed (statusLoop disk data errorText fuel) := by
  have hdrop : Keeping.Moves Fed dropFile := Keeping.moves_keep fed_drop
  induction fuel with
  | zero => exact Keeping.moves_unfinished
  | succ fuel ih =>
      refine feeds_bind (feeds_wire _) fun status => ?_
      by_cases hone : status = 1
      · rw [if_pos hone]
        exact feeds_bind hdata fun _ => ih
      rw [if_neg hone]
      by_cases hthree : status = 3
      · rw [if_pos hthree]
        exact Keeping.moves_keep (fed_finish disk)
      rw [if_neg hthree]
      by_cases htwo : status = 2
      · rw [if_pos htwo]
        exact feeds_bind htext fun _ => hdrop
      · rw [if_neg htwo]
        exact hdrop

/-- A part that is left out when there is nothing to read. -/
theorem feeds_unless {c : Prop} [Decidable c] {x : ExportStep Unit} (h : Keeping.Moves Fed x) :
    Keeping.Moves Fed (if c then x else return ()) := by
  by_cases hc : c
  · rwa [if_pos hc]
  · rw [if_neg hc]
    exact Keeping.moves_pure Fed.refl ()

theorem handleExportData_feeds (engine : Engine) (fuel : Nat) :
    Keeping.Moves Fed (handleExportData engine disk fuel) := by
  have hwrite : ∀ chunk, Keeping.Moves Fed (keep (disk.write chunk) : ExportStep Unit) :=
    fun chunk => Keeping.moves_keep (fed_write disk chunk)
  have hskip : ∀ read : Step Bytes, Keeping.Moves Fed
      ((wire read : ExportStep Bytes) >>= fun _ => return ()) :=
    fun read => feeds_bind (feeds_wire read) fun _ => Keeping.moves_pure Fed.refl ()
  cases engine with
  | sync =>
      refine feeds_bind (feeds_wire _) fun _ => feeds_bind (feeds_wire _) fun _ => ?_
      refine statusLoop_feeds disk ?_ ?_ fuel
      · exact feeds_bind (feeds_wire _) fun n =>
          feeds_unless (feeds_bind (feeds_wire _) fun chunk => hwrite chunk)
      · exact feeds_bind (feeds_wire _) fun len => feeds_unless (hskip _)
  | native =>
      refine feeds_bind (feeds_wire _) fun _ => feeds_bind (feeds_wire _) fun _ => ?_
      refine statusLoop_feeds disk ?_ ?_ fuel
      · exact feeds_bind (feeds_wire _) fun n => feeds_bind (feeds_wire _) fun chunk => hwrite chunk
      · exact feeds_bind (feeds_wire _) fun len => feeds_unless (hskip _)

end Moves

section Turn

variable {σ : Type} {engine : Engine} {disk : Disk} {P : Peer NzError σ} {s : σ} {files : Exports}

/-- An export start whose name was read creates its file, or leaves everything as it is. -/
theorem startExport_ends {filename : Step Text} {r : NzResult Unit × Exports}
    (h : (((startExport disk filename).enter files).run P s).outcome = .ok r) :
    (∃ e, r = (.error e, files)) ∨
      ∃ name, (filename.run P s).outcome = .ok name ∧
        r = (.ok (), if disk.creates files name then files.create else files) := by
  rcases Keeping.wire_bind_ends h with ⟨e, rfl⟩ | ⟨name, hname, hrest⟩
  · exact .inl ⟨e, rfl⟩
  refine .inr ⟨name, hname, ?_⟩
  by_cases hcreates : disk.creates files name = true
  · have hcreate : disk.createFile name files = (.ok true, files.create) := if_pos hcreates
    rw [Keeping.keep_bind_enter hcreate] at hrest
    cases hrest
    rw [if_pos hcreates]
  · have hrefuse : disk.createFile name files = (.ok false, files) := if_neg hcreates
    rw [Keeping.keep_bind_enter hrefuse] at hrest
    cases hrest
    rw [if_neg hcreates]

theorem announced_start {name : Text} (hcode : (readByte.run P s).outcome = .ok Code.extExportStart)
    (hname : ((exportFilename engine).run P (readByte.run P s).peer).outcome = .ok name) :
    ((announced engine).run P s).outcome = .ok (some name) := by
  show ((readByte.bind _).run P s).outcome = _
  rw [run_bind, hcode]
  show (((exportFilename engine).bind _).run P _).outcome = _
  rw [run_bind, hname]
  rfl

/-- What a message does to the files: only an announced start touches what is held. -/
theorem turn_ends {fuel : Nat} {r : NzResult UInt8 × Exports}
    (h : (((turn engine disk fuel).enter files).run P s).outcome = .ok r) :
    (r.1 ≠ .ok Code.extExportStart ∧ Fed files r.2) ∨
      ∃ name, ((announced engine).run P s).outcome = .ok (some name) ∧
        r = (.ok Code.extExportStart, if disk.creates files name then files.create else files) := by
  rcases Keeping.wire_bind_ends h with ⟨e, rfl⟩ | ⟨code, hcode, hrest⟩
  · refine .inl ⟨?_, .refl files⟩
    intro hr
    cases hr
  by_cases hstart : code = Code.extExportStart
  · rw [if_pos hstart] at hrest
    rw [hstart] at hcode hrest
    rcases Keeping.bind_ends hrest with ⟨e, files', hfirst, rfl⟩ | ⟨_, files', hfirst, hend⟩
    · rcases startExport_ends hfirst with ⟨e', heq⟩ | ⟨name, -, heq⟩
      · cases heq
        refine .inl ⟨?_, .refl files⟩
        intro hr
        cases hr
      · cases heq
    · rcases startExport_ends hfirst with ⟨e', heq⟩ | ⟨name, hname, heq⟩
      · cases heq
      · cases heq
        cases hend
        exact .inr ⟨name, announced_start hcode hname, rfl⟩
  rw [if_neg hstart] at hrest
  by_cases hdata : code = Code.extExportData
  · rw [if_pos hdata] at hrest
    have hfeeds := handleExportData_feeds disk engine fuel σ P
    rcases Keeping.bind_ends hrest with ⟨e, files', hfirst, rfl⟩ | ⟨_, files', hfirst, hend⟩
    · refine .inl ⟨?_, hfeeds _ _ _ hfirst⟩
      intro hr
      cases hr
    · cases hend
      refine .inl ⟨?_, hfeeds _ _ _ hfirst⟩
      intro hr
      exact hstart (Except.ok.inj hr)
  · rw [if_neg hdata] at hrest
    cases hrest
    refine .inl ⟨?_, .refl files⟩
    intro hr
    exact hstart (Except.ok.inj hr)

end Turn

/-! ## Over whole runs -/

/-- Everything written went to the file that its command had opened last, and a command holds no
other file. -/
structure Placed {σ : Type} (engine : Engine) (s : ExportSession σ) : Prop where
  logged : s.log.map Prod.snd = s.files.written
  placed : ∀ entry ∈ s.log, entry.1 = some entry.2.1
  held : s.running = true → s.files.exportFile = none ∨ s.files.exportFile = s.latest
  idle : engine = .native → s.running = false → s.files.exportFile = none

section Runs

variable {σ : Type} {engine : Engine} {disk : Disk} {P : Peer NzError σ} {s s' : ExportSession σ}

theorem Placed.start (engine : Engine) (peer : σ) : Placed engine { peer := peer } where
  logged := rfl
  placed _ h := absurd h List.not_mem_nil
  held h := by cases h
  idle _ _ := rfl

theorem Placed.begin (h : Placed engine s) (hclear : NothingHeld engine disk P s .begin)
    (hrunning : s.running = false) :
    Placed engine { s with running := true, latest := none } where
  logged := h.logged
  placed := h.placed
  held _ := by
    cases engine with
    | sync => exact .inl (hclear rfl)
    | native => exact .inl (h.idle rfl hrunning)
  idle _ hidle := by cases hidle

theorem Placed.other (h : Placed engine s) (peer : σ) : Placed engine { s with peer := peer } where
  logged := h.logged
  placed := h.placed
  held := h.held
  idle := h.idle

/-- The end of a command may drop the file, and writes nothing. -/
theorem Placed.ended (h : Placed engine s) (outcome : DrainOutcome) (reusable : Bool) :
    Placed engine (s.ended engine outcome reusable) := by
  cases engine with
  | sync =>
      have hwritten : (s.settle outcome).files.written = s.files.written := by
        unfold ExportSession.settle
        dsimp only
        split <;> rfl
      refine ⟨?_, h.placed, ?_, ?_⟩
      · exact h.logged.trans hwritten.symm
      · intro hrunning
        cases hrunning
      · intro hengine
        cases hengine
  | native =>
      refine ⟨h.logged, h.placed, ?_, fun _ _ => rfl⟩
      intro hrunning
      cases hrunning

/-- Data of a message goes where the command holds its file. -/
theorem Placed.fed (h : Placed engine s) (hrunning : s.running = true) {files : Exports}
    (hfed : Fed s.files files) (peer : σ) :
    Placed engine { s with
      peer := peer
      files := files
      log := s.log ++ (files.written.drop s.files.written.length).map fun write =>
        (s.latest, write) } := by
  obtain ⟨more, hwritten, hmore⟩ := hfed.grows
  have hdrop : files.written.drop s.files.written.length = more := by
    rw [hwritten, List.drop_left]
  rw [hdrop]
  refine ⟨?_, ?_, ?_, ?_⟩
  · show (s.log ++ _).map Prod.snd = files.written
    rw [List.map_append, h.logged, hwritten, List.map_map]
    exact congrArg (s.files.written ++ ·) (List.map_id more)
  · intro entry hmem
    rcases List.mem_append.mp hmem with hold | hnew
    · exact h.placed entry hold
    · obtain ⟨write, hwrite, rfl⟩ := List.mem_map.mp hnew
      have hfile := hmore write hwrite
      rcases h.held hrunning with hnone | hlatest
      · rw [hnone] at hfile
        cases hfile
      · exact hlatest.symm.trans hfile
  · intro _
    rcases hfed.held with hsame | hnone
    · show files.exportFile = none ∨ files.exportFile = s.latest
      rw [hsame]
      exact h.held hrunning
    · exact .inl hnone
  · intro _ hidle
    rw [show s.running = false from hidle] at hrunning
    cases hrunning

/-- An export start that is not refused while a file is held leaves the file it created. -/
theorem Placed.started (h : Placed engine s) (hrunning : s.running = true) {name : Text}
    (hclear : s.files.exportFile = none ∨ disk.creates s.files name = true) (peer : σ) :
    Placed engine (s.received engine peer (.ok Code.extExportStart,
      if disk.creates s.files name then s.files.create else s.files)) := by
  have hbase := h.fed hrunning (Fed.refl s.files) peer
  have hidle : ∀ {p : Prop}, s.running = false → p := by
    intro p hfalse
    rw [hfalse] at hrunning
    cases hrunning
  unfold ExportSession.received
  dsimp only
  rw [if_pos rfl]
  by_cases hcreates : disk.creates s.files name = true
  · rw [if_pos hcreates]
    exact ⟨hbase.logged, hbase.placed, fun _ => .inr (if_pos (Nat.lt_succ_self _)).symm,
      fun _ => hidle⟩
  · rw [if_neg hcreates]
    exact ⟨hbase.logged, hbase.placed, fun _ => .inl (hclear.resolve_right hcreates),
      fun _ => hidle⟩

theorem Placed.received (h : Placed engine s) (hrunning : s.running = true) {fuel : Nat}
    {r : NzResult UInt8 × Exports} (hclear : NothingHeld engine disk P s (.message fuel))
    (hrun : (((turn engine disk fuel).enter s.files).run P s.peer).outcome = .ok r) (peer : σ) :
    Placed engine (s.received engine peer r) := by
  rcases turn_ends hrun with ⟨hother, hfed⟩ | ⟨name, hname, rfl⟩
  · have hplaced := h.fed hrunning hfed peer
    unfold ExportSession.received
    cases hr : r.1 with
    | error e => exact hplaced.ended _ _
    | ok code =>
        have hcode : code ≠ Code.extExportStart := by
          rintro rfl
          exact hother hr
        dsimp only
        rw [if_neg hcode]
        exact hplaced
  · exact h.started hrunning (hclear name hname) peer

theorem Placed.step (h : Placed engine s) (a : ExportAction σ) (hclear : NothingHeld engine disk P s a)
    (hstep : s.next engine disk P a = some s') : Placed engine s' := by
  cases a with
  | begin =>
      by_cases hready : (s.usable && !s.running) = true
      · simp only [ExportSession.next, hready, if_true, Option.some.injEq] at hstep
        subst hstep
        exact h.begin hclear (by simpa using (Bool.and_eq_true_iff.mp hready).2)
      · simp [ExportSession.next, hready] at hstep
  | message fuel =>
      by_cases hrunning : s.running = true
      · simp only [ExportSession.next, if_pos hrunning] at hstep
        cases hrun : (((turn engine disk fuel).enter s.files).run P s.peer).outcome with
        | ok r =>
            rw [hrun] at hstep
            cases hstep
            exact h.received hrunning hclear hrun _
        | error e =>
            rw [hrun] at hstep
            cases hstep
        | unfinished =>
            rw [hrun] at hstep
            cases hstep
      · simp [ExportSession.next, hrunning] at hstep
  | other peer =>
      by_cases hrunning : s.running = true
      · simp only [ExportSession.next, if_pos hrunning, Option.some.injEq] at hstep
        subst hstep
        exact h.other peer
      · simp [ExportSession.next, hrunning] at hstep
  | finish outcome reusable =>
      by_cases hrunning : s.running = true
      · simp only [ExportSession.next, if_pos hrunning, Option.some.injEq] at hstep
        subst hstep
        exact h.ended outcome reusable
      · simp [ExportSession.next, hrunning] at hstep

/-- Whatever the server sends and however the commands end: as long as nothing is held where it
must not be, every byte that export data has put into a file went into the one that the latest
export start of the command had created. -/
theorem export_data_placed
    (h : ((exporting engine disk P).guarded (NothingHeld engine disk P)).Reachable s) :
    s.log.map Prod.snd = s.files.written ∧ ∀ entry ∈ s.log, entry.1 = some entry.2.1 := by
  have hplaced : Placed engine s := by
    refine h.invariant ?_ ?_
    · rintro s ⟨peer, rfl⟩
      exact .start engine peer
    · rintro s a s' hs ⟨hclear, hstep⟩
      exact hs.step a hclear hstep
  exact ⟨hplaced.logged, hplaced.placed⟩

end Runs

/-! ## Runs that the condition excludes -/

/-- A file system that creates the files named `a` and refuses all others. -/
def onlyA : Disk where
  creates _ filename := filename == "a".toList
  stores _ _ _ := .ok ()
  flushes _ _ := .ok ()

/-- An export start for a file of this name, with blank headers. -/
def startBytes (name : UInt8) : Bytes :=
  Code.extExportStart :: (List.replicate 30 0 ++ ByteString.toBe 4 1 ++ [name])

/-- Export data of one byte. -/
def dataBytes (byte : UInt8) : Bytes :=
  Code.extExportData :: (List.replicate 8 0 ++ encodeTransfer (transfer [[byte]] true))

/-- A session whose server sends these bytes. -/
def fedBy (bytes : Bytes) : ExportSession View where
  peer := bytesView bytes

/-- The data behind a refused start goes into the file of the start before it; with the synchronous
driver the data of a command without a start goes into the file of the command before. -/
theorem stale_file_written :
    (∀ engine : Engine, ∃ s,
      (exporting engine onlyA engine.viewPeer).Run
        (fedBy (startBytes 97 ++ startBytes 98 ++ dataBytes 7))
        [.begin, .message 5, .message 5, .message 5] s ∧
      s.latest = none ∧ s.log = [(none, 0, [7])]) ∧
    ∃ s, (exporting .sync onlyA Engine.sync.viewPeer).Run (fedBy (startBytes 97 ++ dataBytes 7))
        [.begin, .message 5, .finish .finished true, .begin, .message 5] s ∧
      s.latest = none ∧ s.log = [(none, 0, [7])] := by
  refine ⟨fun engine => ?_, ?_⟩
  · cases engine with
    | sync => exact ⟨_, .cons rfl (.cons rfl (.cons rfl (.cons rfl (.nil _)))), rfl, rfl⟩
    | native => exact ⟨_, .cons rfl (.cons rfl (.cons rfl (.cons rfl (.nil _)))), rfl, rfl⟩
  · exact ⟨_, .cons rfl (.cons rfl (.cons rfl (.cons rfl (.cons rfl (.nil _))))), rfl, rfl⟩

/-- Data behind a start that was not refused is where it belongs. -/
theorem fresh_file_written : ∃ s,
    ((exporting .native onlyA Engine.native.viewPeer).guarded
      (NothingHeld .native onlyA Engine.native.viewPeer)).Reachable s ∧
    s.log = [(some 0, 0, [7])] ∧ s.log.map Prod.snd = s.files.written ∧
    ∀ entry ∈ s.log, entry.1 = some entry.2.1 := by
  have hbegin : ∀ s, NothingHeld .native onlyA Engine.native.viewPeer s .begin := by
    intro s h
    cases h
  have hstart : ((exporting .native onlyA Engine.native.viewPeer).guarded
      (NothingHeld .native onlyA Engine.native.viewPeer)).Reachable
      (fedBy (startBytes 97 ++ dataBytes 7)) := .start ⟨_, rfl⟩
  have hbegun := hstart.move (a := ExportAction.begin) ⟨hbegin _, rfl⟩
  have hopened := hbegun.move (a := ExportAction.message 5) ⟨fun _ _ => .inl rfl, rfl⟩
  have hwritten := hopened.move (a := ExportAction.message 5) ⟨fun filename hname => ?_, rfl⟩
  · exact ⟨_, hwritten, rfl, export_data_placed hwritten⟩
  · have hnone : ((announced .native).run Engine.native.viewPeer
      (bytesView (dataBytes 7))).outcome = .ok none := rfl
    cases hnone.symm.trans hname

end NzRust.External
