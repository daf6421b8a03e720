import NzRust.Response.Framing
import NzRust.Response.Sink

/-!
# Fragmentation

The drain over a buffer and a socket is the drain over the bytes that these
show, one frame at a time. Where the socket's reads end decides how many rows
the inner loop takes, and nothing else.
-/

namespace NzRust.Response

open Wire
open Handshake (Step)

/-- The reads of the synchronous engine on the bytes to come. -/
def viewSync : Peer NzError View :=
  Handshake.viewPeer ReadBuffer.closedMessage (ReadBuffer.checkLen · "buffer read")

theorem viewSync_byteFed : ByteFed viewSync :=
  viewPeer_byteFed fun _ hn => checkLen_ok hn _

theorem viewSync_read_le (n : Nat) (view : View) : (viewSync.read n view).2.length ≤ view.length := by
  unfold viewSync Handshake.viewPeer
  dsimp only
  split
  · exact Nat.le_refl _
  · exact viewRead_length_le _ _ _

theorem viewSync_read_lt {n : Nat} {view : View} {bytes : Bytes}
    (h : (viewSync.read (n + 1) view).1 = .ok bytes) :
    (viewSync.read (n + 1) view).2.length < view.length := by
  unfold viewSync Handshake.viewPeer at *
  dsimp only at *
  split at h
  · cases h
  · exact viewRead_length_lt h

theorem viewSync_shrinks : Shrinks viewSync List.length where
  read_le := viewSync_read_le
  read_lt _ _ h := viewSync_read_lt h
  upgrade_le _ := Nat.le_refl _

/-! ## Programs with enough fuel -/

/-- On fewer than `n` items both programs finish, in the same way. -/
def Settled {α : Type} (n : Nat) (p q : Step α) : Prop :=
  ∀ view : View, view.length < n →
    (p.run viewSync view).outcome ≠ .unfinished ∧ p.run viewSync view = q.run viewSync view

section Settled

variable {α β : Type} {n : Nat}

theorem Settled.of_total {p : Step α} (h : Total p) : Settled n p p :=
  fun view _ => ⟨h.finishes view, rfl⟩

theorem Settled.bind {p : Step α} {k k' : α → Step β} (h : Total p)
    (hk : ∀ a, Settled n (k a) (k' a)) : Settled n (p >>= k) (p >>= k') := by
  intro view hview
  have hle := viewSync_shrinks.run_le p view
  have hfinish := h.finishes (P := viewSync) view
  show ((p.bind k).run viewSync view).outcome ≠ .unfinished ∧
    (p.bind k).run viewSync view = (p.bind k').run viewSync view
  rw [run_bind, run_bind]
  cases hout : (p.run viewSync view).outcome with
  | error e => exact ⟨nofun, rfl⟩
  | unfinished => exact absurd hout hfinish
  | ok a =>
      obtain ⟨hdone, heq⟩ := hk a _ (Nat.lt_of_le_of_lt hle hview)
      dsimp only
      rw [← heq]
      exact ⟨hdone, rfl⟩

/-- Reading bytes off the front leaves fewer items to what follows. -/
theorem Settled.read {m : Nat} {next next' : NzResult Bytes → Step β}
    (herror : ∀ e, next (.error e) = .fail e ∧ next' (.error e) = .fail e)
    (hok : ∀ bytes, Settled n (next (.ok bytes)) (next' (.ok bytes))) :
    Settled (n + 1) (.read (m + 1) next) (.read (m + 1) next') := by
  intro view hview
  simp only [Prog.run]
  cases hread : (viewSync.read (m + 1) view).1 with
  | error e =>
      rw [(herror e).1, (herror e).2]
      refine ⟨?_, rfl⟩
      intro hfalse
      cases hfalse
  | ok bytes =>
      have hlt := viewSync_read_lt hread
      exact hok bytes _ (by omega)

end Settled

/-! ## Reads that end -/

theorem total_take (n : Nat) : Total (Prog.take n : Step Bytes) :=
  .of_silent (.take n)

theorem total_ofExcept {α : Type} (r : NzResult α) : Total (Prog.ofExcept r : Step α) :=
  .of_silent (.ofExcept r)

theorem total_readI32 : Total readI32 :=
  .bind (total_take 4) fun _ => .ret _

theorem total_skip (n : Nat) : Total (skip n) :=
  .bind (total_ofExcept _) fun _ => .bind (total_take n) fun _ => .ret _

theorem total_readLen (field : String) : Total (readLen field) :=
  .bind total_readI32 fun _ => total_ofExcept _

theorem total_readCounted (field : String) : Total (readCounted field) :=
  .bind (total_readLen field) fun len => total_take len

theorem total_sendI32 (value : Int) : Total (sendI32 value) :=
  .send _

theorem total_readName (tooLong : NzError) (room : Nat) (name : Bytes) :
    Total (readName tooLong room name) := by
  induction room generalizing name with
  | zero => exact .fail tooLong
  | succ room ih =>
      refine .bind (total_take 1) fun b => ?_
      show Total (if b.headD 0 = 0 then Prog.ret name
        else if 4096 < name.length + 1 then .fail tooLong else readName tooLong room (name ++ b))
      split
      · exact .ret name
      split
      · exact .fail tooLong
      · exact ih _

theorem total_sendChunks (chunks : List Bytes) : Total (sendChunks chunks) := by
  induction chunks with
  | nil => exact .ret ()
  | cons chunk chunks ih => exact .bind (.send _) fun _ => .bind (.send _) fun _ => ih

theorem total_sendImportReader (chunks : List Bytes) (clean : Bool) :
    Total (sendImportReader chunks clean) := by
  refine .bind (total_sendChunks chunks) fun _ => ?_
  cases clean with
  | true => exact total_sendI32 3
  | false => exact total_sendI32 2

/-! ## External-table messages -/

theorem consumeExportStream_settled (n f f' : Nat) (hf : n ≤ f) (hf' : n ≤ f') :
    Settled n (consumeExportStream f) (consumeExportStream f') := by
  induction n generalizing f f' with
  | zero =>
      intro view hview
      exact absurd hview (Nat.not_lt_zero _)
  | succ n ih =>
      obtain ⟨f, rfl⟩ : ∃ g, f = g + 1 := ⟨f - 1, by omega⟩
      obtain ⟨f', rfl⟩ : ∃ g, f' = g + 1 := ⟨f' - 1, by omega⟩
      refine Settled.read (fun _ => ⟨rfl, rfl⟩) fun bytes => ?_
      show Settled n (if ByteString.beInt bytes = 1 then _ else _) (if ByteString.beInt bytes = 1 then _ else _)
      by_cases hchunk : ByteString.beInt bytes = 1
      · simp only [if_pos hchunk]
        exact Settled.bind (total_readCounted _) fun _ => ih f f' (by omega) (by omega)
      · simp only [if_neg hchunk]
        refine .of_total ?_
        split
        · exact .bind (total_take 2) fun len => .bind (total_take _) fun _ => .ret ()
        · exact .ret ()

theorem logChunks_settled (n f f' : Nat) (hf : n ≤ f) (hf' : n ≤ f') :
    Settled n (logChunks f) (logChunks f') := by
  induction n generalizing f f' with
  | zero =>
      intro view hview
      exact absurd hview (Nat.not_lt_zero _)
  | succ n ih =>
      obtain ⟨f, rfl⟩ : ∃ g, f = g + 1 := ⟨f - 1, by omega⟩
      obtain ⟨f', rfl⟩ : ∃ g, f' = g + 1 := ⟨f' - 1, by omega⟩
      refine Settled.read (fun _ => ⟨rfl, rfl⟩) fun bytes => ?_
      refine Settled.bind (total_ofExcept _) fun len => ?_
      by_cases hlast : len = 0
      · simp only [if_pos hlast]
        exact .of_total (.ret ())
      · simp only [if_neg hlast]
        exact Settled.bind (total_take _) fun _ => ih f f' (by omega) (by omega)

theorem total_handleExportStart (files : ExternalFiles) : Total (handleExportStart files) := by
  refine .bind (total_skip 4) fun _ => .bind (total_skip 10) fun _ => .bind (total_skip 16) fun _ =>
    .bind (total_readLen _) fun len => ?_
  show Wire.Total (if len = 0 then _ else _)
  split
  · exact .fail _
  · refine .bind (total_take _) fun name => .bind (total_ofExcept _) fun filename => ?_
    show Total (if files.creates filename then sendI32 0 else sendI32 1)
    split <;> exact total_sendI32 _

theorem total_handleImport (files : ExternalFiles) : Total (handleImport files) := by
  refine .bind (total_skip 8) fun _ => .bind (total_readName _ _ _) fun nameBytes =>
    .bind (total_ofExcept _) fun filename => .bind total_readI32 fun _ =>
    .bind (total_sendI32 1) fun _ => .bind total_readI32 fun _ => .bind total_readI32 fun size =>
    .bind (total_ofExcept _) fun size => ?_
  split
  · exact total_sendImportReader _ _
  · exact total_sendI32 2

theorem handleExternal_settled (files : ExternalFiles) (code : UInt8) (n f f' : Nat) (hf : n ≤ f)
    (hf' : n ≤ f') : Settled n (handleExternal files f code) (handleExternal files f' code) := by
  unfold handleExternal
  split
  · exact .of_total (total_handleExportStart files)
  split
  · exact Settled.bind (total_skip 4) fun _ => Settled.bind (total_skip 4) fun _ =>
      consumeExportStream_settled n f f' hf hf'
  split
  · exact .of_total (total_handleImport files)
  split
  · exact .of_total (total_skip 4)
  · unfold handleExtLog
    refine Settled.bind (total_skip 4) fun _ => Settled.bind (total_readLen _) fun len => ?_
    by_cases hnone : len = 0
    · simp only [if_pos hnone]
      exact .of_total (.fail _)
    · simp only [if_neg hnone]
      exact Settled.bind (total_take _) fun dir => Settled.bind (total_take _) fun _ =>
        Settled.bind (total_ofExcept _) fun _ => Settled.bind (total_readName _ _ _) fun nameBytes =>
        Settled.bind (total_ofExcept _) fun _ => Settled.bind total_readI32 fun _ =>
        logChunks_settled n f f' hf hf'

/-! ## One frame at a time -/

section Loop

variable {V S R K : Type} (files : ExternalFiles) (dec : Decoder V) (E : Engine V S R K)

/-- What the engines have in common: their framed messages end, and a row of the inner loop is
treated as the outer loop would. -/
structure Engine.Lawful (E : Engine V S R K) (Open : K → DbosTupleDesc → S → Prop) : Prop where
  framed_total : ∀ st code, Wire.Total (E.framed st code)
  row_open : ∀ {st st' desc decoded k}, E.descriptor st = .ok desc →
    E.row st desc decoded = .ok (st', some k) → Open k desc st'
  descriptor : ∀ {k desc st}, Open k desc st → E.descriptor st = .ok desc
  available_error : ∀ {k desc st decoded e}, Open k desc st →
    E.available k st desc decoded = .error e → E.row st desc decoded = .error e
  available_ok : ∀ {k desc st st' decoded}, Open k desc st →
    E.available k st desc decoded = .ok st' →
    (∃ o, E.row st desc decoded = .ok (st', o)) ∧ Open k desc st'

/-- The drain without its inner loop, on the bytes to come. -/
def drainView : Nat → S → View → Ending S R View
  | 0, st, view => ⟨.unfinished, st, [], view⟩
  | fuel + 1, st, view =>
      let r := (turn files dec E fuel st).run viewSync view
      match r.outcome with
      | .error e => ⟨.error e, st, r.sent, r.peer⟩
      | .unfinished => ⟨.unfinished, st, r.sent, r.peer⟩
      | .ok (.done st' result) => ⟨.ok result, st', r.sent, r.peer⟩
      | .ok (.next st') => (drainView fuel st' r.peer).after r.sent
      | .ok (.rows _ _ st') => (drainView fuel st' r.peer).after r.sent

theorem total_readRow (st : S) (desc : DbosTupleDesc) (len : Int) :
    Wire.Total (readRow dec E st desc len) := by
  refine .bind (total_ofExcept _) fun len => .bind (total_take _) fun payload =>
    .bind (total_ofExcept _) fun stored => ?_
  obtain ⟨st', _ | k⟩ := stored
  · exact .ret _
  · exact .ret _

theorem total_rowTurn (st : S) : Wire.Total (rowTurn dec E st) :=
  .bind (total_skip 4) fun _ => .bind (total_ofExcept _) fun desc => .bind (total_skip 4) fun _ =>
    .bind total_readI32 fun len => total_readRow dec E st desc len

variable {E} {Open : K → DbosTupleDesc → S → Prop} (hE : E.Lawful Open)

include hE

theorem turn_settled (st : S) (n f f' : Nat) (hf : n ≤ f) (hf' : n ≤ f') :
    Settled (n + 1) (turn files dec E f st) (turn files dec E f' st) := by
  refine Settled.read (fun _ => ⟨rfl, rfl⟩) fun bytes => ?_
  generalize hcode : bytes.headD 0 = code
  show Settled n (if bytes.headD 0 = 0 then _ else _) (if bytes.headD 0 = 0 then _ else _)
  rw [hcode]
  by_cases hzero : code = 0
  · simp only [if_pos hzero]
    exact .of_total (.ret _)
  simp only [if_neg hzero]
  by_cases hexternal : Code.isExternal code = true
  · simp only [if_pos hexternal]
    intro view hview
    have hsettled := handleExternal_settled files code n f f' hf hf' view hview
    show ((Prog.bind (handleExternal files f code) _).run viewSync view).outcome ≠ .unfinished ∧
      (Prog.bind (handleExternal files f code) _).run viewSync view =
        (Prog.bind (handleExternal files f' code) _).run viewSync view
    rw [run_bind, run_bind, ← hsettled.2]
    refine ⟨?_, rfl⟩
    cases hout : ((handleExternal files f code).run viewSync view).outcome with
    | ok u => exact nofun
    | error e => exact nofun
    | unfinished => exact absurd hout hsettled.1
  simp only [if_neg hexternal]
  by_cases hrow : code = Code.rowStandard
  · simp only [if_pos hrow]
    exact .of_total (total_rowTurn dec E st)
  simp only [if_neg hrow]
  refine .of_total (.bind (total_skip 4) fun _ => ?_)
  split
  · exact .ret _
  split
  · exact .ret _
  · exact .bind (hE.framed_total st code) fun _ => .ret _

omit hE in
/-- A turn that ends well has consumed its code byte. -/
theorem turn_shrinks (f : Nat) (st : S) (view : View) {t : Turn S R K}
    (h : ((turn files dec E f st).run viewSync view).outcome = .ok t) :
    ((turn files dec E f st).run viewSync view).peer.length < view.length := by
  unfold turn readByte at *
  simp only [bind, Prog.bind, Prog.take, Prog.run] at *
  cases hread : (viewSync.read 1 view).1 with
  | error e =>
      rw [hread] at h
      cases h
  | ok bytes =>
      have hlt := viewSync_read_lt hread
      exact Nat.lt_of_le_of_lt (viewSync_shrinks.run_le _ _) hlt

/-- With fuel for every byte the drain ends, and more fuel changes nothing. -/
theorem drainView_settled (n : Nat) (st : S) (view : View) (hview : view.length < n) {f f' : Nat}
    (hf : n ≤ f) (hf' : n ≤ f') :
    (drainView files dec E f st view).outcome ≠ .unfinished ∧
      drainView files dec E f st view = drainView files dec E f' st view := by
  induction n generalizing st view f f' with
  | zero => exact absurd hview (Nat.not_lt_zero _)
  | succ n ih =>
      obtain ⟨f, rfl⟩ : ∃ g, f = g + 1 := ⟨f - 1, by omega⟩
      obtain ⟨f', rfl⟩ : ∃ g, f' = g + 1 := ⟨f' - 1, by omega⟩
      obtain ⟨hends, hturn⟩ := turn_settled files dec hE st n f f' (by omega) (by omega) view hview
      unfold drainView
      rw [← hturn]
      dsimp only
      cases hout : ((turn files dec E f st).run viewSync view).outcome with
      | error e => exact ⟨nofun, rfl⟩
      | unfinished => exact absurd hout hends
      | ok t =>
          have hlt := turn_shrinks files dec f st view hout
          have hrest : ∀ st', (drainView files dec E f st'
                ((turn files dec E f st).run viewSync view).peer).outcome ≠ .unfinished ∧
              drainView files dec E f st' ((turn files dec E f st).run viewSync view).peer =
                drainView files dec E f' st' ((turn files dec E f st).run viewSync view).peer :=
            fun st' => ih st' _ (by omega) (by omega) (by omega)
          cases t with
          | done st' result => exact ⟨nofun, rfl⟩
          | next st' =>
              obtain ⟨hdone, heq⟩ := hrest st'
              dsimp only
              rw [← heq]
              exact ⟨hdone, rfl⟩
          | rows k desc st' =>
              obtain ⟨hdone, heq⟩ := hrest st'
              dsimp only
              rw [← heq]
              exact ⟨hdone, rfl⟩

/-! ## Frames in the buffer -/

omit hE

/-- The parts of a buffered row frame. -/
theorem frame_parts {slice : Bytes} (h : 13 ≤ slice.length) :
    ∃ header reserved, header.length = 4 ∧ reserved.length = 4 ∧
      slice = slice.headD 0 :: (header ++ (reserved ++ ((slice.drop 9).take 4 ++ slice.drop 13))) := by
  refine ⟨(slice.drop 1).take 4, (slice.drop 5).take 4, ?_, ?_, ?_⟩
  · rw [List.length_take, List.length_drop]
    omega
  · rw [List.length_take, List.length_drop]
    omega
  · have hlength : (slice.drop 9).take 4 ++ slice.drop 13 = slice.drop 9 := by
      rw [← List.drop_drop (i := 4) (j := 9), List.take_append_drop]
    have hreserved : (slice.drop 5).take 4 ++ slice.drop 9 = slice.drop 5 := by
      rw [← List.drop_drop (i := 4) (j := 5), List.take_append_drop]
    have hheader : (slice.drop 1).take 4 ++ slice.drop 5 = slice.drop 1 := by
      rw [← List.drop_drop (i := 4) (j := 1), List.take_append_drop]
    rw [hlength, hreserved, hheader]
    cases slice with
    | nil => cases h
    | cons b bs => rfl

/-- A turn on such a frame comes to its payload. -/
theorem turn_frame (f : Nat) {st : S} {desc : DbosTupleDesc} (hdesc : E.descriptor st = .ok desc)
    {slice : Bytes} (hlen : 13 ≤ slice.length) (hcode : slice.headD 0 = Code.rowStandard)
    (view : View) :
    (turn files dec E f st).run viewSync (bytesView slice ++ view) =
      (readRow dec E st desc (ByteString.beInt ((slice.drop 9).take 4))).run viewSync
        (bytesView (slice.drop 13) ++ view) := by
  obtain ⟨header, reserved, hheader, hreserved, hslice⟩ := frame_parts hlen
  have hword : ((slice.drop 9).take 4).length = 4 := by
    rw [List.length_take, List.length_drop]
    omega
  rw [hcode] at hslice
  conv => lhs; rw [hslice]
  simp only [bytesView_append, bytesView_cons_append, List.append_assoc]
  refine ((viewSync_byteFed.readByte Code.rowStandard).run_bind _).trans ?_
  show (rowTurn dec E st).run viewSync _ = _
  refine ((viewSync_byteFed.skip hheader (by decide)).run_bind _).trans ?_
  rw [hdesc]
  refine ((Yields.ofExcept viewSync desc _).run_bind _).trans ?_
  refine ((viewSync_byteFed.skip hreserved (by decide)).run_bind _).trans ?_
  exact (viewSync_byteFed.readI32 hword).run_bind _

/-- The row that the fast path refuses, the turn refuses. -/
theorem turn_available_error (f : Nat) {st : S} {desc : DbosTupleDesc}
    (hdesc : E.descriptor st = .ok desc) {b : ReadBuffer} {e : NzError}
    (h : tryReadAvailableDbosRow dec desc b = .error e) (s : Stream) :
    ∃ view, (turn files dec E f st).run viewSync (b.view s) = ⟨.error e, [], view⟩ := by
  unfold tryReadAvailableDbosRow at h
  dsimp only at h
  split at h
  · cases h
  next hfront =>
    rw [not_or, not_not] at hfront
    split at h
    next e' hlength =>
      cases h
      rw [ReadBuffer.view, turn_frame files dec f hdesc (by omega) hfront.2, readRow, hlength]
      exact ⟨_, rfl⟩
    next rowLen hlength =>
      split at h <;> cases h

/-- The row that the fast path finds is the one that the turn reads. -/
theorem turn_available (f : Nat) {st : S} {desc : DbosTupleDesc}
    (hdesc : E.descriptor st = .ok desc) {b : ReadBuffer} {decoded : Decoded V} {frameLen : Nat}
    (h : tryReadAvailableDbosRow dec desc b = .ok (some (decoded, frameLen))) (s : Stream) :
    (turn files dec E f st).run viewSync (b.view s) =
      match E.row st desc decoded with
      | .error e => ⟨.error e, [], (b.advance frameLen).view s⟩
      | .ok (st', none) => ⟨.ok (.next st'), [], (b.advance frameLen).view s⟩
      | .ok (st', some k) => ⟨.ok (.rows k desc st'), [], (b.advance frameLen).view s⟩ := by
  have hframe := tryReadAvailableDbosRow_frame dec h
  unfold tryReadAvailableDbosRow at h
  dsimp only at h
  split at h
  · cases h
  next hfront =>
    rw [not_or, not_not] at hfront
    split at h
    · cases h
    next rowLen hlength =>
      split at h
      · cases h
      next hfits =>
        cases h
        rw [ReadBuffer.slice_length] at hfits hfront
        have hlimit : rowLen ≤ maxProtocolPayload := (validateProtocolLength_eq_ok.mp hlength).2.1
        have hpayload : ((b.slice.drop 13).take rowLen).length = rowLen := by
          rw [List.length_take, List.length_drop, ReadBuffer.slice_length]
          omega
        have hrest : bytesView (b.slice.drop 13) ++ s.items ReadBuffer.retries =
            bytesView ((b.slice.drop 13).take rowLen) ++ (b.advance (13 + rowLen)).view s := by
          rw [ReadBuffer.view, b.advance_slice hframe.2, ← List.append_assoc, ← bytesView_append,
            ← List.drop_drop, List.take_append_drop]
        rw [ReadBuffer.view, turn_frame files dec f hdesc (by rw [ReadBuffer.slice_length]; omega)
          hfront.2, readRow, hlength, hrest]
        refine ((Yields.ofExcept viewSync rowLen _).run_bind _).trans ?_
        refine ((viewSync_byteFed.take hpayload hlimit).run_bind _).trans ?_
        cases hrow : E.row st desc (dec.dbos desc ((b.slice.drop 13).take rowLen)) with
        | error e => rfl
        | ok stored =>
            obtain ⟨st', _ | k⟩ := stored
            · rfl
            · rfl

include hE

/-- The inner loop takes rows off the front that the outer loop would take one by one. -/
theorem availableRows_drainView (k : K) (desc : DbosTupleDesc) (st : S) (b : ReadBuffer)
    (hopen : Open k desc st) (s : Stream) {fuel : Nat} (hfuel : (b.view s).length < fuel) :
    match availableRows dec E k desc st b with
    | (.error e, st', _) => ∃ view, drainView files dec E fuel st (b.view s) = ⟨.error e, st', [], view⟩
    | (.ok (), st', b') => (b'.view s).length ≤ (b.view s).length ∧
        drainView files dec E fuel st (b.view s) = drainView files dec E fuel st' (b'.view s) := by
  obtain ⟨g, rfl⟩ : ∃ g, fuel = g + 1 := ⟨fuel - 1, by omega⟩
  fun_induction availableRows dec E k desc st b with
  | case1 st b e h =>
      obtain ⟨view, hturn⟩ := turn_available_error files dec g (hE.descriptor hopen) h s
      refine ⟨view, ?_⟩
      rw [drainView, hturn]
  | case2 st b h => exact ⟨Nat.le_refl _, rfl⟩
  | case3 st b decoded frameLen h _ e hrow =>
      have hturn := turn_available files dec g (hE.descriptor hopen) h s
      rw [hE.available_error hopen hrow] at hturn
      refine ⟨(b.advance frameLen).view s, ?_⟩
      rw [drainView, hturn]
  | case4 st b decoded frameLen h _ st' hrow ih =>
      obtain ⟨⟨o, hslow⟩, hopen'⟩ := hE.available_ok hopen hrow
      have hturn := turn_available files dec g (hE.descriptor hopen) h s
      rw [hslow] at hturn
      have hframe := tryReadAvailableDbosRow_frame dec h
      have hshorter : ((b.advance frameLen).view s).length + frameLen = (b.view s).length := by
        rw [ReadBuffer.view, ReadBuffer.view, b.advance_slice hframe.2]
        simp only [List.length_append, bytesView, List.length_map, List.length_drop,
          ReadBuffer.slice_length]
        omega
      have hstep : drainView files dec E (g + 1) st (b.view s) =
          drainView files dec E g st' ((b.advance frameLen).view s) := by
        rw [drainView, hturn]
        cases o with
        | none => rfl
        | some k' => rfl
      have hmore := (drainView_settled files dec hE g st' ((b.advance frameLen).view s)
        (by omega) (Nat.le_refl g) (Nat.le_succ g)).2
      rw [hstep, hmore]
      have hrest := ih hopen' (by omega)
      generalize availableRows dec E k desc st' (b.advance frameLen) = out at hrest ⊢
      obtain ⟨e | _, st'', b'⟩ := out
      · exact hrest
      · exact ⟨by omega, hrest.2⟩

/-! ## Invariants of a drain -/

/-- `Inv` survives what an engine does with a message, with a row and at the end. -/
structure Engine.Keeps (E : Engine V S R K) (Inv : S → Prop) : Prop where
  framed : ∀ {st}, Inv st → ∀ code, Returns Inv (E.framed st code)
  row : ∀ {st st' desc payload o}, Inv st → E.descriptor st = .ok desc →
    E.row st desc (dec.dbos desc payload) = .ok (st', o) → Inv st'
  finish : ∀ {st}, Inv st → Inv (E.finish st).1

/-- What a turn leaves to the loop: the invariant, and an open set in front of the inner loop. -/
def Turn.Leaves (Inv : S → Prop) (Open : K → DbosTupleDesc → S → Prop) : Turn S R K → Prop
  | .next st => Inv st
  | .rows k desc st => Inv st ∧ Open k desc st
  | .done st _ => Inv st

theorem turn_leaves {Inv : S → Prop} (hK : E.Keeps dec Inv) (f : Nat) {st : S} (hst : Inv st) :
    Returns (Turn.Leaves Inv Open) (turn files dec E f st) := by
  refine .bind _ fun code => ?_
  split
  · exact .ret hst
  split
  · exact .bind _ fun _ => .ret hst
  split
  · unfold rowTurn
    refine .bind _ fun _ => ?_
    cases hdesc : E.descriptor st with
    | error e => exact .fail e
    | ok desc =>
        unfold readRow
        refine .bind (skip 4) fun _ => .bind _ fun len => .bind _ fun len => .bind _ fun payload => ?_
        cases hrow : E.row st desc (dec.dbos desc payload) with
        | error e => exact .fail e
        | ok stored =>
            have hkept := hK.row hst hdesc hrow
            obtain ⟨stored, _ | k⟩ := stored
            · exact .ret hkept
            · exact .ret ⟨hkept, hE.row_open hdesc hrow⟩
  · refine .bind _ fun _ => ?_
    split
    · exact .ret (hK.finish hst)
    split
    · exact .ret hst
    · exact .seq (hK.framed hst code) fun st' hst' => .ret hst'

omit hE in
theorem tryReadAvailableDbosRow_decoded {desc : DbosTupleDesc} {b : ReadBuffer} {decoded : Decoded V}
    {frameLen : Nat} (h : tryReadAvailableDbosRow dec desc b = .ok (some (decoded, frameLen))) :
    ∃ payload, decoded = dec.dbos desc payload := by
  unfold tryReadAvailableDbosRow at h
  dsimp only at h
  split at h
  · cases h
  split at h
  · cases h
  split at h
  · cases h
  cases h
  exact ⟨_, rfl⟩

theorem availableRows_keeps {Inv : S → Prop} (hK : E.Keeps dec Inv) (k : K) (desc : DbosTupleDesc)
    (st : S) (b : ReadBuffer) (hopen : Open k desc st) (hst : Inv st) :
    Inv (availableRows dec E k desc st b).2.1 := by
  fun_induction availableRows dec E k desc st b with
  | case1 st b e h => exact hst
  | case2 st b h => exact hst
  | case3 st b decoded frameLen h _ e hrow => exact hst
  | case4 st b decoded frameLen h _ st' hrow ih =>
      obtain ⟨⟨o, hslow⟩, hopen'⟩ := hE.available_ok hopen hrow
      obtain ⟨payload, rfl⟩ := tryReadAvailableDbosRow_decoded dec h
      exact ih hopen' (hK.row hst (hE.descriptor hopen) hslow)

/-- What every message keeps holds of the state in which a drain ends. -/
theorem drainBuffered_keeps {Inv : S → Prop} (hK : E.Keeps dec Inv) (fuel : Nat) (st : S)
    (session : ReadBuffer × Stream) (hst : Inv st) :
    Inv (drainBuffered files dec E fuel st session).state := by
  induction fuel generalizing st session with
  | zero => exact hst
  | succ fuel ih =>
      have hleaves : ∀ t, ((turn files dec E fuel st).run Handshake.syncReader.port session).outcome =
          .ok t → Turn.Leaves Inv Open t :=
        fun t => (turn_leaves files dec hE hK fuel hst).outcome
      unfold drainBuffered
      dsimp only
      generalize (turn files dec E fuel st).run Handshake.syncReader.port session = r at hleaves ⊢
      obtain ⟨out, sent, b, s⟩ := r
      cases out with
      | error e => exact hst
      | unfinished => exact hst
      | ok t =>
          cases t with
          | done st' result => exact hleaves _ rfl
          | next st' => exact ih st' (b, s) (hleaves _ rfl)
          | rows k desc st' =>
              obtain ⟨hst', hopen⟩ := hleaves _ rfl
              have hrows := availableRows_keeps dec hE hK k desc st' b hopen hst'
              dsimp only
              generalize availableRows dec E k desc st' b = out at hrows ⊢
              obtain ⟨e | _, st'', b'⟩ := out
              · exact hrows
              · exact ih st'' (b', s) hrows

theorem drainResponseWithSink_keeps {Inv : S → Prop} (hK : E.Keeps dec Inv) (fuel : Nat) {st : S}
    (session : ReadBuffer × Stream) (hst : Inv st) :
    Inv (drainResponseWithSink files dec E fuel st session).state :=
  drainBuffered_keeps files dec hE hK fuel st session hst

/-- The inner loop is entered behind a row that has been stored. -/
theorem turn_rows_open (f : Nat) (st : S) (view : View) {k : K} {desc : DbosTupleDesc} {st' : S}
    (h : ((turn files dec E f st).run viewSync view).outcome = .ok (.rows k desc st')) :
    Open k desc st' := by
  have hK : E.Keeps dec fun _ => True :=
    { framed := fun _ _ => Returns.top _
      row := fun _ _ _ => trivial
      finish := fun _ => trivial }
  exact ((turn_leaves files dec hE hK f trivial).outcome h).2

/-- Two drains end alike: with the same result, state and writes, and with the same bytes unread if
they succeed. -/
structure Alike {σ : Type} (unread : σ → View) (e : Ending S R σ) (e' : Ending S R View) : Prop where
  outcome : e.outcome = e'.outcome
  state : e.state = e'.state
  sent : e.sent = e'.sent
  session : ∀ r, e.outcome = .ok r → unread e.session = e'.session

def sessionView (session : ReadBuffer × Stream) : View :=
  session.1.view session.2

omit hE in
theorem Alike.after {σ : Type} {unread : σ → View} {e : Ending S R σ} {e' : Ending S R View}
    (h : Alike unread e e') (sent : Bytes) : Alike unread (e.after sent) (e'.after sent) where
  outcome := h.outcome
  state := h.state
  sent := congrArg (sent ++ ·) h.sent
  session := h.session

/-- The drain of a session is the drain of what it shows. -/
theorem drainBuffered_drainView (fuel : Nat) (st : S) (session : ReadBuffer × Stream)
    (hfuel : (sessionView session).length < fuel) :
    Alike sessionView (drainBuffered files dec E fuel st session)
      (drainView files dec E fuel st (sessionView session)) := by
  induction fuel generalizing st session with
  | zero => exact absurd hfuel (Nat.not_lt_zero _)
  | succ fuel ih =>
      obtain ⟨b, s⟩ := session
      have hport : ((turn files dec E fuel st).run Handshake.syncReader.port (b, s)).outcome =
            ((turn files dec E fuel st).run viewSync (b.view s)).outcome ∧
          ((turn files dec E fuel st).run Handshake.syncReader.port (b, s)).sent =
            ((turn files dec E fuel st).run viewSync (b.view s)).sent ∧
          ((turn files dec E fuel st).run viewSync (b.view s)).peer =
            sessionView ((turn files dec E fuel st).run Handshake.syncReader.port (b, s)).peer :=
        Handshake.syncReader_serves.run_port (turn files dec E fuel st) b s
      have hshrinks : ∀ t, ((turn files dec E fuel st).run viewSync (b.view s)).outcome = .ok t →
          ((turn files dec E fuel st).run viewSync (b.view s)).peer.length < (b.view s).length :=
        fun t => turn_shrinks files dec fuel st (b.view s)
      have hrow : ∀ k desc st',
          ((turn files dec E fuel st).run viewSync (b.view s)).outcome = .ok (.rows k desc st') →
          Open k desc st' := fun k desc st' => turn_rows_open files dec hE fuel st (b.view s)
      have hlen : (b.view s).length < fuel + 1 := hfuel
      unfold drainBuffered drainView sessionView
      dsimp only
      generalize (turn files dec E fuel st).run Handshake.syncReader.port (b, s) = r at hport ⊢
      generalize (turn files dec E fuel st).run viewSync (b.view s) = r' at hport hshrinks hrow ⊢
      obtain ⟨out, sent, b', s'⟩ := r
      obtain ⟨out', sent', view⟩ := r'
      obtain ⟨rfl, rfl, rfl⟩ := hport
      cases out with
      | error e => exact ⟨rfl, rfl, rfl, nofun⟩
      | unfinished => exact ⟨rfl, rfl, rfl, nofun⟩
      | ok t =>
          have hlt : (b'.view s').length < (b.view s).length := hshrinks t rfl
          cases t with
          | done st' result => exact ⟨rfl, rfl, rfl, fun _ _ => rfl⟩
          | next st' => exact (ih st' (b', s') (show (b'.view s').length < fuel by omega)).after sent
          | rows k desc st' =>
              have hrows := availableRows_drainView files dec hE k desc st' b' (hrow k desc st' rfl) s'
                (show (b'.view s').length < fuel by omega)
              dsimp only
              generalize availableRows dec E k desc st' b' = out at hrows ⊢
              obtain ⟨e | _, st'', b''⟩ := out
              · obtain ⟨view, hview⟩ := hrows
                show Alike sessionView _ (Ending.after sent (drainView files dec E fuel st' (b'.view s')))
                rw [hview]
                exact ⟨rfl, rfl, (List.append_nil sent).symm, nofun⟩
              · obtain ⟨hle, heq⟩ := hrows
                show Alike sessionView _ (Ending.after sent (drainView files dec E fuel st' (b'.view s')))
                rw [heq]
                exact (ih st'' (b'', s') (show (b''.view s').length < fuel by omega)).after sent

end Loop

/-! ## The two engines -/

section Engines

variable {V : Type} (dec : Decoder V)

theorem SyncState.pushExistingRow_descriptor {st st' : SyncState V} {row : Row V}
    (h : st.pushExistingRow row = .ok st') : st'.descriptor = st.descriptor := by
  unfold SyncState.pushExistingRow at h
  dsimp only at h
  split at h
  · cases h
  split at h
  · cases h
  cases h
  rfl

theorem SyncState.storeDecoded_descriptor {st st' : SyncState V} {columns : List ColumnDesc}
    {decoded : Decoded V} (h : st.storeDecoded columns decoded = .ok st') :
    st'.descriptor = st.descriptor := by
  cases decoded with
  | malformed e => cases h
  | undecodable e =>
      cases h
      rfl
  | row values =>
      have hpush : { st with rowMetadata := some (st.rowMetadata.getD columns) }.pushExistingRow
          ⟨st.rowMetadata.getD columns, values⟩ = .ok st' := h
      have hkept := SyncState.pushExistingRow_descriptor hpush
      exact hkept

theorem total_framedMessage (st : SyncState V) (code : UInt8) :
    Wire.Total (framedMessage dec st code) := by
  unfold framedMessage
  repeat' split
  all_goals
    refine .bind (total_readCounted _) fun _ => ?_
    first
    | exact .ret _
    | exact total_ofExcept _
    | exact .bind (total_ofExcept _) fun _ => .ret _

theorem bufferedEngine_lawful :
    (bufferedEngine dec).Lawful fun _ desc st => st.descriptor = some desc where
  framed_total st code := total_framedMessage dec st code
  row_open {st st' desc decoded k} hdesc hrow := by
    cases hstored : st.storeDecoded (st.dbosColumns desc) decoded with
    | error e =>
        simp only [bufferedEngine, hstored, Except.map] at hrow
        cases hrow
    | ok stored =>
        simp only [bufferedEngine, hstored, Except.map] at hrow
        have hsame : stored = st' := by
          cases decoded <;> cases hrow
          rfl
        rw [← hsame, SyncState.storeDecoded_descriptor hstored]
        cases hd : st.descriptor with
        | none =>
            simp only [bufferedEngine, hd] at hdesc
            cases hdesc
        | some d =>
            simp only [bufferedEngine, hd] at hdesc
            rw [Except.ok.inj hdesc]
  descriptor {k desc st} hopen := by
    simp only [bufferedEngine, hopen]
  available_error {k desc st decoded e} _ h := by
    simp only [bufferedEngine] at h ⊢
    rw [h]
    rfl
  available_ok {k desc st st' decoded} hopen h := by
    simp only [bufferedEngine] at h ⊢
    rw [h]
    refine ⟨?_, (SyncState.storeDecoded_descriptor h).trans hopen⟩
    cases decoded with
    | row values => exact ⟨_, rfl⟩
    | undecodable e => exact ⟨_, rfl⟩
    | malformed e => exact ⟨_, rfl⟩

variable (sink : Sink V)

/-- A state in which the inner loop goes on. -/
def StreamOpen (index : Nat) (desc : DbosTupleDesc) (st : StreamState V) : Prop :=
  st.descriptor = some desc ∧ st.currentIndex = some index

variable {index : Nat} {desc : DbosTupleDesc} {st : StreamState V}

theorem StreamOpen.call (h : StreamOpen index desc st) (cb : Callback V) :
    StreamOpen index desc (st.call sink cb).1 := by
  unfold StreamState.call
  dsimp only
  split
  · exact h
  · exact h

theorem StreamOpen.emitStreamColumns (h : StreamOpen index desc st) (i : Nat) :
    StreamOpen index desc (st.emitStreamColumns sink i).1 := by
  unfold StreamState.emitStreamColumns
  split
  · exact h
  split
  · exact h
  · exact h.call sink _

theorem StreamOpen.emitStreamRow (h : StreamOpen index desc st) (i : Nat) (values : List V) :
    StreamOpen index desc (st.emitStreamRow sink i values).1 := by
  have hcolumns := h.emitStreamColumns sink i
  unfold StreamState.emitStreamRow
  dsimp only
  split
  · exact hcolumns.call sink _
  · exact hcolumns

theorem StreamOpen.cancelIfSinkAborted {r : StreamState V × Bool} (h : StreamOpen index desc r.1) :
    StreamOpen index desc (StreamState.cancelIfSinkAborted r) := by
  unfold StreamState.cancelIfSinkAborted
  split
  · exact h
  · exact h

theorem total_streamFramed (st : StreamState V) (code : UInt8) :
    Wire.Total (streamFramed dec sink st code) := by
  unfold streamFramed
  repeat' split
  all_goals
    refine .bind (total_readCounted _) fun _ => ?_
    first
    | exact .ret _
    | exact total_ofExcept _
    | exact .bind (total_ofExcept _) fun _ => .ret _

theorem ensureStreamResultSet_open (hdesc : st.descriptor = some desc) (columns : List ColumnDesc)
    (nullability : Option (List Bool)) :
    StreamOpen (st.ensureStreamResultSet columns nullability).2 desc
      (st.ensureStreamResultSet columns nullability).1 := by
  unfold StreamState.ensureStreamResultSet
  split
  next hindex => exact ⟨hdesc, hindex⟩
  · exact ⟨hdesc, rfl⟩

theorem streamEngine_lawful : (streamEngine dec sink).Lawful StreamOpen where
  framed_total st code := total_streamFramed dec sink st code
  row_open {st st' desc decoded k} hdesc hrow := by
    have hd : st.descriptor = some desc := by
      cases hd : st.descriptor with
      | none =>
          simp only [streamEngine, hd] at hdesc
          cases hdesc
      | some d =>
          simp only [streamEngine, hd] at hdesc
          rw [Except.ok.inj hdesc]
    cases decoded with
    | malformed e => cases hrow
    | undecodable e => cases hrow
    | row values =>
        cases hrow
        exact ((ensureStreamResultSet_open hd _ _).emitStreamRow sink _ values).cancelIfSinkAborted
  descriptor {k desc st} hopen := by
    simp only [streamEngine, hopen.1]
  available_error {k desc st decoded e} _ h := by
    cases decoded with
    | malformed e' =>
        cases h
        rfl
    | undecodable e' => cases h
    | row values => cases h
  available_ok {k desc st st' decoded} hopen h := by
    cases decoded with
    | malformed e' => cases h
    | undecodable e' =>
        cases h
        exact ⟨⟨none, rfl⟩, hopen⟩
    | row values =>
        cases h
        refine ⟨⟨some k, ?_⟩, (hopen.emitStreamRow sink k values).cancelIfSinkAborted⟩
        have hcurrent : ∀ columns, st.ensureStreamResultSet columns st.nullability = (st, k) := by
          intro columns
          rw [StreamState.ensureStreamResultSet, hopen.2]
        simp only [streamEngine, StreamState.streamRow, hcurrent]

end Engines

/-! ## Two ways to cut a stream -/

theorem ReadBuffer_shrinkIfLarge_slice (b : ReadBuffer) : b.shrinkIfLarge.slice = b.slice := by
  unfold ReadBuffer.shrinkIfLarge
  split
  · rfl
  split
  · rfl
  · exact b.rebuild_slice _ _

/-- A socket whose reads find the given chunks, and then its end. -/
def chunked (chunks : List Bytes) : Stream :=
  chunks.map .data

theorem chunked_items (retries : IoErrorKind → Bool) (chunks : List Bytes)
    (h : ∀ c ∈ chunks, c ≠ []) : (chunked chunks).items retries = bytesView chunks.flatten := by
  induction chunks with
  | nil => rfl
  | cons chunk chunks ih =>
      have hrest := ih fun c hc => h c (.tail _ hc)
      have hitems : (chunked (chunk :: chunks)).items retries =
          bytesView chunk ++ (chunked chunks).items retries :=
        Stream.items_data (h chunk (.head _)) _
      rw [hitems, hrest, List.flatten_cons, bytesView_append]

section Fragments

variable {V S R K : Type} (files : ExternalFiles) (dec : Decoder V) (E : Engine V S R K)

/-- The drain of a byte string, one frame at a time. -/
def drainFrames (fuel : Nat) (st : S) (bytes : Bytes) : Ending S R View :=
  let e := drainView files dec E fuel st (bytesView bytes)
  ⟨e.outcome.mapError drainError, e.state, e.sent, e.session⟩

variable {E} {Open : K → DbosTupleDesc → S → Prop} (hE : E.Lawful Open)

include hE

theorem drainResponseWithSink_drainFrames (fuel : Nat) (st : S) (b : ReadBuffer)
    {chunks : List Bytes} (hchunks : ∀ c ∈ chunks, c ≠ [])
    (hfuel : (b.slice ++ chunks.flatten).length < fuel) :
    Alike sessionView (drainResponseWithSink files dec E fuel st (b, chunked chunks))
      (drainFrames files dec E fuel st (b.slice ++ chunks.flatten)) := by
  have hview : sessionView (b, chunked chunks) = bytesView (b.slice ++ chunks.flatten) := by
    show bytesView b.slice ++ (chunked chunks).items ReadBuffer.retries = _
    rw [chunked_items _ _ hchunks, bytesView_append]
  have halike := drainBuffered_drainView files dec hE fuel st (b, chunked chunks) (by
    rw [hview, bytesView, List.length_map]
    exact hfuel)
  rw [hview] at halike
  obtain ⟨hout, hstate, hsent, hsession⟩ := halike
  refine ⟨?_, hstate, hsent, ?_⟩
  · show Outcome.mapError _ _ = Outcome.mapError _ _
    rw [hout]
  · intro r hr
    have hok : (drainBuffered files dec E fuel st (b, chunked chunks)).outcome = .ok r := by
      change Outcome.mapError _ _ = _ at hr
      cases hcase : (drainBuffered files dec E fuel st (b, chunked chunks)).outcome with
      | ok r' =>
          rw [hcase] at hr
          exact hr
      | error e =>
          rw [hcase] at hr
          cases hr
      | unfinished =>
          rw [hcase] at hr
          cases hr
    have hshrunk : sessionView (drainResponseWithSink files dec E fuel st (b, chunked chunks)).session =
        sessionView (drainBuffered files dec E fuel st (b, chunked chunks)).session := by
      show bytesView (ReadBuffer.shrinkIfLarge _).slice ++ _ = bytesView _ ++ _
      rw [ReadBuffer_shrinkIfLarge_slice]
      rfl
    exact hshrunk.trans (hsession r hok)

theorem drainFrames_finishes (fuel : Nat) (st : S) {bytes : Bytes} (hfuel : bytes.length < fuel) :
    (drainFrames files dec E fuel st bytes).outcome ≠ .unfinished := by
  have hview : (bytesView bytes).length < fuel := by
    rw [bytesView, List.length_map]
    exact hfuel
  have hdone := (drainView_settled files dec hE fuel st _ hview (Nat.le_refl fuel) (Nat.le_refl fuel)).1
  unfold drainFrames
  dsimp only
  cases hout : (drainView files dec E fuel st (bytesView bytes)).outcome with
  | ok r =>
      intro hfalse
      cases hfalse
  | error e =>
      intro hfalse
      cases hfalse
  | unfinished => exact absurd hout hdone

end Fragments

section Claims

variable {V : Type} (files : ExternalFiles) (dec : Decoder V)

/-- What two drains of the same bytes have in common: the result, the state with all calls to the
sink, the writes, and on success the bytes left to read. -/
structure SameDrain {S R : Type} (e e' : Ending S R (ReadBuffer × Stream)) : Prop where
  returned : e.outcome ≠ .unfinished
  outcome : e.outcome = e'.outcome
  state : e.state = e'.state
  sent : e.sent = e'.sent
  unread : ∀ r, e.outcome = .ok r → sessionView e.session = sessionView e'.session

theorem sameDrain_of_lawful {S R K : Type} {E : Engine V S R K} {Open : K → DbosTupleDesc → S → Prop}
    (hE : E.Lawful Open) (st : S) {b b' : ReadBuffer} {chunks chunks' : List Bytes}
    (hchunks : ∀ c ∈ chunks, c ≠ []) (hchunks' : ∀ c ∈ chunks', c ≠ [])
    (hsame : b.slice ++ chunks.flatten = b'.slice ++ chunks'.flatten) {fuel : Nat}
    (hfuel : (b.slice ++ chunks.flatten).length < fuel) :
    SameDrain (drainResponseWithSink files dec E fuel st (b, chunked chunks))
      (drainResponseWithSink files dec E fuel st (b', chunked chunks')) := by
  have hfirst := drainResponseWithSink_drainFrames files dec hE fuel st b hchunks hfuel
  have hsecond := drainResponseWithSink_drainFrames files dec hE fuel st b' hchunks'
    (by rw [← hsame]; exact hfuel)
  rw [← hsame] at hsecond
  refine ⟨?_, ?_, ?_, ?_, ?_⟩
  · rw [hfirst.outcome]
    exact drainFrames_finishes files dec hE fuel st hfuel
  · rw [hfirst.outcome, hsecond.outcome]
  · rw [hfirst.state, hsecond.state]
  · rw [hfirst.sent, hsecond.sent]
  · intro r hr
    have hr' := hsecond.outcome.trans (hfirst.outcome.symm.trans hr)
    exact (hfirst.session r hr).trans (hsecond.session r hr').symm

/-- However the bytes of a response are cut into reads, the drain ends in the same way, with and
without a sink; and so does a drain that takes every row frame by itself. -/
theorem drain_of_same_bytes (b b' : ReadBuffer) (chunks chunks' : List Bytes)
    (hchunks : ∀ c ∈ chunks, c ≠ []) (hchunks' : ∀ c ∈ chunks', c ≠ [])
    (hsame : b.slice ++ chunks.flatten = b'.slice ++ chunks'.flatten) (fuel : Nat)
    (hfuel : (b.slice ++ chunks.flatten).length < fuel) :
    (SameDrain (drainResponseWithSink files dec (bufferedEngine dec) fuel {} (b, chunked chunks))
        (drainResponseWithSink files dec (bufferedEngine dec) fuel {} (b', chunked chunks')) ∧
      Alike sessionView
        (drainResponseWithSink files dec (bufferedEngine dec) fuel {} (b, chunked chunks))
        (drainFrames files dec (bufferedEngine dec) fuel {} (b.slice ++ chunks.flatten))) ∧
    ∀ sink : Sink V,
      SameDrain (drainResponseWithSink files dec (streamEngine dec sink) fuel {} (b, chunked chunks))
          (drainResponseWithSink files dec (streamEngine dec sink) fuel {} (b', chunked chunks')) ∧
        Alike sessionView
          (drainResponseWithSink files dec (streamEngine dec sink) fuel {} (b, chunked chunks))
          (drainFrames files dec (streamEngine dec sink) fuel {} (b.slice ++ chunks.flatten)) := by
  refine ⟨⟨?_, ?_⟩, ?_⟩
  · exact sameDrain_of_lawful files dec (bufferedEngine_lawful dec) {} hchunks hchunks' hsame hfuel
  · exact drainResponseWithSink_drainFrames files dec (bufferedEngine_lawful dec) fuel {} b hchunks
      hfuel
  · intro sink
    refine ⟨?_, ?_⟩
    · exact sameDrain_of_lawful files dec (streamEngine_lawful dec sink) {} hchunks hchunks' hsame
        hfuel
    · exact drainResponseWithSink_drainFrames files dec (streamEngine_lawful dec sink) fuel {} b
        hchunks hfuel

end Claims

/-! ## A descriptor and two rows -/

def rowFrame : Bytes :=
  Code.rowStandard :: (zeros 8 ++ (ByteString.toBe 4 6 ++ [0, 0, 42, 0, 0, 0]))

def rowsResponse : Bytes :=
  let descriptor := [1, 0, 0, 0, 1, 0, 6, 6, 1, 3, 4, 4, 2, 0, 0, 0, 4, 0, 0, 0].flatMap
    (ByteString.toBe 4)
  Code.rowDescriptionStandard :: (zeros 4 ++ (ByteString.toBe 4 descriptor.length ++ descriptor)) ++
    rowFrame ++ rowFrame ++ Code.readyForQuery :: zeros 4

set_option maxRecDepth 2000 in
theorem rowsResponse_length : rowsResponse.length < 200 := by
  decide

theorem rowsResponse_cut : rowsResponse.take 115 ≠ [] ∧ rowsResponse.drop 115 ≠ [] := by
  decide

/-- Cut inside the second row, or not at all. -/
theorem rowsResponse_drains :
    SameDrain
      (drainResponseWithSink noFiles shapeDecoder (streamEngine shapeDecoder fun _ => .ok ()) 200 {}
        (ReadBuffer.new, chunked [rowsResponse]))
      (drainResponseWithSink noFiles shapeDecoder (streamEngine shapeDecoder fun _ => .ok ()) 200 {}
        (ReadBuffer.new, chunked [rowsResponse.take 115, rowsResponse.drop 115])) :=
  ((drain_of_same_bytes noFiles shapeDecoder ReadBuffer.new ReadBuffer.new [rowsResponse]
    [rowsResponse.take 115, rowsResponse.drop 115]
    (by
      intro c hc
      rw [List.mem_singleton.mp hc]
      decide)
    (by
      intro c hc
      rcases List.mem_cons.mp hc with rfl | hc
      · exact rowsResponse_cut.1
      · rw [List.mem_singleton.mp hc]
        exact rowsResponse_cut.2)
    (by simp [List.take_append_drop]) 200
    (by
      have hnew : ReadBuffer.new.slice = [] := rfl
      rw [hnew, List.nil_append, List.flatten_singleton]
      exact rowsResponse_length)).2 fun _ => .ok ()).1

end NzRust.Response
