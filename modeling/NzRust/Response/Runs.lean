import NzRust.Response.Fragmentation

/-!
# Runs of an engine

Two engines whose states correspond at every message have corresponding drains,
whatever the reads of the socket are; and a drain that succeeds has consumed the
bytes up to the end of a ReadyForQuery message, and no others.
-/

namespace NzRust.Response

open Wire
open Handshake (Step)

/-! ## Engines that correspond -/

section Maps

variable {V S R S' R' K : Type}

/-- On the states that meet `Inv`, which every message keeps, `f` takes what one engine does to what
the other does, and `g` takes its end to the other's. -/
structure Engine.Maps (E : Engine V S R K) (E' : Engine V S' R' K) (Inv : S → Prop) (f : S → S')
    (g : S × R → S' × R') : Prop where
  descriptor : ∀ {st}, Inv st → E'.descriptor (f st) = E.descriptor st
  row : ∀ {st}, Inv st → ∀ desc decoded, E'.row (f st) desc decoded =
    (E.row st desc decoded).map fun stored => (f stored.1, stored.2)
  available : ∀ {st}, Inv st → ∀ k desc decoded, E'.available k (f st) desc decoded =
    (E.available k st desc decoded).map f
  framed : ∀ {st}, Inv st → ∀ code, E'.framed (f st) code =
    (E.framed st code).bind fun st' => .ret (f st')
  finish : ∀ {st}, Inv st → E'.finish (f st) = g (E.finish st)
  row_keeps : ∀ {st st' desc decoded o}, Inv st → E.row st desc decoded = .ok (st', o) → Inv st'
  available_keeps : ∀ {st st' k desc decoded}, Inv st →
    E.available k st desc decoded = .ok st' → Inv st'
  framed_keeps : ∀ {st}, Inv st → ∀ code, Returns Inv (E.framed st code)
  finish_keeps : ∀ {st}, Inv st → Inv (E.finish st).1

def Turn.image (f : S → S') (g : S × R → S' × R') : Turn S R K → Turn S' R' K
  | .next st => .next (f st)
  | .rows k desc st => .rows k desc (f st)
  | .done st result => .done (g (st, result)).1 (g (st, result)).2

def Ending.image {σ : Type} (f : S → S') (g : S × R → S' × R') (e : Ending S R σ) :
    Ending S' R' σ :=
  match e.outcome with
  | .ok r => ⟨.ok (g (e.state, r)).2, (g (e.state, r)).1, e.sent, e.session⟩
  | .error x => ⟨.error x, f e.state, e.sent, e.session⟩
  | .unfinished => ⟨.unfinished, f e.state, e.sent, e.session⟩

theorem Ending.image_after {σ : Type} (f : S → S') (g : S × R → S' × R') (e : Ending S R σ)
    (sent : Bytes) : (e.after sent).image f g = (e.image f g).after sent := by
  obtain ⟨out, st, sent', session⟩ := e
  cases out with
  | ok r => rfl
  | error x => rfl
  | unfinished => rfl

theorem availableRows_eq (dec : Decoder V) (E : Engine V S R K) (k : K) (desc : DbosTupleDesc)
    (st : S) (b : ReadBuffer) :
    availableRows dec E k desc st b =
      match tryReadAvailableDbosRow dec desc b with
      | .error e => (.error e, st, b)
      | .ok none => (.ok (), st, b)
      | .ok (some (decoded, frameLen)) =>
          match E.available k st desc decoded with
          | .error e => (.error e, st, b)
          | .ok st' => availableRows dec E k desc st' (b.advance frameLen) := by
  rw [availableRows]
  split
  next h => simp only [h]
  next h => simp only [h]
  next decoded frameLen h =>
    cases havailable : E.available k st desc decoded with
    | error e => simp only [h, havailable]
    | ok st' => simp only [h, havailable]

namespace Engine.Maps

variable {E : Engine V S R K} {E' : Engine V S' R' K} {Inv : S → Prop} {f : S → S'}
  {g : S × R → S' × R'} (hmaps : E.Maps E' Inv f g) (files : ExternalFiles) (dec : Decoder V)

include hmaps

theorem rowTurn {st : S} (hst : Inv st) :
    Response.rowTurn dec E' (f st) =
      (Response.rowTurn dec E st).bind fun t => .ret (t.image f g) := by
  unfold Response.rowTurn
  simp only [bind, Prog.bind_assoc, hmaps.descriptor hst]
  congr 1
  funext _
  congr 1
  funext desc
  congr 1
  funext _
  congr 1
  funext len
  unfold readRow
  simp only [bind, Prog.bind_assoc, hmaps.row hst]
  congr 1
  funext len
  congr 1
  funext payload
  cases E.row st desc (dec.dbos desc payload) with
  | error e => rfl
  | ok stored =>
      obtain ⟨stored, _ | k⟩ := stored
      · rfl
      · rfl

theorem turn (n : Nat) {st : S} (hst : Inv st) :
    Response.turn files dec E' n (f st) =
      (Response.turn files dec E n st).bind fun t => .ret (t.image f g) := by
  unfold Response.turn
  simp only [bind, Prog.bind_assoc]
  congr 1
  funext code
  split
  · rfl
  split
  · rw [Prog.bind_assoc]
    rfl
  split
  · exact hmaps.rowTurn dec hst
  · rw [Prog.bind_assoc]
    congr 1
    funext _
    split
    · rw [hmaps.finish hst]
      rfl
    split
    · rfl
    · rw [hmaps.framed hst, Prog.bind_assoc, Prog.bind_assoc]
      rfl

theorem turn_keeps (n : Nat) {st : S} (hst : Inv st) :
    Returns (Turn.Leaves Inv fun _ _ _ => True) (Response.turn files dec E n st) := by
  refine .bind _ fun code => ?_
  split
  · exact .ret hst
  split
  · exact .bind _ fun _ => .ret hst
  split
  · unfold Response.rowTurn
    refine .bind _ fun _ => .bind _ fun desc => ?_
    unfold readRow
    refine .bind (skip 4) fun _ => .bind _ fun len => .bind _ fun len => .bind _ fun payload => ?_
    cases hrow : E.row st desc (dec.dbos desc payload) with
    | error e => exact .fail e
    | ok stored =>
        have hkept := hmaps.row_keeps hst hrow
        obtain ⟨stored, _ | k⟩ := stored
        · exact .ret hkept
        · exact .ret ⟨hkept, trivial⟩
  · refine .bind _ fun _ => ?_
    split
    · exact .ret (hmaps.finish_keeps hst)
    split
    · exact .ret hst
    · exact .seq (hmaps.framed_keeps hst code) fun st' hst' => .ret hst'

theorem availableRows (k : K) (desc : DbosTupleDesc) (st : S) (b : ReadBuffer) (hst : Inv st) :
    let out := Response.availableRows dec E k desc st b
    Inv out.2.1 ∧ Response.availableRows dec E' k desc (f st) b = (out.1, f out.2.1, out.2.2) := by
  fun_induction Response.availableRows dec E k desc st b with
  | case1 st b e h =>
      rw [availableRows_eq, h]
      exact ⟨hst, rfl⟩
  | case2 st b h =>
      rw [availableRows_eq, h]
      exact ⟨hst, rfl⟩
  | case3 st b decoded frameLen h _ e hrow =>
      rw [availableRows_eq, h]
      simp only [hmaps.available hst, hrow, Except.map]
      exact ⟨hst, trivial⟩
  | case4 st b decoded frameLen h _ st' hrow ih =>
      rw [availableRows_eq dec E' k desc (f st), h]
      simp only [hmaps.available hst, hrow, Except.map]
      exact ih (hmaps.available_keeps hst hrow)

/-- Engines that correspond have drains that correspond. -/
theorem drainBuffered (fuel : Nat) {st : S} (hst : Inv st) (session : ReadBuffer × Stream) :
    Inv (Response.drainBuffered files dec E fuel st session).state ∧
      Response.drainBuffered files dec E' fuel (f st) session =
        (Response.drainBuffered files dec E fuel st session).image f g := by
  induction fuel generalizing st session with
  | zero => exact ⟨hst, rfl⟩
  | succ fuel ih =>
      have hkeeps : ∀ t, ((Response.turn files dec E fuel st).run Handshake.syncReader.port
          session).outcome = .ok t → Turn.Leaves Inv (fun _ _ _ => True) t :=
        fun t => (hmaps.turn_keeps files dec fuel hst).outcome
      unfold Response.drainBuffered
      dsimp only
      rw [hmaps.turn files dec fuel hst, run_bind]
      generalize (Response.turn files dec E fuel st).run Handshake.syncReader.port session = r
        at hkeeps ⊢
      obtain ⟨out, sent, b, s⟩ := r
      cases out with
      | error e => exact ⟨hst, rfl⟩
      | unfinished => exact ⟨hst, rfl⟩
      | ok t =>
          simp only [Prog.run, List.append_nil]
          cases t with
          | done st' result => exact ⟨hkeeps _ rfl, rfl⟩
          | next st' =>
              obtain ⟨hkept, heq⟩ := ih (hkeeps _ rfl) (b, s)
              simp only [Turn.image]
              rw [heq, Ending.image_after]
              exact ⟨hkept, rfl⟩
          | rows k desc st' =>
              obtain ⟨hst'', hrows⟩ := hmaps.availableRows dec k desc st' b (hkeeps _ rfl).1
              simp only [Turn.image]
              rw [hrows]
              generalize Response.availableRows dec E k desc st' b = out at hst'' ⊢
              obtain ⟨e | _, st'', b'⟩ := out
              · exact ⟨hst'', rfl⟩
              · obtain ⟨hkept, heq⟩ := ih hst'' (b', s)
                dsimp only
                rw [heq, Ending.image_after]
                exact ⟨hkept, rfl⟩

theorem drainResponseWithSink (fuel : Nat) {st : S} (hst : Inv st)
    (session : ReadBuffer × Stream) :
    Inv (Response.drainResponseWithSink files dec E fuel st session).state ∧
      Response.drainResponseWithSink files dec E' fuel (f st) session =
        (Response.drainResponseWithSink files dec E fuel st session).image f g := by
  obtain ⟨hkept, heq⟩ := hmaps.drainBuffered files dec fuel hst session
  refine ⟨hkept, ?_⟩
  unfold Response.drainResponseWithSink
  dsimp only
  rw [heq]
  unfold Ending.image
  dsimp only
  cases (Response.drainBuffered files dec E fuel st session).outcome with
  | ok r => rfl
  | error e => rfl
  | unfinished => rfl

end Engine.Maps

end Maps

/-! ## What a drain consumes -/

section Strict

theorem strict_readI32 : Strict readI32 :=
  .bind (.take 4) fun _ => .ret _

theorem strict_skip (n : Nat) : Strict (skip n) :=
  .bind (.ofExcept _) fun _ => .bind (.take n) fun _ => .ret _

theorem strict_readLen (field : String) : Strict (readLen field) :=
  .bind strict_readI32 fun _ => .ofExcept _

theorem strict_readCounted (field : String) : Strict (readCounted field) :=
  .bind (strict_readLen field) fun len => .take len

theorem strict_readName (tooLong : NzError) (room : Nat) (name : Bytes) :
    Strict (readName tooLong room name) := by
  induction room generalizing name with
  | zero => exact .fail tooLong
  | succ room ih =>
      refine .bind (.take 1) fun b => ?_
      split
      · exact .ret name
      split
      · exact .fail tooLong
      · exact ih _

theorem strict_sendChunks (chunks : List Bytes) : Strict (sendChunks chunks) := by
  induction chunks with
  | nil => exact .ret ()
  | cons chunk chunks ih => exact .bind (.send _) fun _ => .bind (.send _) fun _ => ih

theorem strict_consumeExportStream (fuel : Nat) : Strict (consumeExportStream fuel) := by
  induction fuel with
  | zero => exact .unfinished
  | succ fuel ih =>
      refine .bind strict_readI32 fun status => ?_
      split
      · exact .bind (strict_readCounted _) fun _ => ih
      split
      · exact .bind (.take 2) fun len => .bind (.take _) fun _ => .ret ()
      · exact .ret ()

theorem strict_logChunks (fuel : Nat) : Strict (logChunks fuel) := by
  induction fuel with
  | zero => exact .unfinished
  | succ fuel ih =>
      refine .bind (strict_readLen _) fun len => ?_
      split
      · exact .ret ()
      · exact .bind (.take _) fun _ => ih

theorem strict_handleExportStart (files : ExternalFiles) : Strict (handleExportStart files) := by
  refine .bind (strict_skip 4) fun _ => .bind (strict_skip 10) fun _ => .bind (strict_skip 16) fun _ =>
    .bind (strict_readLen _) fun len => ?_
  split
  · exact .fail _
  · refine .bind (.take _) fun name => .bind (.ofExcept _) fun filename => ?_
    split
    · exact .send _
    · exact .send _

theorem strict_handleImport (files : ExternalFiles) : Strict (handleImport files) := by
  refine .bind (strict_skip 8) fun _ => .bind (strict_readName _ _ _) fun nameBytes =>
    .bind (.ofExcept _) fun filename => .bind strict_readI32 fun _ => .bind (.send _) fun _ =>
    .bind strict_readI32 fun _ => .bind strict_readI32 fun size => .bind (.ofExcept _) fun size => ?_
  split
  next chunks clean _ =>
    refine .bind (strict_sendChunks chunks) fun _ => ?_
    split
    · exact .send _
    · exact .send _
  · exact .send _

theorem strict_handleExtLog (fuel : Nat) : Strict (handleExtLog fuel) := by
  refine .bind (strict_skip 4) fun _ => .bind (strict_readLen _) fun len => ?_
  split
  · exact .fail _
  · exact .bind (.take _) fun dir => .bind (.take _) fun _ => .bind (.ofExcept _) fun _ =>
      .bind (strict_readName _ _ _) fun nameBytes => .bind (.ofExcept _) fun _ =>
      .bind strict_readI32 fun _ => strict_logChunks fuel

theorem strict_handleExternal (files : ExternalFiles) (fuel : Nat) (code : UInt8) :
    Strict (handleExternal files fuel code) := by
  unfold handleExternal
  split
  · exact strict_handleExportStart files
  split
  · exact .bind (strict_skip 4) fun _ => .bind (strict_skip 4) fun _ =>
      strict_consumeExportStream fuel
  split
  · exact strict_handleImport files
  split
  · exact strict_skip 4
  · exact strict_handleExtLog fuel

end Strict

section Consumes

variable {V S R K : Type} (files : ExternalFiles) (dec : Decoder V) (E : Engine V S R K)

theorem strict_rowTurn (st : S) : Strict (rowTurn dec E st) := by
  refine .bind (strict_skip 4) fun _ => .bind (.ofExcept _) fun desc => .bind (strict_skip 4) fun _ =>
    .bind strict_readI32 fun len => .bind (.ofExcept _) fun len => .bind (.take _) fun payload =>
    .bind (.ofExcept _) fun stored => ?_
  obtain ⟨st', _ | k⟩ := stored
  · exact .ret _
  · exact .ret _

/-- The bytes between two views of a session. -/
def Consumed (view rest : View) (bytes : Bytes) : Prop :=
  view = bytesView bytes ++ rest

/-- A ReadyForQuery message. -/
def IsReadyFrame (bytes : Bytes) : Prop :=
  ∃ code header, bytes = code :: header ∧ Code.isReady code = true ∧ header.length = 4

theorem Consumed.trans {view mid rest : View} {first second : Bytes}
    (h : Consumed view mid first) (h' : Consumed mid rest second) :
    Consumed view rest (first ++ second) := by
  rw [Consumed, bytesView_append, List.append_assoc, ← h']
  exact h

theorem viewRead_consumed {closed : String} {n : Nat} {view rest : View} {bytes : Bytes}
    (h : viewRead closed n view = (.ok bytes, rest)) :
    Consumed view rest bytes ∧ bytes.length = n := by
  fun_induction viewRead closed n view generalizing bytes rest with
  | case1 view =>
      cases h
      exact ⟨rfl, rfl⟩
  | case2 n => cases h
  | case3 n kind rest => cases h
  | case4 n b items bytes' rest' hrest ih =>
      cases h
      obtain ⟨hconsumed, hlen⟩ := ih hrest
      exact ⟨congrArg (Item.byte b :: ·) hconsumed, congrArg (· + 1) hlen⟩
  | case5 n b items e rest' hrest ih => cases h

theorem viewSync_read_consumed {n : Nat} {view : View} {bytes : Bytes}
    (h : (viewSync.read n view).1 = .ok bytes) :
    Consumed view (viewSync.read n view).2 bytes ∧ bytes.length = n := by
  unfold viewSync Handshake.viewPeer at *
  dsimp only at *
  split at h
  · cases h
  · exact viewRead_consumed (Prod.ext h rfl)

theorem strict_consumes {α : Type} {prog : Step α} (h : Strict prog) {view : View} {a : α}
    (hout : (prog.run viewSync view).outcome = .ok a) :
    ∃ bytes, Consumed view (prog.run viewSync view).peer bytes := by
  refine h.run_keeps (I := fun rest => ∃ bytes, Consumed view rest bytes) ?_ ⟨[], rfl⟩ hout
  rintro n rest bytes ⟨before, hbefore⟩ hread
  exact ⟨before ++ bytes, hbefore.trans (viewSync_read_consumed hread).1⟩

/-- A read of `n` bytes, and what follows it. -/
theorem take_consumes {α : Type} {n : Nat} {k : Bytes → Step α} {view : View} {a : α}
    (hout : ((Prog.bind (Prog.take n) k).run viewSync view).outcome = .ok a) :
    ∃ bytes rest, Consumed view rest bytes ∧ bytes.length = n ∧
      (Prog.bind (Prog.take n) k).run viewSync view = (k bytes).run viewSync rest := by
  simp only [Prog.take, Prog.bind, Prog.run] at hout ⊢
  cases hread : (viewSync.read n view).1 with
  | error e =>
      rw [hread] at hout
      cases hout
  | ok bytes =>
      obtain ⟨hconsumed, hlen⟩ := viewSync_read_consumed hread
      exact ⟨bytes, _, hconsumed, hlen, rfl⟩

/-- A turn behind its code. -/
def turnBody (n : Nat) (st : S) (code : UInt8) : Step (Turn S R K) :=
  if code = 0 then return .next st
  else if Code.isExternal code then do
    handleExternal files n code
    return .next st
  else if code = Code.rowStandard then rowTurn dec E st
  else do
    skipFrameHeader
    if Code.isReady code then return .done (E.finish st).1 (E.finish st).2
    else if Code.isControl code then return .next st
    else
      let st ← E.framed st code
      return .next st

theorem turn_eq (n : Nat) (st : S) :
    turn files dec E n st =
      (Prog.take 1).bind fun bytes => turnBody files dec E n st (bytes.headD 0) :=
  Prog.bind_assoc _ _ _

variable {E}

theorem strict_turnBody (hframed : ∀ st code, Strict (E.framed st code)) (n : Nat) (st : S)
    (code : UInt8) : Strict (turnBody files dec E n st code) := by
  unfold turnBody
  split
  · exact .ret _
  split
  · exact .bind (strict_handleExternal files n code) fun _ => .ret _
  split
  · exact strict_rowTurn dec E st
  refine .bind (strict_skip 4) fun _ => ?_
  split
  · exact .ret _
  split
  · exact .ret _
  · exact .bind (hframed st code) fun _ => .ret _

/-- A turn after which the drain goes on. -/
def Turn.GoesOn (t : Turn S R K) : Prop :=
  ∀ st r, t ≠ .done st r

theorem Turn.next_goesOn (st : S) : (Turn.next st : Turn S R K).GoesOn := by
  intro st' r h
  cases h

theorem Turn.rows_goesOn (k : K) (desc : DbosTupleDesc) (st : S) :
    (Turn.rows k desc st : Turn S R K).GoesOn := by
  intro st' r h
  cases h

theorem rowTurn_goesOn (st : S) : Returns Turn.GoesOn (rowTurn dec E st) := by
  refine .bind _ fun _ => .bind _ fun desc => ?_
  unfold readRow
  refine .bind (skip 4) fun _ => .bind _ fun len => .bind _ fun len => .bind _ fun payload =>
    .bind _ fun stored => ?_
  obtain ⟨st', _ | k⟩ := stored
  · exact .ret (Turn.next_goesOn st')
  · exact .ret (Turn.rows_goesOn k desc st')

theorem skipFrameHeader_eq : skipFrameHeader = (Prog.take 4).bind fun _ => .ret () :=
  rfl

/-- Only ReadyForQuery ends the drain. -/
theorem turnBody_done {n : Nat} {st : S} {code : UInt8} {view : View} {st' : S} {r : R}
    (hout : ((turnBody files dec E n st code).run viewSync view).outcome = .ok (.done st' r)) :
    Code.isReady code = true ∧
      ∃ header, Consumed view ((turnBody files dec E n st code).run viewSync view).peer header ∧
        header.length = 4 := by
  have hgoes {p : Step (Turn S R K)} (hp : Returns Turn.GoesOn p)
      (hrun : (p.run viewSync view).outcome = .ok (.done st' r)) : False :=
    hp.outcome hrun st' r rfl
  unfold turnBody at hout ⊢
  by_cases hzero : code = 0
  · rw [if_pos hzero] at hout
    cases hout
  by_cases hexternal : Code.isExternal code = true
  · rw [if_neg hzero, if_pos hexternal] at hout
    exact (hgoes (.bind _ fun _ => .ret (Turn.next_goesOn st)) hout).elim
  by_cases hrow : code = Code.rowStandard
  · rw [if_neg hzero, if_neg hexternal, if_pos hrow] at hout
    exact (hgoes (rowTurn_goesOn dec st) hout).elim
  rw [if_neg hzero, if_neg hexternal, if_neg hrow] at hout ⊢
  by_cases hready : Code.isReady code = true
  · rw [if_pos hready] at hout ⊢
    have hskip : (skipFrameHeader >>= fun _ => pure (.done (E.finish st).1 (E.finish st).2)) =
        (Prog.take 4).bind fun _ =>
          (Prog.ret (.done (E.finish st).1 (E.finish st).2) : Step (Turn S R K)) := by
      rw [skipFrameHeader_eq]
      exact Prog.bind_assoc _ _ _
    rw [hskip] at hout ⊢
    obtain ⟨header, rest, hconsumed, hlen, hrun⟩ := take_consumes hout
    refine ⟨hready, header, ?_, hlen⟩
    rw [hrun]
    exact hconsumed
  · rw [if_neg hready] at hout
    refine (hgoes (.bind _ fun _ => ?_) hout).elim
    split
    · exact .ret (Turn.next_goesOn st)
    · exact .bind _ fun st' => .ret (Turn.next_goesOn st')

/-- What a turn that succeeds has consumed; at the end of the drain, a ReadyForQuery message. -/
theorem turn_consumes (hframed : ∀ st code, Strict (E.framed st code)) (n : Nat) (st : S)
    (view : View) {t : Turn S R K}
    (hout : ((turn files dec E n st).run viewSync view).outcome = .ok t) :
    ∃ bytes, Consumed view ((turn files dec E n st).run viewSync view).peer bytes ∧
      ∀ st' r, t = .done st' r → IsReadyFrame bytes := by
  rw [turn_eq] at hout ⊢
  obtain ⟨code, rest, hcode, hlen, hrun⟩ := take_consumes hout
  rw [hrun] at hout ⊢
  obtain ⟨b, rfl⟩ := List.length_eq_one_iff.mp hlen
  cases t with
  | next st' =>
      obtain ⟨bytes, hbytes⟩ := strict_consumes (strict_turnBody files dec hframed n st b) hout
      exact ⟨[b] ++ bytes, hcode.trans hbytes, fun _ _ h => absurd h (Turn.next_goesOn st' _ _)⟩
  | rows k desc st' =>
      obtain ⟨bytes, hbytes⟩ := strict_consumes (strict_turnBody files dec hframed n st b) hout
      exact ⟨[b] ++ bytes, hcode.trans hbytes,
        fun _ _ h => absurd h (Turn.rows_goesOn k desc st' _ _)⟩
  | done st' r =>
      obtain ⟨hready, header, hheader, hfour⟩ := turnBody_done files dec hout
      exact ⟨[b] ++ header, hcode.trans hheader, fun _ _ _ => ⟨b, header, rfl, hready, hfour⟩⟩

theorem availableRows_consumes (k : K) (desc : DbosTupleDesc) (st : S) (b : ReadBuffer)
    (s : Stream) :
    ∃ bytes, Consumed (b.view s) ((availableRows dec E k desc st b).2.2.view s) bytes := by
  fun_induction availableRows dec E k desc st b with
  | case1 st b e h => exact ⟨[], rfl⟩
  | case2 st b h => exact ⟨[], rfl⟩
  | case3 st b decoded frameLen h _ e hrow => exact ⟨[], rfl⟩
  | case4 st b decoded frameLen h _ st' hrow ih =>
      obtain ⟨bytes, hbytes⟩ := ih
      have hframe := tryReadAvailableDbosRow_frame dec h
      have hfirst : Consumed (b.view s) ((b.advance frameLen).view s) (b.slice.take frameLen) := by
        rw [Consumed, ReadBuffer.view, ReadBuffer.view, b.advance_slice hframe.2,
          ← List.append_assoc, ← bytesView_append, List.take_append_drop]
      exact ⟨_, hfirst.trans hbytes⟩

/-- A drain that succeeds has consumed the bytes up to the end of ReadyForQuery. -/
theorem drainBuffered_consumes (hframed : ∀ st code, Strict (E.framed st code)) (fuel : Nat)
    (st : S) (session : ReadBuffer × Stream) {r : R}
    (hout : (drainBuffered files dec E fuel st session).outcome = .ok r) :
    ∃ bytes ready, IsReadyFrame ready ∧
      Consumed (sessionView session)
        (sessionView (drainBuffered files dec E fuel st session).session) (bytes ++ ready) := by
  induction fuel generalizing st session with
  | zero => cases hout
  | succ fuel ih =>
      obtain ⟨b, s⟩ := session
      have hport : ((turn files dec E fuel st).run Handshake.syncReader.port (b, s)).outcome =
            ((turn files dec E fuel st).run viewSync (b.view s)).outcome ∧
          ((turn files dec E fuel st).run Handshake.syncReader.port (b, s)).sent =
            ((turn files dec E fuel st).run viewSync (b.view s)).sent ∧
          ((turn files dec E fuel st).run viewSync (b.view s)).peer =
            sessionView ((turn files dec E fuel st).run Handshake.syncReader.port (b, s)).peer :=
        Handshake.syncReader_serves.run_port (turn files dec E fuel st) b s
      have hturn : ∀ t, ((turn files dec E fuel st).run viewSync (b.view s)).outcome = .ok t → _ :=
        fun t => turn_consumes files dec hframed fuel st (b.view s)
      unfold drainBuffered at hout ⊢
      dsimp only at hout ⊢
      generalize (turn files dec E fuel st).run Handshake.syncReader.port (b, s) = run
        at hport hout ⊢
      generalize (turn files dec E fuel st).run viewSync (b.view s) = run' at hport hturn
      obtain ⟨out, sent, b', s'⟩ := run
      obtain ⟨out', sent', view⟩ := run'
      obtain ⟨rfl, -, rfl⟩ := hport
      cases out with
      | error e => cases hout
      | unfinished => cases hout
      | ok t =>
          obtain ⟨bytes, hbytes, hready⟩ := hturn t rfl
          cases t with
          | done st' result => exact ⟨[], bytes, hready st' result rfl, hbytes⟩
          | next st' =>
              obtain ⟨more, ready, hframe, hmore⟩ := ih st' (b', s') hout
              refine ⟨bytes ++ more, ready, hframe, ?_⟩
              rw [List.append_assoc]
              exact hbytes.trans hmore
          | rows k desc st' =>
              obtain ⟨rows, hrows⟩ := availableRows_consumes (E := E) dec k desc st' b' s'
              dsimp only at hout ⊢
              generalize availableRows dec E k desc st' b' = out at hrows hout ⊢
              obtain ⟨e | _, st'', b''⟩ := out
              · cases hout
              · obtain ⟨more, ready, hframe, hmore⟩ := ih st'' (b'', s') hout
                refine ⟨bytes ++ (rows ++ more), ready, hframe, ?_⟩
                rw [List.append_assoc, List.append_assoc]
                exact hbytes.trans (hrows.trans hmore)

theorem drainResponseWithSink_outcome (fuel : Nat) (st : S) (session : ReadBuffer × Stream) :
    (drainResponseWithSink files dec E fuel st session).outcome =
      (drainBuffered files dec E fuel st session).outcome.mapError drainError :=
  rfl

theorem drainResponseWithSink_state (fuel : Nat) (st : S) (session : ReadBuffer × Stream) :
    (drainResponseWithSink files dec E fuel st session).state =
      (drainBuffered files dec E fuel st session).state :=
  rfl

/-- Giving back a large buffer reads nothing. -/
theorem sessionView_shrinkIfLarge (b : ReadBuffer) (s : Stream) :
    sessionView (b.shrinkIfLarge, s) = sessionView (b, s) := by
  show bytesView b.shrinkIfLarge.slice ++ _ = bytesView b.slice ++ _
  rw [ReadBuffer_shrinkIfLarge_slice]

theorem drainResponseWithSink_consumes (hframed : ∀ st code, Strict (E.framed st code)) (fuel : Nat)
    (st : S) (session : ReadBuffer × Stream) {r : R}
    (hout : (drainResponseWithSink files dec E fuel st session).outcome = .ok r) :
    ∃ bytes ready, IsReadyFrame ready ∧
      Consumed (sessionView session)
        (sessionView (drainResponseWithSink files dec E fuel st session).session)
        (bytes ++ ready) := by
  have hok : (drainBuffered files dec E fuel st session).outcome = .ok r := by
    rw [drainResponseWithSink_outcome] at hout
    cases hcase : (drainBuffered files dec E fuel st session).outcome with
    | ok r' =>
        rw [hcase] at hout
        exact hout
    | error e =>
        rw [hcase] at hout
        cases hout
    | unfinished =>
        rw [hcase] at hout
        cases hout
  obtain ⟨bytes, ready, hready, hconsumed⟩ :=
    drainBuffered_consumes files dec hframed fuel st session hok
  refine ⟨bytes, ready, hready, ?_⟩
  show Consumed _ (sessionView (ReadBuffer.shrinkIfLarge _, _)) _
  rw [sessionView_shrinkIfLarge]
  exact hconsumed

end Consumes

end NzRust.Response
