import Mathlib.Algebra.Order.BigOperators.Group.List
import NzRust.Response.Abort
import NzRust.Response.Retention

/-!
# Affected rows

Each CommandComplete of a response may carry a count. A drain adds the counts
that are not negative in a variable of 64 bits; this module compares the
variable with their exact sum, over whole responses.
-/

namespace NzRust.Response

open Wire
open Handshake (Step)

/-! ## The counts of a response -/

/-- The counts of the CommandComplete payloads of a response. -/
def counts (payloads : List Bytes) : List Int :=
  payloads.map fun data => parseCommandCompleteRows (fromUtf8Lossy data)

/-- The counts that are not negative. -/
def carried (payloads : List Bytes) : List Int :=
  (counts payloads).filter (0 ≤ ·)

/-- `-1`, or the sum of the counts that the response carries. -/
def exactTotal (payloads : List Bytes) : Int :=
  if carried payloads = [] then -1 else (carried payloads).sum

/-- `rows_affected` behind these payloads. -/
def runningTotal (payloads : List Bytes) : Int :=
  (counts payloads).foldl addRows (-1)

/-- The sums that the loop forms, before they wrap. -/
def additions : Int → List Int → List Int
  | _, [] => []
  | rowsAffected, n :: ns =>
      if 0 ≤ n ∧ 0 ≤ rowsAffected then (rowsAffected + n) :: additions (addRows rowsAffected n) ns
      else additions (addRows rowsAffected n) ns

theorem addRows_negative {n : Int} (h : n < 0) (rowsAffected : Int) :
    addRows rowsAffected n = rowsAffected := by
  rw [addRows, if_pos h]

theorem addRows_first {n rowsAffected : Int} (h : 0 ≤ n) (hrows : rowsAffected < 0) :
    addRows rowsAffected n = n := by
  rw [addRows, if_neg (Int.not_lt.mpr h), if_pos hrows]

theorem addRows_fits {n rowsAffected : Int} (h : 0 ≤ n) (hrows : 0 ≤ rowsAffected)
    (hfits : rowsAffected + n < 2 ^ 63) : addRows rowsAffected n = rowsAffected + n := by
  have hmod : ((rowsAffected + n) % 2 ^ 64).toNat = (rowsAffected + n).toNat := by
    rw [Int.emod_eq_of_lt (by omega) (by omega)]
  rw [addRows, if_neg (Int.not_lt.mpr h), if_neg (Int.not_lt.mpr hrows), hmod, ByteString.signed,
    if_pos (by omega)]
  omega

/-- From a total that is a sum already, the loop adds what is left exactly. -/
theorem additions_from {ns : List Int} {rowsAffected : Int} (hrows : 0 ≤ rowsAffected)
    (hfits : rowsAffected + (ns.filter (0 ≤ ·)).sum < 2 ^ 63) :
    ns.foldl addRows rowsAffected = rowsAffected + (ns.filter (0 ≤ ·)).sum ∧
      ∀ s ∈ additions rowsAffected ns, s < 2 ^ 63 := by
  induction ns generalizing rowsAffected with
  | nil => exact ⟨(Int.add_zero _).symm, by simp [additions]⟩
  | cons n ns ih =>
      have hrest : 0 ≤ (ns.filter (0 ≤ ·)).sum := by
        refine List.sum_nonneg fun m hm => ?_
        simpa using (List.mem_filter.mp hm).2
      by_cases hn : 0 ≤ n
      · rw [List.filter_cons_of_pos (by simpa using hn), List.sum_cons] at hfits ⊢
        obtain ⟨htotal, hsums⟩ := ih (show 0 ≤ rowsAffected + n by omega) (by omega)
        rw [List.foldl_cons, additions, if_pos ⟨hn, hrows⟩, addRows_fits hn hrows (by omega)]
        refine ⟨by rw [htotal, Int.add_assoc], ?_⟩
        intro s hs
        rcases List.mem_cons.mp hs with rfl | hs
        · omega
        · exact hsums s hs
      · rw [List.filter_cons_of_neg (by simpa using hn)] at hfits ⊢
        rw [List.foldl_cons, additions, if_neg fun h => hn h.1, addRows_negative (by omega)]
        exact ih hrows hfits

/-- Before the first count the total is `-1`. -/
theorem additions_exact {ns : List Int} (hfits : (ns.filter (0 ≤ ·)).sum < 2 ^ 63) :
    ns.foldl addRows (-1) = (if ns.filter (0 ≤ ·) = [] then -1 else (ns.filter (0 ≤ ·)).sum) ∧
      ∀ s ∈ additions (-1) ns, s < 2 ^ 63 := by
  induction ns with
  | nil => exact ⟨rfl, by simp [additions]⟩
  | cons n ns ih =>
      by_cases hn : 0 ≤ n
      · rw [List.filter_cons_of_pos (by simpa using hn), List.sum_cons] at hfits ⊢
        obtain ⟨htotal, hsums⟩ := additions_from hn hfits
        rw [if_neg (List.cons_ne_nil _ _), List.foldl_cons, additions, if_neg (by omega),
          addRows_first hn (by omega)]
        exact ⟨htotal, hsums⟩
      · rw [List.filter_cons_of_neg (by simpa using hn)] at hfits ⊢
        rw [List.foldl_cons, additions, if_neg fun h : 0 ≤ n ∧ 0 ≤ (-1 : Int) => hn h.1,
          addRows_negative (by omega)]
        exact ih hfits

/-- The total of these payloads, formed without an overflow. -/
structure ExactTotal (payloads : List Bytes) (rowsAffected : Int) : Prop where
  total : rowsAffected = exactTotal payloads
  fits : ∀ s ∈ additions (-1) (counts payloads), s < 2 ^ 63

theorem runningTotal_exact {payloads : List Bytes} (hfits : (carried payloads).sum < 2 ^ 63) :
    ExactTotal payloads (runningTotal payloads) :=
  ⟨(additions_exact hfits).1, (additions_exact hfits).2⟩

theorem runningTotal_snoc (payloads : List Bytes) (data : Bytes) :
    runningTotal (payloads ++ [data]) =
      addRows (runningTotal payloads) (parseCommandCompleteRows (fromUtf8Lossy data)) := by
  rw [runningTotal, counts, List.map_append, List.foldl_append]
  rfl

/-! ## A drain with the payloads it has read -/

section Recorded

variable {V S R K : Type} (E : Engine V S R K) (complete : S → Bytes → S)

/-- The engine that keeps the CommandComplete payloads it has read. -/
def recording : Engine V (S × List Bytes) R K where
  descriptor st := E.descriptor st.1
  row st desc decoded :=
    (E.row st.1 desc decoded).map fun stored => ((stored.1, st.2), stored.2)
  available k st desc decoded := (E.available k st.1 desc decoded).map fun st' => (st', st.2)
  framed st code :=
    if code = Code.commandComplete then do
      let data ← readCounted "commandCompletePayload"
      return (complete st.1 data, st.2 ++ [data])
    else do
      let st' ← E.framed st.1 code
      return (st', st.2)
  finish st := (((E.finish st.1).1, st.2), (E.finish st.1).2)

/-- `complete` is what the engine does with a CommandComplete, and nothing else moves `total`. -/
structure Engine.Totals (total : S → Int) : Prop where
  completes : ∀ st, E.framed st Code.commandComplete =
    (readCounted "commandCompletePayload").bind fun data => .ret (complete st data)
  adds : ∀ st data, total (complete st data) =
    addRows (total st) (parseCommandCompleteRows (fromUtf8Lossy data))
  framed : ∀ st code, code ≠ Code.commandComplete →
    Returns (fun st' => total st' = total st) (E.framed st code)
  row : ∀ {st st' desc decoded o}, E.row st desc decoded = .ok (st', o) → total st' = total st
  available : ∀ {k st st' desc decoded}, E.available k st desc decoded = .ok st' →
    total st' = total st
  finish : ∀ st, total (E.finish st).1 = total st

variable {E complete} {total : S → Int}

theorem recording_lawful {Open : K → DbosTupleDesc → S → Prop} (hE : E.Lawful Open)
    (hcomplete : Wire.Total (readCounted "commandCompletePayload")) :
    (recording E complete).Lawful fun k desc st => Open k desc st.1 where
  framed_total st code := by
    simp only [recording]
    by_cases hcode : code = Code.commandComplete
    · rw [if_pos hcode]
      exact hcomplete.bind fun _ => .ret _
    · rw [if_neg hcode]
      exact (hE.framed_total st.1 code).bind fun _ => .ret _
  row_open {st st' desc decoded k} hdesc hrow := by
    cases hplain : E.row st.1 desc decoded with
    | error e =>
        simp only [recording, hplain, Except.map] at hrow
        cases hrow
    | ok stored =>
        simp only [recording, hplain, Except.map] at hrow
        obtain ⟨stored, o⟩ := stored
        cases hrow
        exact hE.row_open hdesc hplain
  descriptor hopen := hE.descriptor hopen
  available_error {k desc st decoded e} hopen h := by
    cases hplain : E.available k st.1 desc decoded with
    | error e' =>
        simp only [recording, hplain, Except.map] at h
        cases h
        simp only [recording, hE.available_error hopen hplain, Except.map]
    | ok st' =>
        simp only [recording, hplain, Except.map] at h
        cases h
  available_ok {k desc st st' decoded} hopen h := by
    cases hplain : E.available k st.1 desc decoded with
    | error e =>
        simp only [recording, hplain, Except.map] at h
        cases h
    | ok stored =>
        obtain ⟨⟨o, hrow⟩, hopen'⟩ := hE.available_ok hopen hplain
        simp only [recording, hplain, Except.map] at h
        cases h
        refine ⟨⟨o, ?_⟩, hopen'⟩
        simp only [recording, hrow, Except.map]

/-- The payloads change nothing, and the total is always theirs. -/
theorem Engine.Totals.erases (h : E.Totals complete total) :
    (recording E complete).Maps E (fun st => total st.1 = runningTotal st.2) Prod.fst
      fun p => (p.1.1, p.2) where
  descriptor _ := rfl
  row {st} _ desc decoded := by
    simp only [recording]
    cases E.row st.1 desc decoded with
    | error e => rfl
    | ok stored => rfl
  available {st} _ k desc decoded := by
    simp only [recording]
    cases E.available k st.1 desc decoded with
    | error e => rfl
    | ok st' => rfl
  framed {st} _ code := by
    simp only [recording]
    by_cases hcode : code = Code.commandComplete
    · rw [if_pos hcode, hcode, h.completes]
      show _ = ((readCounted "commandCompletePayload").bind _).bind _
      rw [Prog.bind_assoc]
      rfl
    · rw [if_neg hcode]
      show _ = ((E.framed st.1 code).bind _).bind _
      rw [Prog.bind_assoc]
      exact (Prog.bind_ret _).symm
  finish _ := rfl
  row_keeps {st st' desc decoded o} hst hrow := by
    cases hplain : E.row st.1 desc decoded with
    | error e =>
        simp only [recording, hplain, Except.map] at hrow
        cases hrow
    | ok stored =>
        simp only [recording, hplain, Except.map] at hrow
        cases hrow
        exact (h.row hplain).trans hst
  available_keeps {st st' k desc decoded} hst havailable := by
    cases hplain : E.available k st.1 desc decoded with
    | error e =>
        simp only [recording, hplain, Except.map] at havailable
        cases havailable
    | ok stored =>
        simp only [recording, hplain, Except.map] at havailable
        cases havailable
        exact (h.available hplain).trans hst
  framed_keeps {st} hst code := by
    simp only [recording]
    by_cases hcode : code = Code.commandComplete
    · rw [if_pos hcode]
      refine .bind _ fun data => .ret ?_
      rw [runningTotal_snoc, h.adds, hst]
    · rw [if_neg hcode]
      exact .seq (h.framed st.1 code hcode) fun st' hst' => .ret (hst'.trans hst)
  finish_keeps {st} hst := (h.finish st.1).trans hst

variable (files : ExternalFiles) (dec : Decoder V) (E complete)

/-- The CommandComplete payloads that a drain reads. -/
def completions (fuel : Nat) (st : S) (session : ReadBuffer × Stream) : List Bytes :=
  (drainResponseWithSink files dec (recording E complete) fuel (st, []) session).state.2

variable {E complete}

/-- The total in which a drain ends is that of the payloads it has read. -/
theorem Engine.Totals.drain (h : E.Totals complete total) (fuel : Nat) (st : S)
    (hst : total st = -1) (session : ReadBuffer × Stream) :
    total (drainResponseWithSink files dec E fuel st session).state =
      runningTotal (completions E complete files dec fuel st session) := by
  have hinit : (fun st : S × List Bytes => total st.1 = runningTotal st.2) (st, []) := hst
  obtain ⟨hkept, herase⟩ := h.erases.drainResponseWithSink files dec fuel hinit session
  have hplain : (drainResponseWithSink files dec E fuel st session).state =
      (drainResponseWithSink files dec (recording E complete) fuel (st, []) session).state.1 := by
    have hstate := congrArg Ending.state herase
    unfold Ending.image at hstate
    revert hstate
    cases (drainResponseWithSink files dec (recording E complete) fuel (st, [])
      session).outcome <;> exact id
  rw [hplain]
  exact hkept

/-- A drain ends well by finishing. -/
def Turn.Finished (E : Engine V S R K) : Turn S R K → Prop
  | .done st r => ∃ st', E.finish st' = (st, r)
  | _ => True

theorem turn_finished (fuel : Nat) (st : S) :
    Returns (Turn.Finished E) (turn files dec E fuel st) := by
  refine .bind _ fun code => ?_
  split
  · exact .ret trivial
  split
  · exact .bind _ fun _ => .ret trivial
  split
  · refine .bind _ fun _ => .bind _ fun desc => .bind _ fun _ => .bind _ fun len => ?_
    unfold readRow
    refine .bind _ fun _ => .bind _ fun payload => .bind _ fun stored => ?_
    obtain ⟨st', _ | k⟩ := stored
    · exact .ret trivial
    · exact .ret trivial
  · refine .bind _ fun _ => ?_
    split
    · exact .ret ⟨st, rfl⟩
    split
    · exact .ret trivial
    · exact .bind _ fun st' => .ret trivial

theorem drainBuffered_finished (fuel : Nat) (st : S) (session : ReadBuffer × Stream) {r : R}
    (h : (drainBuffered files dec E fuel st session).outcome = .ok r) :
    ∃ st', E.finish st' = ((drainBuffered files dec E fuel st session).state, r) := by
  induction fuel generalizing st session with
  | zero => cases h
  | succ fuel ih =>
      have hfinished : ∀ t, ((turn files dec E fuel st).run Handshake.syncReader.port
          session).outcome = .ok t → Turn.Finished E t :=
        fun t => (turn_finished files dec fuel st).outcome
      unfold drainBuffered at h ⊢
      dsimp only at h ⊢
      generalize (turn files dec E fuel st).run Handshake.syncReader.port session = out at h hfinished ⊢
      obtain ⟨out, sent, b, s⟩ := out
      cases out with
      | error e => cases h
      | unfinished => cases h
      | ok t =>
          cases t with
          | done st' result =>
              cases h
              exact hfinished _ rfl
          | next st' => exact ih st' (b, s) h
          | rows k desc st' =>
              dsimp only at h ⊢
              generalize availableRows dec E k desc st' b = rows at h ⊢
              obtain ⟨e | _, st'', b'⟩ := rows
              · cases h
              · exact ih st'' (b', s) h

theorem drainResponseWithSink_finished (fuel : Nat) (st : S) (session : ReadBuffer × Stream) {r : R}
    (h : (drainResponseWithSink files dec E fuel st session).outcome = .ok r) :
    ∃ st', E.finish st' = ((drainResponseWithSink files dec E fuel st session).state, r) := by
  refine drainBuffered_finished files dec fuel st session ?_
  rw [drainResponseWithSink_outcome] at h
  revert h
  cases (drainBuffered files dec E fuel st session).outcome with
  | ok r' => exact id
  | error e => exact fun h => by cases h
  | unfinished => exact fun h => by cases h

end Recorded

/-! ## The two drains of the synchronous engine -/

section Sync

variable {V : Type} (dec : Decoder V)

/-- What a drain without a sink does with a CommandComplete. -/
def SyncState.completeCommand (st : SyncState V) (data : Bytes) : SyncState V :=
  { (st.addCount data).flushCurrent with rowMetadata := none }

theorem SyncState.storeDecoded_rowsAffected {st st' : SyncState V} {columns : List ColumnDesc}
    {decoded : Decoded V} (h : st.storeDecoded columns decoded = .ok st') :
    st'.rowsAffected = st.rowsAffected := by
  cases decoded with
  | malformed e => cases h
  | undecodable e =>
      cases h
      rfl
  | row values =>
      unfold SyncState.storeDecoded SyncState.pushExistingRow at h
      dsimp only at h
      split at h
      · cases h
      split at h
      · cases h
      cases h
      rfl

theorem framedMessage_rowsAffected (st : SyncState V) {code : UInt8}
    (hcode : code ≠ Code.commandComplete) :
    Returns (fun st' => st'.rowsAffected = st.rowsAffected) (framedMessage dec st code) := by
  unfold framedMessage
  rw [if_neg hcode]
  split
  · exact .bind _ fun _ => .ret rfl
  split
  · exact .bind _ fun _ => .ret rfl
  split
  · exact .bind _ fun _ => .ret rfl
  split
  · refine .bind _ fun data => .ret ?_
    unfold SyncState.addNotice
    dsimp only
    split
    · rfl
    · rfl
  split
  · exact .bind _ fun data => .bind _ fun columns => .ret rfl
  split
  · refine .bind _ fun data => ?_
    cases hrow : dataRow dec st data with
    | error e => exact .fail e
    | ok st' =>
        refine .ret ?_
        unfold dataRow at hrow
        split at hrow
        · cases hrow
        · exact SyncState.storeDecoded_rowsAffected hrow
  split
  · exact .bind _ fun data => .bind _ fun desc => .ret rfl
  · exact .bind _ fun _ => .ret rfl

theorem bufferedEngine_totals :
    (bufferedEngine dec).Totals SyncState.completeCommand SyncState.rowsAffected where
  completes _ := rfl
  adds _ _ := rfl
  framed st code hcode := framedMessage_rowsAffected dec st hcode
  row {st st' desc decoded o} h := by
    cases hstored : st.storeDecoded (st.dbosColumns desc) decoded with
    | error e =>
        simp only [bufferedEngine, hstored, Except.map] at h
        cases h
    | ok stored =>
        have hsame : stored = st' := by
          simp only [bufferedEngine, hstored, Except.map] at h
          cases decoded <;> cases h <;> rfl
        exact hsame ▸ SyncState.storeDecoded_rowsAffected hstored
  available h := SyncState.storeDecoded_rowsAffected h
  finish _ := rfl

namespace StreamState

variable (sink : Sink V)

@[simp] theorem call_rowsAffected (st : StreamState V) (cb : Callback V) :
    (st.call sink cb).1.rowsAffected = st.rowsAffected := by
  unfold call
  dsimp only
  split <;> rfl

@[simp] theorem cancelIfSinkAborted_rowsAffected (r : StreamState V × Bool) :
    (cancelIfSinkAborted r).rowsAffected = r.1.rowsAffected := by
  unfold cancelIfSinkAborted
  split <;> rfl

@[simp] theorem ensureStreamResultSet_rowsAffected (st : StreamState V) (columns : List ColumnDesc)
    (nullability : Option (List Bool)) :
    (st.ensureStreamResultSet columns nullability).1.rowsAffected = st.rowsAffected := by
  unfold ensureStreamResultSet
  split <;> rfl

@[simp] theorem emitStreamColumns_rowsAffected (st : StreamState V) (index : Nat) :
    (st.emitStreamColumns sink index).1.rowsAffected = st.rowsAffected := by
  unfold emitStreamColumns
  split
  · rfl
  split
  · rfl
  · exact call_rowsAffected sink st _

@[simp] theorem emitStreamRow_rowsAffected (st : StreamState V) (index : Nat) (values : List V) :
    (st.emitStreamRow sink index values).1.rowsAffected = st.rowsAffected := by
  unfold emitStreamRow
  dsimp only
  split <;> simp

@[simp] theorem finishStreamResultSet_rowsAffected (st : StreamState V) :
    (st.finishStreamResultSet sink).1.rowsAffected = st.rowsAffected := by
  unfold finishStreamResultSet
  split
  · rfl
  · exact emitStreamColumns_rowsAffected sink _ _

@[simp] theorem finish_rowsAffected (st : StreamState V) :
    (st.finish sink).1.rowsAffected = st.rowsAffected := by
  have hclosed := finishStreamResultSet_rowsAffected sink st
  unfold finish
  dsimp only
  split
  · exact hclosed
  split
  · exact hclosed
  split
  · exact hclosed
  · exact hclosed

theorem streamRow_rowsAffected {st st' : StreamState V} {columns : List ColumnDesc}
    {decoded : Decoded V} {o : Option Nat} (h : st.streamRow sink columns decoded = .ok (st', o)) :
    st'.rowsAffected = st.rowsAffected := by
  cases decoded with
  | malformed e => cases h
  | undecodable e =>
      cases h
      rfl
  | row values =>
      cases h
      simp

theorem streamAvailable_rowsAffected {index : Nat} {st st' : StreamState V} {decoded : Decoded V}
    (h : st.streamAvailable sink index decoded = .ok st') : st'.rowsAffected = st.rowsAffected := by
  cases decoded with
  | malformed e => cases h
  | undecodable e =>
      cases h
      rfl
  | row values =>
      cases h
      simp

theorem completeCommand_rowsAffected (st : StreamState V) (data : Bytes) :
    (st.completeCommand sink data).rowsAffected =
      addRows st.rowsAffected (parseCommandCompleteRows (fromUtf8Lossy data)) := by
  unfold completeCommand
  dsimp only
  split <;> simp

end StreamState

variable (sink : Sink V)

theorem streamFramed_rowsAffected (st : StreamState V) {code : UInt8}
    (hcode : code ≠ Code.commandComplete) :
    Returns (fun st' => st'.rowsAffected = st.rowsAffected) (streamFramed dec sink st code) := by
  unfold streamFramed
  rw [if_neg hcode]
  split
  · exact .bind _ fun _ => .ret rfl
  split
  · exact .bind _ fun _ => .ret rfl
  split
  · exact .bind _ fun _ => .ret rfl
  split
  · refine .bind _ fun data => .ret ?_
    unfold StreamState.addNotice
    dsimp only
    split
    · rfl
    split
    · simp
    · rfl
  split
  · refine .bind _ fun data => .bind _ fun columns => .ret ?_
    simp [StreamState.describe]
  split
  · refine .bind _ fun data => ?_
    cases hrow : streamDataRow dec sink st data with
    | error e => exact .fail e
    | ok st' =>
        refine .ret ?_
        unfold streamDataRow at hrow
        split at hrow
        · cases hrow
        next columns _ =>
          cases hstored : st.streamRow sink columns (dec.text columns data) with
          | error e =>
              rw [hstored] at hrow
              cases hrow
          | ok stored =>
              rw [hstored] at hrow
              cases hrow
              exact StreamState.streamRow_rowsAffected sink hstored
  split
  · refine .bind _ fun data => .bind _ fun desc => .ret ?_
    simp [StreamState.describeStandard]
  · exact .bind _ fun _ => .ret rfl

theorem streamEngine_totals :
    (streamEngine dec sink).Totals (fun st data => st.completeCommand sink data)
      StreamState.rowsAffected where
  completes _ := rfl
  adds st data := StreamState.completeCommand_rowsAffected sink st data
  framed st _ hcode := streamFramed_rowsAffected dec sink st hcode
  row h := StreamState.streamRow_rowsAffected sink h
  available h := StreamState.streamAvailable_rowsAffected sink h
  finish st := StreamState.finish_rowsAffected sink st

/-! ## What the caller is told -/

/-- `row_count`. -/
def resultRowCount (q : QueryResult V) : Nat :=
  (q.resultSets.map (·.rows.length)).sum

/-- The end of `run_batch_with_duration`: without a count the drained rows are reported. -/
def batchResult (q : QueryResult V) : QueryResult V :=
  if q.rowsAffected < 0 ∧ 0 < resultRowCount q then
    { q with rowsAffected := ByteString.signed 64 (resultRowCount q % 2 ^ 64) }
  else q

/-- What a batch reports: the total, or the drained rows when there are some and no count. -/
def reportedTotal (rowCount : Nat) (payloads : List Bytes) : Int :=
  if carried payloads = [] ∧ 0 < rowCount then ByteString.signed 64 (rowCount % 2 ^ 64)
  else exactTotal payloads

theorem exactTotal_neg_iff (payloads : List Bytes) :
    exactTotal payloads < 0 ↔ carried payloads = [] := by
  have hsum : 0 ≤ (carried payloads).sum := by
    refine List.sum_nonneg fun n hn => ?_
    simpa using (List.mem_filter.mp hn).2
  unfold exactTotal
  by_cases hnone : carried payloads = []
  · rw [if_pos hnone]
    exact iff_of_true (by decide) hnone
  · rw [if_neg hnone]
    exact iff_of_false (Int.not_lt.mpr hsum) hnone

theorem reportedTotal_eq {payloads : List Bytes} {total : Int} (h : ExactTotal payloads total)
    (rowCount : Nat) :
    (if total < 0 ∧ 0 < rowCount then ByteString.signed 64 (rowCount % 2 ^ 64) else total) =
      reportedTotal rowCount payloads := by
  rw [h.total, reportedTotal]
  simp only [exactTotal_neg_iff]

variable (files : ExternalFiles)

/-- The CommandComplete payloads of a response that is stored, and of one that is streamed. -/
abbrev bufferedCompletions (fuel : Nat) (session : ReadBuffer × Stream) : List Bytes :=
  completions (bufferedEngine dec) SyncState.completeCommand files dec fuel {} session

abbrev streamCompletions (fuel : Nat) (session : ReadBuffer × Stream) : List Bytes :=
  completions (streamEngine dec sink) (fun st data => st.completeCommand sink data) files dec fuel {}
    session

theorem buffered_rowsAffected {fuel : Nat} {session : ReadBuffer × Stream} {d : Drained V}
    {q : QueryResult V}
    (hout : (drainResponseWithSink files dec (bufferedEngine dec) fuel {} session).outcome = .ok d)
    (hresult : d.result = .ok q) :
    q.rowsAffected = runningTotal (bufferedCompletions dec files fuel session) := by
  have htotal := (bufferedEngine_totals dec).drain files dec fuel {} rfl session
  obtain ⟨st, hfinish⟩ := drainResponseWithSink_finished files dec fuel _ session hout
  obtain ⟨hstate, rfl⟩ := Prod.mk.inj hfinish
  rw [bufferedCompletions, ← htotal, ← hstate]
  unfold SyncState.finish at hresult
  dsimp only at hresult
  split at hresult
  · cases hresult
  split at hresult
  · cases hresult
  cases hresult
  rfl

theorem stream_rowsAffected {fuel : Nat} {session : ReadBuffer × Stream} {d : StreamDrained V}
    {q : QueryResult V} {sets : List StreamResultSet} {o : Option NzError}
    (hout : (drainResponseWithSink files dec (streamEngine dec sink) fuel {} session).outcome = .ok d)
    (hresult : d.result = .ok (q, sets, o)) :
    q.rowsAffected = runningTotal (streamCompletions dec sink files fuel session) := by
  have htotal := (streamEngine_totals dec sink).drain files dec fuel {} rfl session
  obtain ⟨st, hfinish⟩ := drainResponseWithSink_finished files dec fuel _ session hout
  have hstate := congrArg Prod.fst hfinish
  have hd := congrArg Prod.snd hfinish
  dsimp only at hstate hd
  have hclosed := StreamState.finishStreamResultSet_rowsAffected sink st
  rw [streamCompletions, ← htotal, ← hstate]
  subst hd
  have hfinal := StreamState.finish_rowsAffected sink st
  refine Eq.trans ?_ hfinal.symm
  simp only [streamEngine, StreamState.finish] at hresult
  split at hresult
  · cases hresult
    exact hclosed
  split at hresult
  · cases hresult
  split at hresult
  · cases hresult
  cases hresult
  exact hclosed

/-- A streamed batch that returns has drained its response without an error of its sink. -/
theorem runBatchStream_drained {fuel : Nat} {c : Connection} {sql : Text} {send : SendOutcome}
    {session : ReadBuffer × Stream} {summary : StreamSummary}
    (h : (runBatchStream files dec sink fuel c sql send session).outcome = .ok summary) :
    ∃ d q sets,
      (drainResponseWithSink files dec (streamEngine dec sink) fuel {} session).outcome = .ok d ∧
        d.result = .ok (q, sets, none) ∧ summary = streamSummary q sets := by
  unfold runBatchStream at h
  split at h
  · cases h
  split at h
  · cases h
  dsimp only at h
  split at h
  · cases h
  unfold afterStream at h
  dsimp only at h
  split at h
  · cases h
  · cases h
  next d hd =>
    split at h
    next q sets e hresult => cases h
    next q sets hresult =>
      cases h
      exact ⟨d, q, sets, hd, hresult, rfl⟩
    next e hresult => cases h

end Sync

/-! ## The native drain -/

section Native

open Response.Inner

variable {N : Numerics} (ops : NumberOps N) (files : ExternalFiles) (sink : Inner.Sink)
  (policy : RowPolicy)

def completionOf : Msg → List Bytes
  | .commandComplete data => [data]
  | _ => []

/-- The CommandComplete payloads that the native drain takes. -/
def nativeCompletions : Nat → DrainState N → Inner.Session → List Bytes
  | 0, _, _ => []
  | fuel + 1, st, session =>
      let received := receive sink policy files fuel st session
      match received.outcome with
      | .unfinished => []
      | .error _ => []
      | .ok msg =>
          completionOf msg ++
            match (handle ops sink policy st msg).next with
            | .ends _ _ => []
            | .go st' => nativeCompletions fuel st' received.peer

namespace Inner.DrainState

@[simp] theorem emitResultStart_rowsAffected (st : DrainState N) (set : RowSet N) :
    (st.emitResultStart set).2.rowsAffected = st.rowsAffected := by
  unfold emitResultStart
  split <;> rfl

@[simp] theorem deliver_rowsAffected (st : DrainState N) (set : RowSet N) (row : StoredRow N) :
    (st.deliver sink set row).2.rowsAffected = st.rowsAffected := by
  unfold deliver
  cases sink with
  | events => exact emitResultStart_rowsAffected st set
  | batch =>
      dsimp only
      split <;> rfl
  | none => rfl

@[simp] theorem finishResponseSet_rowsAffected (st : DrainState N) :
    (st.finishResponseSet sink).2.rowsAffected = st.rowsAffected := by
  unfold finishResponseSet
  dsimp only
  split
  · rfl
  next set _ =>
    cases sink with
    | events => exact emitResultStart_rowsAffected st set
    | batch => rfl
    | none => rfl

end Inner.DrainState

/-- What a turn of the native drain does to the total. -/
def Adds (total : Int) (msg : Msg) : Next N → Prop
  | .go st => st.rowsAffected =
      (completionOf msg).foldl (fun total data =>
        addRows total (parseCommandCompleteRows (fromUtf8Lossy data))) total
  | .ends (.ok parsed) _ => parsed.rowsAffected = total ∧ completionOf msg = []
  | .ends (.error _) _ => True

theorem handleRow_adds {msg : Msg} (hmsg : completionOf msg = []) (st : DrainState N)
    (set : RowSet N) (built : Checked.Exec NzError (NzError ⊕ StoredRow N)) :
    Adds st.rowsAffected msg (handleRow sink st set built).next := by
  unfold handleRow
  split
  · trivial
  · rw [Adds, hmsg]
    rfl
  · rw [Adds, hmsg]
    exact DrainState.deliver_rowsAffected sink st set _

theorem handle_adds (st : DrainState N) (msg : Msg) :
    Adds st.rowsAffected msg (handle ops sink policy st msg).next := by
  cases msg with
  | nothing => rfl
  | error data => rfl
  | dbosRow desc payload =>
      cases payload with
      | none => rfl
      | some payload => exact handleRow_adds sink rfl _ _ _
  | textRow columns payload =>
      cases payload with
      | none => rfl
      | some payload => exact handleRow_adds sink rfl _ _ _
  | rowDescription data =>
      unfold handle handleRowDescription
      dsimp only
      split
      · trivial
      · exact DrainState.finishResponseSet_rowsAffected sink st
  | rowDescriptionStandard data =>
      unfold handle handleRowDescriptionStandard
      dsimp only
      split
      · trivial
      · rfl
  | commandComplete data =>
      unfold handle handleCommandComplete
      dsimp only
      cases sink with
      | events =>
          dsimp only
          rw [Adds, DrainState.finishResponseSet_rowsAffected]
          split
          · exact DrainState.emitResultStart_rowsAffected _ _
          · rfl
      | batch => exact DrainState.finishResponseSet_rowsAffected _ _
      | none => exact DrainState.finishResponseSet_rowsAffected _ _
  | notice data =>
      unfold handle handleNotice
      dsimp only
      split
      · rfl
      · cases sink <;> rfl
  | ready =>
      have hclosed := DrainState.finishResponseSet_rowsAffected sink st
      unfold handle handleReady
      dsimp only
      split
      · trivial
      split
      · trivial
      split
      · trivial
      · exact ⟨hclosed, rfl⟩

/-- The native drain ends with the total of what it has taken. -/
theorem native_rowsAffected (fuel : Nat) (st : DrainState N) (session : Inner.Session)
    {parsed : ParsedQueryResult N}
    (h : (Inner.drainLoop ops files sink policy fuel st session).outcome = .ok parsed) :
    parsed.rowsAffected =
      (counts (nativeCompletions ops files sink policy fuel st session)).foldl addRows
        st.rowsAffected := by
  induction fuel generalizing st session with
  | zero => cases h
  | succ fuel ih =>
      unfold Inner.drainLoop at h
      unfold nativeCompletions
      dsimp only at h ⊢
      cases hout : (receive sink policy files fuel st session).outcome with
      | unfinished =>
          rw [hout] at h
          cases h
      | error e =>
          rw [hout] at h
          cases h
      | ok msg =>
          rw [hout] at h
          dsimp only at h ⊢
          have hadds := handle_adds ops sink policy st msg
          cases hnext : (handle ops sink policy st msg).next with
          | ends result synced =>
              rw [hnext] at h hadds
              dsimp only at h
              cases result with
              | error e => cases h
              | ok parsed' =>
                  cases h
                  rw [hadds.2]
                  exact hadds.1
          | go st' =>
              rw [hnext] at h hadds
              dsimp only at h
              have hhead : (counts (completionOf msg)).foldl addRows st.rowsAffected =
                  st'.rowsAffected := by
                rw [counts, List.foldl_map]
                exact hadds.symm
              rw [ih st' _ h, ← hhead, ← List.foldl_append]
              exact congrArg (List.foldl addRows st.rowsAffected) List.map_append.symm

end Native

/-! ## Exactness -/

section Exactness

variable {V : Type} {N : Numerics} (files : ExternalFiles) (dec : Decoder V) (sink : Sink V)
  (ops : NumberOps N) (nativeSink : Inner.Sink) (policy : Inner.RowPolicy)

/-- While the counts that are not negative sum to less than `2 ^ 63`, both engines add them exactly
and without an overflow; a batch of the synchronous engine reports the drained rows when there are
some and no count. -/
theorem rows_affected_exact :
    (∀ fuel session d q,
      (drainResponseWithSink files dec (bufferedEngine dec) fuel {} session).outcome = .ok d →
      d.result = .ok q → (carried (bufferedCompletions dec files fuel session)).sum < 2 ^ 63 →
        ExactTotal (bufferedCompletions dec files fuel session) q.rowsAffected ∧
          (batchResult q).rowsAffected =
            reportedTotal (resultRowCount q) (bufferedCompletions dec files fuel session)) ∧
      (∀ fuel c sql send session summary,
        (runBatchStream files dec sink fuel c sql send session).outcome = .ok summary →
        (carried (streamCompletions dec sink files fuel session)).sum < 2 ^ 63 →
          (∃ (q : QueryResult V) (sets : List StreamResultSet), summary = streamSummary q sets ∧
            ExactTotal (streamCompletions dec sink files fuel session) q.rowsAffected) ∧
            summary.rowsAffected = reportedTotal (summary.resultSets.map (·.rowCount)).sum
              (streamCompletions dec sink files fuel session)) ∧
      ∀ fuel transaction session parsed,
        (Inner.drainResponseInner ops files nativeSink policy fuel transaction session).outcome =
          .ok parsed →
        (carried (nativeCompletions ops files nativeSink policy fuel { transaction := transaction }
          session)).sum < 2 ^ 63 →
          ExactTotal (nativeCompletions ops files nativeSink policy fuel
            { transaction := transaction } session) parsed.rowsAffected := by
  refine ⟨?_, ?_, ?_⟩
  · intro fuel session d q hout hresult hfits
    have hexact := runningTotal_exact hfits
    rw [← buffered_rowsAffected dec files hout hresult] at hexact
    refine ⟨hexact, ?_⟩
    rw [← reportedTotal_eq hexact, batchResult]
    split <;> rfl
  · intro fuel c sql send session summary hout hfits
    obtain ⟨d, q, sets, hd, hresult, rfl⟩ := runBatchStream_drained dec sink files hout
    have hexact := runningTotal_exact hfits
    rw [← stream_rowsAffected dec sink files hd hresult] at hexact
    exact ⟨⟨q, sets, rfl, hexact⟩, reportedTotal_eq hexact _⟩
  · intro fuel transaction session parsed hout hfits
    have hexact := runningTotal_exact hfits
    have htotal := native_rowsAffected ops files nativeSink policy fuel
      { transaction := transaction } session hout
    rwa [runningTotal, ← htotal] at hexact

end Exactness

/-! ## Responses without and with too many rows -/

/-- A response that arrives in one piece is drained frame by frame. -/
theorem newSession_drains {V S R K : Type} {E : Engine V S R K}
    {Open : K → DbosTupleDesc → S → Prop} (files : ExternalFiles) (dec : Decoder V)
    (hE : E.Lawful Open) {fuel : Nat} (st : S) {bytes : Bytes} (hne : bytes ≠ [])
    (hfuel : bytes.length < fuel) :
    Alike sessionView (drainResponseWithSink files dec E fuel st (ReadBuffer.new, chunked [bytes]))
      (drainFrames files dec E fuel st bytes) := by
  have hflat : ReadBuffer.new.slice ++ [bytes].flatten = bytes := by
    rw [List.flatten_singleton]
    rfl
  have halike := drainResponseWithSink_drainFrames files dec hE fuel st ReadBuffer.new
    (show ∀ chunk ∈ [bytes], chunk ≠ [] by
      intro chunk hchunk
      rw [List.mem_singleton.mp hchunk]
      exact hne) (by
      rw [hflat]
      exact hfuel)
  rwa [hflat] at halike

def completeFrame (text : String) : Bytes :=
  let payload := toUtf8 text.toList
  Code.commandComplete :: (zeros 4 ++ (ByteString.toBe 4 payload.length ++ payload))

/-- Two statements of five rows in all. -/
def countedResponse : Bytes :=
  completeFrame "INSERT 0 2" ++ completeFrame "UPDATE 3" ++ Code.readyForQuery :: zeros 4

/-- A row and a SELECT that carries no count. -/
def uncountedResponse : Bytes :=
  let description : Bytes := [0, 1, 97, 0] ++ zeros 11
  Code.rowDescription :: (zeros 4 ++ (ByteString.toBe 4 description.length ++ description)) ++
    Code.dataRow :: (zeros 4 ++ (ByteString.toBe 4 1 ++ [0])) ++
    completeFrame "SELECT" ++ Code.readyForQuery :: zeros 4

/-- Two counts whose sum is `2 ^ 63`. -/
def hugeResponse : Bytes :=
  completeFrame "INSERT 0 9223372036854775807" ++ completeFrame "INSERT 0 1" ++
    Code.readyForQuery :: zeros 4

abbrev oneChunk (bytes : Bytes) : ReadBuffer × Stream :=
  (ReadBuffer.new, chunked [bytes])

/-- The total of a drain that has ended well. -/
def drainedTotal (o : Outcome NzError (Drained Unit)) : Option Int :=
  match o with
  | .ok ⟨.ok q, _⟩ => some q.rowsAffected
  | _ => none

def streamedTotal (o : Outcome NzError (StreamDrained Unit)) : Option Int :=
  match o with
  | .ok ⟨.ok (q, sets, none), _⟩ => some (streamSummary q sets).rowsAffected
  | _ => none

def nativeTotal {N : Numerics}
    (o : Outcome (Checked.Fault NzError) (Inner.ParsedQueryResult N)) : Option Int :=
  match o with
  | .ok parsed => some parsed.rowsAffected
  | _ => none

theorem drained_total {bytes : Bytes} {n : Int} (hne : bytes ≠ []) (hlen : bytes.length < 200)
    (h : drainedTotal (drainFrames noFiles shapeDecoder (bufferedEngine shapeDecoder) 200 {}
      bytes).outcome = some n) :
    ∃ d q, (drainResponseWithSink noFiles shapeDecoder (bufferedEngine shapeDecoder) 200 {}
      (oneChunk bytes)).outcome = .ok d ∧ d.result = .ok q ∧ q.rowsAffected = n := by
  rw [← (newSession_drains noFiles shapeDecoder (bufferedEngine_lawful shapeDecoder) {} hne
    hlen).outcome] at h
  unfold drainedTotal at h
  split at h
  next q synced hout => exact ⟨_, q, hout, rfl, Option.some.inj h⟩
  next => cases h

theorem streamed_total {bytes : Bytes} {n : Int} (hne : bytes ≠ []) (hlen : bytes.length < 200)
    (h : streamedTotal (drainFrames noFiles shapeDecoder (streamEngine shapeDecoder acceptAll) 200 {}
      bytes).outcome = some n) :
    ∃ summary, (runBatchStream noFiles shapeDecoder acceptAll 200 {} "SELECT 1".toList .sent
      (oneChunk bytes)).outcome = .ok summary ∧ summary.rowsAffected = n := by
  rw [← (newSession_drains noFiles shapeDecoder (streamEngine_lawful shapeDecoder acceptAll) {} hne
    hlen).outcome] at h
  obtain ⟨inFrame, hbatch⟩ := runBatchStream_sent noFiles shapeDecoder acceptAll 200 {}
    "SELECT 1".toList (oneChunk bytes) (by decide) rfl
  rw [hbatch]
  unfold streamedTotal at h
  split at h
  next q sets synced hout =>
    refine ⟨streamSummary q sets, ?_, Option.some.inj h⟩
    unfold afterStream
    rw [hout]
  next => cases h

theorem native_total {N : Numerics} {n : Int}
    {o : Outcome (Checked.Fault NzError) (Inner.ParsedQueryResult N)}
    (h : nativeTotal o = some n) : ∃ parsed, o = .ok parsed ∧ parsed.rowsAffected = n := by
  unfold nativeTotal at h
  split at h
  next parsed => exact ⟨parsed, rfl, Option.some.inj h⟩
  next => cases h

theorem bufferedCompletions_eq {bytes : Bytes} (hne : bytes ≠ []) (hlen : bytes.length < 200) :
    bufferedCompletions shapeDecoder noFiles 200 (oneChunk bytes) =
      (drainFrames noFiles shapeDecoder
        (recording (bufferedEngine shapeDecoder) SyncState.completeCommand) 200 ({}, [])
        bytes).state.2 := by
  rw [← (newSession_drains noFiles shapeDecoder (recording_lawful
    (bufferedEngine_lawful shapeDecoder) (total_readCounted _)) ({}, []) hne hlen).state]
  rfl

theorem streamCompletions_eq {bytes : Bytes} (hne : bytes ≠ []) (hlen : bytes.length < 200) :
    streamCompletions shapeDecoder acceptAll noFiles 200 (oneChunk bytes) =
      (drainFrames noFiles shapeDecoder
        (recording (streamEngine shapeDecoder acceptAll) fun st data =>
          st.completeCommand acceptAll data) 200 ({}, []) bytes).state.2 := by
  rw [← (newSession_drains noFiles shapeDecoder (recording_lawful
    (streamEngine_lawful shapeDecoder acceptAll) (total_readCounted _)) ({}, []) hne hlen).state]
  rfl

theorem counted_shape : countedResponse ≠ [] ∧ countedResponse.length < 200 := by
  decide +kernel

/-- In each engine five rows are affected, exactly. -/
theorem counted_rows_affected :
    (∃ d q, (drainResponseWithSink noFiles shapeDecoder (bufferedEngine shapeDecoder) 200 {}
        (oneChunk countedResponse)).outcome = .ok d ∧ d.result = .ok q ∧ q.rowsAffected = 5 ∧
        ExactTotal (bufferedCompletions shapeDecoder noFiles 200 (oneChunk countedResponse))
          q.rowsAffected) ∧
      (∃ summary, (runBatchStream noFiles shapeDecoder acceptAll 200 {} "SELECT 1".toList .sent
        (oneChunk countedResponse)).outcome = .ok summary ∧ summary.rowsAffected = 5 ∧
        summary.rowsAffected = reportedTotal (summary.resultSets.map (·.rowCount)).sum
          (streamCompletions shapeDecoder acceptAll noFiles 200 (oneChunk countedResponse))) ∧
      ∃ parsed, (Inner.drainResponseInner RawRow.bitOps noFiles .none .allRowsEager 20 false
        ([], chunked [countedResponse])).outcome = .ok parsed ∧ parsed.rowsAffected = 5 ∧
        ExactTotal (nativeCompletions RawRow.bitOps noFiles .none .allRowsEager 20 {}
          ([], chunked [countedResponse])) parsed.rowsAffected := by
  obtain ⟨hne, hlen⟩ := counted_shape
  obtain ⟨hbuffered, hstream, hnative⟩ := rows_affected_exact noFiles shapeDecoder acceptAll
    RawRow.bitOps .none .allRowsEager
  obtain ⟨d, q, hd, hq, hdrained⟩ := drained_total (n := 5) hne hlen (by decide +kernel)
  obtain ⟨summary, hsummary, hstreamed⟩ := streamed_total (n := 5) hne hlen (by decide +kernel)
  obtain ⟨parsed, hparsed, htaken⟩ := native_total (n := 5) (o :=
    (Inner.drainResponseInner RawRow.bitOps noFiles .none .allRowsEager 20 false
      ([], chunked [countedResponse])).outcome) (by decide +kernel)
  refine ⟨⟨d, q, hd, hq, hdrained, ?_⟩, ⟨summary, hsummary, hstreamed, ?_⟩,
    ⟨parsed, hparsed, htaken, ?_⟩⟩
  · refine (hbuffered 200 _ d q hd hq ?_).1
    rw [bufferedCompletions_eq hne hlen]
    decide +kernel
  · refine (hstream 200 {} _ .sent _ summary hsummary ?_).2
    rw [streamCompletions_eq hne hlen]
    decide +kernel
  · exact hnative 20 false _ parsed hparsed (by decide +kernel)

/-- Without a count a batch reports the row it has drained; a sum of `2 ^ 63` wraps. -/
theorem total_not_exact :
    (∃ summary, (runBatchStream noFiles shapeDecoder acceptAll 200 {} "SELECT 1".toList .sent
        (oneChunk uncountedResponse)).outcome = .ok summary ∧
      carried (streamCompletions shapeDecoder acceptAll noFiles 200 (oneChunk uncountedResponse)) =
        [] ∧
      ¬ summary.rowsAffected = -1) ∧
      ∃ d q, (drainResponseWithSink noFiles shapeDecoder (bufferedEngine shapeDecoder) 200 {}
          (oneChunk hugeResponse)).outcome = .ok d ∧ d.result = .ok q ∧
        ¬ q.rowsAffected =
          exactTotal (bufferedCompletions shapeDecoder noFiles 200 (oneChunk hugeResponse)) := by
  have huncounted : uncountedResponse ≠ [] ∧ uncountedResponse.length < 200 := by
    decide +kernel
  have hhuge : hugeResponse ≠ [] ∧ hugeResponse.length < 200 := by
    decide +kernel
  obtain ⟨summary, hsummary, hone⟩ := streamed_total (n := 1) huncounted.1 huncounted.2
    (by decide +kernel)
  obtain ⟨d, q, hd, hq, hwrapped⟩ := drained_total (n := -2 ^ 63) hhuge.1 hhuge.2
    (by decide +kernel)
  refine ⟨⟨summary, hsummary, ?_, ?_⟩, ⟨d, q, hd, hq, ?_⟩⟩
  · rw [streamCompletions_eq huncounted.1 huncounted.2]
    decide +kernel
  · rw [hone]
    decide
  · rw [bufferedCompletions_eq hhuge.1 hhuge.2, hwrapped]
    decide +kernel

end NzRust.Response
