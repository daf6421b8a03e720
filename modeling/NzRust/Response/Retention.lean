import Mathlib.Data.List.Forall2
import NzRust.Response.Inner
import NzRust.Response.Runs

/-!
# What a row policy changes

A response that is drained and decoded in full is drained under every other
policy too, over the same bytes and to the same result but for the rows kept.
The two drains run in step: each message is taken by both, and the one that
discards a row leaves the session where the one that read it does.
-/

namespace NzRust.Response.Inner

open Wire Checked
open Handshake (Step nativeReader nativeReader_serves)
open Handshake.Native (readBytes skipBytes)

/-! ## Sessions with the same bytes to come -/

/-- What the session has yet to read, whether it is buffered or not. -/
def remaining (session : Session) : View :=
  bytesView session.1 ++ session.2.items fun _ => false

def Same (s t : Session) : Prop :=
  remaining s = remaining t

theorem port_read_view (n : Nat) (s : Session) :
    ((nativeReader.port.read n s).1, remaining (nativeReader.port.read n s).2) =
      (Handshake.viewPeer Handshake.asyncClosedMessage Handshake.asyncCheck).read n (remaining s) := by
  cases hcheck : Handshake.asyncCheck n with
  | error e =>
      have hread := nativeReader_serves.rejects n s.1 s.2 e hcheck
      simp [Handshake.Reader.port, Handshake.viewPeer, hcheck, hread, remaining]
  | ok u =>
      have hread := nativeReader_serves.reads n s.1 s.2 hcheck
      simp only [Handshake.Reader.port, Handshake.viewPeer, hcheck]
      exact hread

theorem same_read (n : Nat) (s t : Session) (h : Same s t) :
    (nativeReader.port.read n s).1 = (nativeReader.port.read n t).1 ∧
      Same (nativeReader.port.read n s).2 (nativeReader.port.read n t).2 := by
  have heq := (port_read_view n s).trans ((congrArg _ h).trans (port_read_view n t).symm)
  exact Prod.mk.inj heq

/-- The drains cannot tell sessions apart that have the same bytes to come. -/
theorem wire_matches {α : Type} (prog : Step α) : Act.Matches Same Eq (wire prog) (wire prog) :=
  .ofProg same_read (fun _ _ h => ⟨rfl, h⟩) prog

/-! ## Discarding -/

theorem items_byte {s s' : Stream} {chunk : Bytes} {space : Nat} {view : View}
    (h : s.read space = (.ok chunk, s')) (hspace : 0 < space) {b : UInt8}
    (hitems : s.items (fun _ => false) = .byte b :: view) : chunk ≠ [] := by
  rintro rfl
  rcases Stream.read_items_end hspace h with ⟨hnil, -⟩ | hstop
  · rw [hnil] at hitems
    cases hitems
  · rw [hstop] at hitems
    cases hitems

/-- The direct reads take the bytes that they are to discard and none after them. -/
theorem discardLoop_bytes {n : Nat} {s : Stream} {bytes : Bytes} {view : View}
    (hlen : bytes.length = n) (hitems : s.items (fun _ => false) = bytesView bytes ++ view) :
    ∃ s', discardLoop n s = (.ok (), s') ∧ s'.items (fun _ => false) = view := by
  fun_induction discardLoop n s generalizing bytes with
  | case1 s =>
      obtain rfl := List.length_eq_zero_iff.mp hlen
      exact ⟨s, rfl, hitems⟩
  | case2 n s hn kind s' hread =>
      cases bytes with
      | nil => exact absurd hlen.symm hn
      | cons b bs =>
          have hfailed : s.items (fun _ => false) = .stop (some kind) :: s'.items (fun _ => false) :=
            Stream.read_items_failed hread
          rw [hitems, bytesView_cons_append] at hfailed
          cases hfailed
  | case3 n s hn s' hread =>
      cases bytes with
      | nil => exact absurd hlen.symm hn
      | cons b bs => exact absurd rfl (items_byte hread (by omega) hitems)
  | case4 n s hn b bs s' hread ih =>
      have hdata : s.items (fun _ => false) = bytesView (b :: bs) ++ s'.items (fun _ => false) :=
        Stream.read_items_data (List.cons_ne_nil b bs) hread
      have hle := Stream.read_length_le hread
      have hsplit : bytesView (b :: bs) ++ s'.items (fun _ => false) =
          bytesView (bytes.take (b :: bs).length) ++
            (bytesView (bytes.drop (b :: bs).length) ++ view) := by
        rw [← hdata, hitems, ← List.append_assoc, ← bytesView_append, List.take_append_drop]
      have hshort : (bytesView (b :: bs)).length =
          (bytesView (bytes.take (b :: bs).length)).length := by
        simp only [bytesView, List.length_map, List.length_take]
        omega
      have hrest := (List.append_inj hsplit hshort).2
      exact ih (by rw [List.length_drop, hlen]) hrest

theorem wire_readBytes {len : Nat} {s : Session} {bytes : Bytes}
    (h : (wire (readBytes len) s).outcome = .ok bytes) :
    (nativeReader.port.read len s).1 = .ok bytes ∧
      wire (readBytes len) s = ⟨.ok bytes, [], (nativeReader.port.read len s).2⟩ := by
  unfold wire Act.ofProg readBytes at *
  cases hvalid : validateProtocolLength (ByteString.signed 32 (len % 2 ^ 32)) "asyncPayload" true with
  | error e =>
      rw [hvalid] at h
      cases h
  | ok n =>
      rw [hvalid] at h
      cases hread : (nativeReader.port.read len s).1 with
      | error e =>
          have hfails : ((Prog.take len).run nativeReader.port s).outcome = .error e := by
            simp [Prog.take, Prog.run, hread]
          exact absurd (hfails.symm.trans h) (by simp)
      | ok found =>
          have hrun : (Prog.take len).run nativeReader.port s =
              ⟨.ok found, [], (nativeReader.port.read len s).2⟩ := by
            simp [Prog.take, Prog.run, hread]
          have hfound : Outcome.ok found = .ok bytes := (congrArg Finish.outcome hrun).symm.trans h
          cases hfound
          exact ⟨rfl, hrun⟩

/-- A read that succeeds takes the bytes in front, and no more than a frame may have. -/
theorem port_read_ok {len : Nat} {s : Session} {bytes : Bytes}
    (h : (nativeReader.port.read len s).1 = .ok bytes) :
    remaining s = bytesView bytes ++ remaining (nativeReader.port.read len s).2 ∧
      bytes.length = len ∧ len < 2 ^ 32 := by
  have hview := port_read_view len s
  rw [h] at hview
  unfold Handshake.viewPeer at hview
  dsimp only at hview
  cases hcheck : Handshake.asyncCheck len with
  | error e =>
      rw [hcheck] at hview
      cases hview
  | ok u =>
      rw [hcheck] at hview
      obtain ⟨hconsumed, hlen⟩ := viewRead_consumed hview.symm
      refine ⟨hconsumed, hlen, ?_⟩
      by_contra hlarge
      unfold Handshake.asyncCheck Handshake.maxBufferedFrame at hcheck
      rw [if_pos (by omega)] at hcheck
      cases hcheck

/-- Where a payload can be read it can be discarded, and both leave the same bytes. -/
theorem discardExact_matches (len : Nat) :
    Act.Matches Same (fun bytes _ => bytes.length = len ∧ len < 2 ^ 32) (wire (readBytes len))
      (discardExact len) := by
  intro s t hst bytes hread
  obtain ⟨hport, hrun⟩ := wire_readBytes hread
  obtain ⟨hremaining, hlen, hsmall⟩ := port_read_ok hport
  rw [hrun]
  have hviews : bytesView t.1 ++ t.2.items (fun _ => false) =
      bytesView bytes ++ remaining (nativeReader.port.read len s).2 :=
    (Eq.symm hst).trans hremaining
  -- What is buffered of the payload goes first, whether or not that is all of it.
  by_cases hshort : t.1.length ≤ len
  · have hmin : min len t.1.length = t.1.length := by omega
    have hsplit : bytesView t.1 ++ t.2.items (fun _ => false) =
        bytesView (bytes.take t.1.length) ++
          (bytesView (bytes.drop t.1.length) ++ remaining (nativeReader.port.read len s).2) := by
      rw [hviews, ← List.append_assoc, ← bytesView_append, List.take_append_drop]
    have hrest := (List.append_inj hsplit (by simp [bytesView]; omega)).2
    obtain ⟨s', hloop, hitems⟩ := discardLoop_bytes
      (show (bytes.drop t.1.length).length = len - t.1.length by rw [List.length_drop, hlen]) hrest
    have hdiscard : discardExact len t = ⟨.ok (), [], [], s'⟩ := by
      simp [discardExact, hmin, hloop]
    rw [hdiscard]
    exact ⟨(), rfl, ⟨hlen, hsmall⟩, rfl, hitems.symm⟩
  · have hmin : min len t.1.length = len := by omega
    have hsplit : bytesView (t.1.take len) ++ (bytesView (t.1.drop len) ++ t.2.items (fun _ => false)) =
        bytesView bytes ++ remaining (nativeReader.port.read len s).2 := by
      rw [← hviews, ← List.append_assoc, ← bytesView_append, List.take_append_drop]
    have hrest := (List.append_inj hsplit (by simp [bytesView]; omega)).2
    have hdiscard : discardExact len t = ⟨.ok (), [], t.1.drop len, t.2⟩ := by
      simp [discardExact, hmin, discardLoop]
    rw [hdiscard]
    exact ⟨(), rfl, ⟨hlen, hsmall⟩, rfl, hrest.symm⟩

/-! ## Taking a message under two policies -/

/-- The message that a drain takes where one that retains every row takes the first: a row is
short enough to be laid out, and without its payload where it is not retained. -/
inductive Taken (retain : Bool) : Msg → Msg → Prop where
  | dbosRow (desc : DbosTupleDesc) {payload : Bytes} (hsmall : payload.length < 2 ^ 32) :
      Taken retain (.dbosRow desc (some payload))
        (.dbosRow desc (if retain then some payload else none))
  | textRow (columns : List ColumnDesc) {payload : Bytes} (hsmall : payload.length < 2 ^ 32) :
      Taken retain (.textRow columns (some payload))
        (.textRow columns (if retain then some payload else none))
  | other {msg : Msg} (hdbos : ∀ desc payload, msg ≠ .dbosRow desc payload)
      (htext : ∀ columns payload, msg ≠ .textRow columns payload) : Taken retain msg msg

theorem rowPayload_matches (retain : Bool) (len : Nat) :
    Act.Matches Same
      (fun payload kept => ∃ bytes : Bytes, payload = some bytes ∧ bytes.length < 2 ^ 32 ∧
        kept = if retain then some bytes else none)
      (rowPayload true len) (rowPayload retain len) := by
  cases retain with
  | true =>
      intro s t hst
      have hread : Act.Matches Same (fun bytes bytes' => bytes' = bytes ∧ bytes.length < 2 ^ 32)
          (wire (readBytes len)) (wire (readBytes len)) := by
        intro s t hst bytes hbytes
        obtain ⟨bytes', hbytes', heq, hsent, hpeer⟩ := wire_matches (readBytes len) s t hst bytes hbytes
        obtain ⟨-, hlen, hsmall⟩ := port_read_ok (wire_readBytes hbytes).1
        exact ⟨bytes', hbytes', ⟨heq.symm, by omega⟩, hsent, hpeer⟩
      refine (hread.bind ?_) s t hst
      rintro bytes bytes' ⟨rfl, hsmall⟩
      exact .ret ⟨_, rfl, hsmall, rfl⟩
  | false =>
      refine (discardExact_matches len).bind ?_
      rintro bytes - ⟨hlen, hsmall⟩
      exact .ret ⟨bytes, rfl, by omega, rfl⟩

section Receive

variable {N : Numerics} {policy : RowPolicy} {st st' : DrainState N}

theorem receiveRowStandard_matches (heager : st.retains .none .allRowsEager = true)
    (hdesc : st'.tupdesc = st.tupdesc) :
    Act.Matches Same (Taken (st'.retains .none policy))
      (receiveRowStandard .none .allRowsEager st) (receiveRowStandard .none policy st') := by
  unfold receiveRowStandard
  rw [heager, hdesc]
  refine (wire_matches _).bind ?_
  rintro _ _ rfl
  refine (wire_matches _).bind ?_
  rintro _ _ rfl
  refine (wire_matches _).bind ?_
  rintro len _ rfl
  refine (wire_matches _).bind ?_
  rintro desc _ rfl
  refine (rowPayload_matches _ len).bind ?_
  rintro _ _ ⟨bytes, rfl, hsmall, rfl⟩
  exact .ret (.dbosRow desc hsmall)

theorem receiveDataRow_matches (heager : st.retains .none .allRowsEager = true)
    (hcolumns : st'.current.map (·.columns) = st.current.map (·.columns))
    (hcached : st'.cachedColumns = st.cachedColumns) :
    Act.Matches Same (Taken (st'.retains .none policy))
      (receiveDataRow .none .allRowsEager st) (receiveDataRow .none policy st') := by
  unfold receiveDataRow
  rw [heager, hcolumns, hcached]
  refine (wire_matches _).bind ?_
  rintro len _ rfl
  refine (wire_matches _).bind ?_
  rintro columns _ rfl
  refine (rowPayload_matches _ len).bind ?_
  rintro _ _ ⟨bytes, rfl, hsmall, rfl⟩
  exact .ret (.textRow columns hsmall)

/-- Neither kind of row. -/
def Msg.IsOther (msg : Msg) : Prop :=
  (∀ desc payload, msg ≠ .dbosRow desc payload) ∧ ∀ columns payload, msg ≠ .textRow columns payload

theorem receiveFramed_other (code : UInt8) : Returns Msg.IsOther (receiveFramed code) := by
  have hdata : ∀ (prog : Step Bytes) (make : Bytes → Msg), (∀ data, (make data).IsOther) →
      Returns Msg.IsOther (prog.bind fun data => .ret (make data)) := fun prog make h =>
    .bind prog fun data => .ret (h data)
  unfold receiveFramed
  split_ifs
  · exact hdata _ _ fun _ => ⟨nofun, nofun⟩
  · exact hdata _ _ fun _ => ⟨nofun, nofun⟩
  · exact hdata _ _ fun _ => ⟨nofun, nofun⟩
  · exact hdata _ _ fun _ => ⟨nofun, nofun⟩
  · exact hdata _ _ fun _ => ⟨nofun, nofun⟩
  · exact .ret ⟨nofun, nofun⟩
  · exact .ret ⟨nofun, nofun⟩
  · exact hdata _ (fun _ => .nothing) fun _ => ⟨nofun, nofun⟩
  · exact hdata _ (fun _ => .nothing) fun _ => ⟨nofun, nofun⟩

theorem nothing_taken (retain : Bool) : Taken retain .nothing .nothing :=
  .other nofun nofun

theorem receive_matches (policy : RowPolicy) (files : ExternalFiles) (fuel : Nat)
    (hdesc : st'.tupdesc = st.tupdesc)
    (hcolumns : st'.current.map (·.columns) = st.current.map (·.columns))
    (hcached : st'.cachedColumns = st.cachedColumns) :
    Act.Matches Same (Taken (st'.retains .none policy))
      (receive .none .allRowsEager files fuel st) (receive .none policy files fuel st') := by
  have heager : st.retains .none .allRowsEager = true := rfl
  unfold receive
  refine (wire_matches _).bind ?_
  rintro code _ rfl
  split_ifs
  · exact .ret (nothing_taken _)
  · exact receiveRowStandard_matches heager hdesc
  · refine (wire_matches _).bind ?_
    rintro _ _ rfl
    exact .ret (nothing_taken _)
  · refine (wire_matches _).bind ?_
    rintro _ _ rfl
    exact receiveDataRow_matches heager hcolumns hcached
  · refine (wire_matches _).bind ?_
    rintro _ _ rfl
    intro s t hst msg hmsg
    obtain ⟨msg', hmsg', rfl, hsent, hpeer⟩ := wire_matches (receiveFramed code) s t hst msg hmsg
    obtain ⟨hdbos, htext⟩ := (receiveFramed_other code).outcome hmsg
    exact ⟨msg, hmsg', .other hdbos htext, hsent, hpeer⟩

end Receive

/-! ## What a policy keeps -/

/-- The rows of set `index` that a policy is there to keep. -/
def RowPolicy.selected {α : Type} (policy : RowPolicy) (index : Nat) (rows : List α) : List α :=
  match policy with
  | .allRows | .allRowsEager => rows
  | .firstExact | .firstOptional => if index = 0 then rows.take 1 else []
  | .discard => []

theorem RowPolicy.selected_append {α : Type} (policy : RowPolicy) (index : Nat) (rows : List α)
    (row : α) {count : Nat} (hcount : index = 0 → count = rows.length) :
    policy.selected index (rows ++ [row]) =
      policy.selected index rows ++ if policy.retains index count then [row] else [] := by
  have hfirst : (if index = 0 then (rows ++ [row]).take 1 else []) =
      (if index = 0 then rows.take 1 else []) ++
        if (index == 0 && count == 0) then [row] else [] := by
    by_cases hindex : index = 0
    · obtain rfl := hcount hindex
      cases rows with
      | nil => simp [hindex]
      | cons first rest => simp [hindex]
    · simp [hindex]
  cases policy with
  | allRows => rfl
  | allRowsEager => rfl
  | firstExact => exact hfirst
  | firstOptional => exact hfirst
  | discard => rfl

section Kept

variable {N : Numerics} (ops : NumberOps N)

/-- A decoded row and the raw row over the same payload. -/
inductive SamePayload : StoredRow N → StoredRow N → Prop where
  | dbos {columns : List ColumnDesc} {desc : DbosTupleDesc} {payload : Bytes}
      {values : List (NzValue N)} {row : RawRow N}
      (heager : desc.parseRowClassified ops payload = .ok values)
      (hlazy : RawRow.fromDbosRaw columns payload desc = .ok row) :
      SamePayload (.values columns values (some desc)) (.raw row)
  | text {columns : List ColumnDesc} {payload : Bytes} {values : List (NzValue N)} {row : RawRow N}
      (heager : TextRow.parseTextDataRowClassified ops payload columns = .ok values)
      (hlazy : RawRow.fromTextRaw columns payload = .ok row) :
      SamePayload (.values columns values none) (.raw row)

/-- How a policy stores the row that the eager one stores as `row`. -/
def Stores (policy : RowPolicy) (row stored : StoredRow N) : Prop :=
  if policy.eagerlyDecodes then stored = row else SamePayload ops row stored

structure SetKept (policy : RowPolicy) (index : Nat) (set kept : RowSet N) : Prop where
  columns : kept.columns = set.columns
  nullability : kept.nullability = set.nullability
  rows : List.Forall₂ (Stores ops policy) (policy.selected index set.rows) kept.rows

/-- The result of a drain under a policy beside the one of the eager drain. -/
structure ResultKept (policy : RowPolicy) (result kept : ParsedQueryResult N) : Prop where
  rowsAffected : kept.rowsAffected = result.rowsAffected
  notices : kept.notices = result.notices
  firstSetRowCount : kept.firstSetRowCount = result.firstSetRowCount
  count : kept.resultSets.length = result.resultSets.length
  sets : ∀ i set keptSet, result.resultSets[i]? = some set → kept.resultSets[i]? = some keptSet →
    SetKept ops policy i set keptSet

/-- The state of a drain under a policy beside the one of the eager drain. Only the rows differ. -/
structure Alike (policy : RowPolicy) (st st' : DrainState N) : Prop where
  same : st' = { st with resultSets := st'.resultSets, current := st'.current }
  decodeError : st.decodeError = none
  extra : st.batchExtraResultSet = false
  index : st.setIndex = st.resultSets.length
  count : st'.resultSets.length = st.resultSets.length
  sets : ∀ i set kept, st.resultSets[i]? = some set → st'.resultSets[i]? = some kept →
    SetKept ops policy i set kept
  current : Option.Rel (SetKept ops policy st.setIndex) st.current st'.current
  first : st.setIndex = 0 → st.firstSetRowCount = (st.openSet []).rows.length

variable {ops} {policy : RowPolicy} {st st' : DrainState N}

theorem RowPolicy.selected_nil {α : Type} (policy : RowPolicy) (index : Nat) :
    policy.selected index ([] : List α) = [] := by
  cases policy <;> simp [RowPolicy.selected]

theorem setKept_empty (index : Nat) (columns : List ColumnDesc) :
    SetKept ops policy index ⟨columns, [], none⟩ ⟨columns, [], none⟩ where
  columns := rfl
  nullability := rfl
  rows := by
    rw [RowPolicy.selected_nil]
    exact .nil

theorem finishResponseSet_none (h : st.current = none) : st.finishResponseSet .none = ([], st) := by
  simp [DrainState.finishResponseSet, h]

theorem finishResponseSet_some {set : RowSet N} (h : st.current = some set) :
    st.finishResponseSet .none =
      ([], { st with
        current := none, setIndex := st.setIndex + 1, rowCount := 0, started := false
        resultSets := st.resultSets ++ [set] }) := by
  simp [DrainState.finishResponseSet, h]

namespace Alike

theorem current_cases (h : Alike ops policy st st') :
    st.current = none ∧ st'.current = none ∨
      ∃ set kept, st.current = some set ∧ st'.current = some kept ∧
        SetKept ops policy st.setIndex set kept := by
  have hcurrent := h.current
  generalize st.current = current at *
  generalize st'.current = current' at *
  cases hcurrent with
  | none => exact .inl ⟨rfl, rfl⟩
  | some hset => exact .inr ⟨_, _, rfl, rfl, hset⟩

theorem openSet (h : Alike ops policy st st') (columns : List ColumnDesc) :
    SetKept ops policy st.setIndex (st.openSet columns) (st'.openSet columns) := by
  unfold DrainState.openSet
  rcases h.current_cases with ⟨hnone, hnone'⟩ | ⟨set, kept, hsome, hsome', hset⟩
  · rw [hnone, hnone']
    exact setKept_empty _ columns
  · rw [hsome, hsome']
    exact hset

theorem currentColumns (h : Alike ops policy st st') :
    st'.current.map (·.columns) = st.current.map (·.columns) := by
  rcases h.current_cases with ⟨hnone, hnone'⟩ | ⟨set, kept, hsome, hsome', hset⟩
  · rw [hnone, hnone']
  · rw [hsome, hsome']
    exact congrArg some hset.columns

theorem retains_eq (h : Alike ops policy st st') :
    st'.retains .none policy = policy.retains st.setIndex st.firstSetRowCount := by
  rw [h.same]
  rfl

theorem first_openSet (h : Alike ops policy st st') (columns : List ColumnDesc)
    (hindex : st.setIndex = 0) : st.firstSetRowCount = (st.openSet columns).rows.length := by
  rw [h.first hindex]
  unfold DrainState.openSet
  cases st.current <;> rfl

/-- Closing the sets that are open. -/
theorem finishResponseSet (h : Alike ops policy st st') :
    Alike ops policy (st.finishResponseSet .none).2 (st'.finishResponseSet .none).2 := by
  rcases h.current_cases with ⟨hnone, hnone'⟩ | ⟨set, kept, hsome, hsome', hset⟩
  · rw [finishResponseSet_none hnone, finishResponseSet_none hnone']
    exact h
  · rw [finishResponseSet_some hsome, finishResponseSet_some hsome']
    obtain ⟨hsame, hdecode, hextra, hindex, hcount, hsets, -, -⟩ := h
    refine ⟨?_, hdecode, hextra, ?_, ?_, ?_, .none, nofun⟩
    · rw [hsame]
    · simp [hindex]
    · simp [hcount]
    · intro i found foundKept hi hi'
      by_cases hlast : i < st.resultSets.length
      · rw [List.getElem?_append_left hlast] at hi
        rw [List.getElem?_append_left (by omega)] at hi'
        exact hsets i found foundKept hi hi'
      · rw [List.getElem?_append_right (by omega)] at hi
        rw [List.getElem?_append_right (by omega)] at hi'
        have hzero : i - st.resultSets.length = 0 := by
          by_contra hne
          simp [hne] at hi
        rw [hzero] at hi
        rw [hcount, hzero] at hi'
        cases hi
        cases hi'
        have hi : i = st.setIndex := by omega
        exact hi ▸ hset

/-- Of the first set no row has been counted once it is closed and none is open. -/
theorem finish_first (h : Alike ops policy st st')
    (hindex : (st.finishResponseSet .none).2.setIndex = 0) :
    (st.finishResponseSet .none).2.firstSetRowCount = 0 := by
  rcases h.current_cases with ⟨hnone, -⟩ | ⟨set, kept, hsome, -, -⟩
  · rw [finishResponseSet_none hnone] at hindex ⊢
    rw [h.first hindex, DrainState.openSet, hnone]
    rfl
  · rw [finishResponseSet_some hsome] at hindex
    cases hindex

end Alike

/-! ## Acting on a message under two policies -/

theorem classified_inr {V : Type} {make : V → StoredRow N} {x : Exec (NzError × Bool) V}
    {row : StoredRow N} (h : classified make x = .ok (.inr row)) :
    ∃ values, x = .ok values ∧ row = make values := by
  rcases x with (⟨e, stage⟩ | _) | values
  · cases stage <;> cases h
  · cases h
  · cases h
    exact ⟨values, rfl, rfl⟩

theorem buildDbos_stores {columns : List ColumnDesc} {desc : DbosTupleDesc} {payload : Bytes}
    (hsmall : payload.length < 2 ^ 32) {row : StoredRow N}
    (h : buildDbos ops .allRowsEager columns desc payload = .ok (.inr row)) :
    ∃ stored, buildDbos ops policy columns desc payload = .ok (.inr stored) ∧
      Stores ops policy row stored := by
  cases heager : policy.eagerlyDecodes with
  | true =>
      refine ⟨row, ?_, ?_⟩
      · rw [← h, buildDbos, if_pos heager]
        rfl
      · rw [Stores, if_pos heager]
  | false =>
      obtain ⟨values, hvalues, rfl⟩ := classified_inr h
      have hparse : desc.parseRow ops payload = .ok values := by
        rw [DbosTupleDesc.parseRow, hvalues]
        rfl
      obtain ⟨raw, hlazy⟩ : ∃ raw, RawRow.fromDbosRaw columns payload desc = .ok raw := by
        obtain ⟨spans, hlazy, -⟩ := RawRow.fromDbosRaw_of_parseRow columns hsmall hparse
        exact ⟨_, hlazy⟩
      refine ⟨.raw raw, ?_, ?_⟩
      · rw [buildDbos, if_neg (by simp [heager]), hlazy]
        rfl
      · rw [Stores, if_neg (by simp [heager])]
        exact .dbos hvalues hlazy

theorem buildText_stores {columns : List ColumnDesc} {payload : Bytes}
    (hsmall : payload.length < 2 ^ 32) {row : StoredRow N}
    (h : buildText ops .allRowsEager columns payload = .ok (.inr row)) :
    ∃ stored, buildText ops policy columns payload = .ok (.inr stored) ∧
      Stores ops policy row stored := by
  cases heager : policy.eagerlyDecodes with
  | true =>
      refine ⟨row, ?_, ?_⟩
      · rw [← h, buildText, if_pos heager]
        rfl
      · rw [Stores, if_pos heager]
  | false =>
      obtain ⟨values, hvalues, rfl⟩ := classified_inr h
      have hparse : TextRow.parseTextDataRow ops payload columns = .ok values := by
        rw [← TextRow.unstaged_parseTextDataRowClassified, hvalues]
        rfl
      obtain ⟨raw, hlazy, -, -⟩ := RawRow.fromTextRaw_of_parseTextDataRow hsmall hparse
      refine ⟨.raw raw, ?_, ?_⟩
      · rw [buildText, if_neg (by simp [heager]), hlazy]
        rfl
      · rw [Stores, if_neg (by simp [heager])]
        exact .text hvalues hlazy

/-- A row that the eager drain decodes, retained by the other one or not. -/
theorem Alike.row (h : Alike ops policy st st') (columns : List ColumnDesc)
    {built built' : Exec NzError (NzError ⊕ StoredRow N)}
    (hbuilt : ∀ row, built = .ok (.inr row) →
      ∃ stored, built' = .ok (.inr stored) ∧ Stores ops policy row stored) {next : DrainState N}
    (hgo : (handleRow .none (st.countRow (st.openSet columns)) (st.openSet columns) built).next =
      .go next)
    (hclean : next.decodeError = none) :
    ∃ next', Alike ops policy next next' ∧
      (if st'.retains .none policy then
        handleRow .none (st'.countRow (st'.openSet columns)) (st'.openSet columns) built'
      else ⟨[], .go (st'.countRow (st'.openSet columns))⟩).next = .go next' := by
  have hset := h.openSet columns
  have hcount := h.first_openSet columns
  have hretains := h.retains_eq
  have hselected := fun row => policy.selected_append st.setIndex (st.openSet columns).rows row hcount
  obtain ⟨hsame, hdecode, hextra, hindex, hsets, hkept, -, -⟩ := h
  rcases built with fault | e | row
  · cases hgo
  · cases hgo
    simp [DrainState.countRow, hdecode] at hclean
  · cases hgo
    obtain ⟨stored, rfl, hstored⟩ := hbuilt row rfl
    -- The counters count the row on both sides, whoever keeps it.
    have hfirst : st.setIndex = 0 → st.firstSetRowCount + (if st.setIndex = 0 then 1 else 0) =
        ((st.openSet columns).rows ++ [row]).length := by
      intro hzero
      simp [hzero, hcount hzero]
    by_cases hretain : policy.retains st.setIndex st.firstSetRowCount = true
    · rw [if_pos (hretains.trans hretain)]
      refine ⟨_, ?_, rfl⟩
      refine ⟨?_, hclean, hextra, hindex, hsets, hkept, .some ?_, hfirst⟩
      · rw [hsame]
        rfl
      · refine ⟨hset.columns, hset.nullability, ?_⟩
        show List.Forall₂ _ (policy.selected st.setIndex ((st.openSet columns).rows ++ [row])) _
        rw [hselected, if_pos hretain]
        exact List.rel_append hset.rows (.cons hstored .nil)
    · rw [if_neg (by rw [hretains]; exact hretain)]
      refine ⟨_, ?_, rfl⟩
      refine ⟨?_, hclean, hextra, hindex, hsets, hkept, .some ?_, hfirst⟩
      · rw [hsame]
        rfl
      · refine ⟨hset.columns, hset.nullability, ?_⟩
        show List.Forall₂ _ (policy.selected st.setIndex ((st.openSet columns).rows ++ [row])) _
        rw [hselected, if_neg hretain, List.append_nil]
        exact hset.rows

/-- What a turn of the eager drain does, a turn under another policy does beside it. -/
structure Follows (ops : NumberOps N) (policy : RowPolicy) (turn turn' : Turn N) : Prop where
  go : ∀ next, turn.next = .go next → next.decodeError = none →
    ∃ next', Alike ops policy next next' ∧ turn'.next = .go next'
  ends : ∀ result synced, turn.next = .ends (.ok result) synced →
    ∃ kept, ResultKept ops policy result kept ∧ turn'.next = .ends (.ok kept) synced

theorem follows_go {calls calls' : List (Call N)} (h : Alike ops policy st st') :
    Follows ops policy ⟨calls, .go st⟩ ⟨calls', .go st'⟩ where
  go := by
    rintro next ⟨⟩ -
    exact ⟨st', h, rfl⟩
  ends := by
    intro result synced hends
    cases hends

theorem follows_failed {calls : List (Call N)} {fault : Fault NzError} (turn' : Turn N) :
    Follows ops policy ⟨calls, .ends (.error fault) false⟩ turn' where
  go := by
    intro next hgo
    cases hgo
  ends := by
    intro result synced hends
    cases hends

theorem handleRow_next (sink : Sink) (set : RowSet N) (built : Exec NzError (NzError ⊕ StoredRow N))
    {result : ParsedQueryResult N} {synced : Bool} :
    (handleRow sink st set built).next ≠ .ends (.ok result) synced := by
  intro h
  rcases built with fault | e | row <;> cases h

theorem Alike.handleRow (h : Alike ops policy st st') (columns : List ColumnDesc)
    {built built' : Exec NzError (NzError ⊕ StoredRow N)}
    (hbuilt : ∀ row, built = .ok (.inr row) →
      ∃ stored, built' = .ok (.inr stored) ∧ Stores ops policy row stored) :
    Follows ops policy
      (handleRow .none (st.countRow (st.openSet columns)) (st.openSet columns) built)
      (if st'.retains .none policy then
        Inner.handleRow .none (st'.countRow (st'.openSet columns)) (st'.openSet columns) built'
      else ⟨[], .go (st'.countRow (st'.openSet columns))⟩) where
  go _ := h.row columns hbuilt
  ends _ _ hends := absurd hends (handleRow_next _ _ _)

theorem Alike.handleRowDescription (h : Alike ops policy st st') (data : Bytes) :
    Follows ops policy (handleRowDescription .none st data)
      (Inner.handleRowDescription .none st' data) := by
  have hclosed := h.finishResponseSet
  have hopen := h.finish_first
  unfold Inner.handleRowDescription
  generalize st.finishResponseSet .none = closed at *
  generalize st'.finishResponseSet .none = closed' at *
  cases parseRowDescription data with
  | error e => exact follows_failed _
  | ok columns =>
      obtain ⟨hsame, hdecode, hextra, hindex, hcount, hsets, -, -⟩ := hclosed
      refine follows_go ⟨?_, hdecode, ?_, hindex, hcount, hsets, .some (setKept_empty _ columns), ?_⟩
      · rw [hsame]
      · simp [hextra]
      · exact hopen

theorem Alike.handleRowDescriptionStandard (h : Alike ops policy st st') (data : Bytes) :
    Follows ops policy (handleRowDescriptionStandard st data)
      (Inner.handleRowDescriptionStandard st' data) := by
  have hset := fun columns => h.openSet columns
  have hfirst := fun columns => h.first_openSet columns
  obtain ⟨hsame, hdecode, hextra, hindex, hcount, hsets, -, -⟩ := h
  have hcached : st'.cachedColumns = st.cachedColumns := by rw [hsame]
  unfold Inner.handleRowDescriptionStandard
  rw [hcached]
  cases DbosTupleDesc.parse data st.cachedColumns with
  | error e => exact follows_failed _
  | ok desc =>
      have hopen := hset (st.cachedColumns.getD desc.toColumnDescs)
      refine follows_go ⟨?_, hdecode, hextra, hindex, hcount, hsets, .some ?_, ?_⟩
      · rw [hsame]
      · exact ⟨hopen.columns, rfl, hopen.rows⟩
      · exact hfirst _

theorem Alike.handleCommandComplete (h : Alike ops policy st st') (data : Bytes) :
    Follows ops policy (handleCommandComplete .none st data)
      (Inner.handleCommandComplete .none st' data) := by
  refine follows_go (Alike.finishResponseSet ?_)
  obtain ⟨hsame, hdecode, hextra, hindex, hcount, hsets, hcurrent, hfirst⟩ := h
  refine ⟨?_, hdecode, hextra, hindex, hcount, hsets, hcurrent, hfirst⟩
  rw [hsame]

theorem Alike.handleNotice (h : Alike ops policy st st') (data : Bytes) :
    Follows ops policy (handleNotice .none st data) (Inner.handleNotice .none st' data) := by
  unfold Inner.handleNotice
  dsimp only
  split_ifs
  · exact follows_go h
  · obtain ⟨hsame, hdecode, hextra, hindex, hcount, hsets, hcurrent, hfirst⟩ := h
    refine follows_go ⟨?_, hdecode, hextra, hindex, hcount, hsets, hcurrent, hfirst⟩
    rw [hsame]

theorem Alike.error (h : Alike ops policy st st') (e : NzError) :
    Alike ops policy { st with error := st.error <|> some e }
      { st' with error := st'.error <|> some e } := by
  obtain ⟨hsame, hdecode, hextra, hindex, hcount, hsets, hcurrent, hfirst⟩ := h
  refine ⟨?_, hdecode, hextra, hindex, hcount, hsets, hcurrent, hfirst⟩
  rw [hsame]

theorem Alike.handleReady (h : Alike ops policy st st') :
    Follows ops policy (handleReady .none st) (Inner.handleReady .none st') := by
  have hclosed := h.finishResponseSet
  unfold Inner.handleReady
  generalize st.finishResponseSet .none = closed at *
  generalize st'.finishResponseSet .none = closed' at *
  obtain ⟨hsame, hdecode, hextra, hindex, hcount, hsets, -, -⟩ := hclosed
  have herror' : closed'.2.error = closed.2.error := by rw [hsame]
  have hdecode' : closed'.2.decodeError = none := by
    rw [hsame]
    exact hdecode
  have hextra' : closed'.2.batchExtraResultSet = false := by
    rw [hsame]
    exact hextra
  simp only [herror', hdecode, hdecode', hextra, hextra']
  cases closed.2.error with
  | some e => exact follows_failed _
  | none =>
      refine ⟨by rintro next ⟨⟩, ?_⟩
      intro result synced hends
      cases hends
      refine ⟨_, ?_, rfl⟩
      exact ⟨by rw [hsame], by rw [hsame], by rw [hsame], hcount, hsets⟩

theorem handle_dbosRow (retain : Bool) (desc : DbosTupleDesc) (payload : Bytes) :
    handle ops .none policy st (.dbosRow desc (if retain then some payload else none)) =
      let set := st.openSet (st.cachedColumns.getD desc.toColumnDescs)
      if retain then
        handleRow .none (st.countRow set) set (buildDbos ops policy set.columns desc payload)
      else ⟨[], .go (st.countRow set)⟩ := by
  cases retain <;> rfl

theorem handle_textRow (retain : Bool) (columns : List ColumnDesc) (payload : Bytes) :
    handle ops .none policy st (.textRow columns (if retain then some payload else none)) =
      let set := st.openSet columns
      if retain then
        handleRow .none (st.countRow set) set (buildText ops policy set.columns payload)
      else ⟨[], .go (st.countRow set)⟩ := by
  cases retain <;> rfl

/-- One turn under any policy beside one of the eager drain. -/
theorem Alike.handle (h : Alike ops policy st st') {msg msg' : Msg}
    (htaken : Taken (st'.retains .none policy) msg msg') :
    Follows ops policy (handle ops .none .allRowsEager st msg)
      (Inner.handle ops .none policy st' msg') := by
  have hcached : st'.cachedColumns = st.cachedColumns := by rw [h.same]
  cases htaken with
  | @dbosRow desc payload hsmall =>
      have hset := h.openSet (st.cachedColumns.getD desc.toColumnDescs)
      rw [handle_dbosRow, hcached]
      refine h.handleRow (st.cachedColumns.getD desc.toColumnDescs) ?_
      intro row hrow
      rw [hset.columns]
      exact buildDbos_stores hsmall hrow
  | @textRow columns payload hsmall =>
      have hset := h.openSet columns
      rw [handle_textRow]
      refine h.handleRow columns ?_
      intro row hrow
      rw [hset.columns]
      exact buildText_stores hsmall hrow
  | other hdbos htext =>
      cases msg with
      | nothing => exact follows_go h
      | dbosRow desc payload => exact absurd rfl (hdbos desc payload)
      | textRow columns payload => exact absurd rfl (htext columns payload)
      | rowDescription data => exact h.handleRowDescription data
      | rowDescriptionStandard data => exact h.handleRowDescriptionStandard data
      | commandComplete data => exact h.handleCommandComplete data
      | notice data => exact h.handleNotice data
      | error data => exact follows_go (h.error _)
      | ready => exact h.handleReady

/-! ## Whole drains -/

theorem finishResponseSet_decodeError (sink : Sink) :
    (st.finishResponseSet sink).2.decodeError = st.decodeError := by
  unfold DrainState.finishResponseSet
  cases st.current with
  | none => rfl
  | some set =>
      cases sink with
      | none => rfl
      | batch => rfl
      | events =>
          unfold DrainState.emitResultStart
          cases st.started <;> rfl

theorem orElse_ne_none {α : Type} {x y : Option α} (h : x ≠ none) : (x <|> y) ≠ none := by
  cases x with
  | none => exact absurd rfl h
  | some a => exact nofun

/-- The turn leaves a decode error behind, and does not end the drain with a result. -/
structure Spoiled (turn : Turn N) : Prop where
  go : ∀ next, turn.next = .go next → next.decodeError ≠ none
  ends : ∀ result synced, turn.next ≠ .ends (.ok result) synced

theorem spoiled_go {calls : List (Call N)} (h : st.decodeError ≠ none) :
    Spoiled ⟨calls, .go st⟩ where
  go := by
    rintro next ⟨⟩
    exact h
  ends _ _ hends := by cases hends

theorem spoiled_failed (calls : List (Call N)) (fault : Fault NzError) (synced : Bool) :
    Spoiled ⟨calls, .ends (.error fault) synced⟩ where
  go _ hgo := by cases hgo
  ends _ _ hends := by cases hends

theorem spoiled_row (st : DrainState N) (h : st.decodeError ≠ none) (set : RowSet N)
    (built : Exec NzError (NzError ⊕ StoredRow N)) : Spoiled (handleRow .none st set built) := by
  rcases built with fault | e | row
  · exact spoiled_failed _ _ _
  · exact spoiled_go (orElse_ne_none h)
  · exact spoiled_go h

/-- A value that could not be decoded keeps the drain from succeeding. -/
theorem handle_spoiled (ops : NumberOps N) (policy : RowPolicy) (h : st.decodeError ≠ none)
    (msg : Msg) : Spoiled (handle ops .none policy st msg) := by
  have hclosed : (st.finishResponseSet .none).2.decodeError ≠ none := by
    rwa [finishResponseSet_decodeError]
  cases msg with
  | nothing => exact spoiled_go h
  | dbosRow desc payload =>
      cases payload with
      | none => exact spoiled_go h
      | some payload => exact spoiled_row (st.countRow _) h _ _
  | textRow columns payload =>
      cases payload with
      | none => exact spoiled_go h
      | some payload => exact spoiled_row (st.countRow _) h _ _
  | rowDescription data =>
      unfold handle handleRowDescription
      dsimp only
      cases parseRowDescription data with
      | error e => exact spoiled_failed _ _ _
      | ok columns => exact spoiled_go hclosed
  | rowDescriptionStandard data =>
      unfold handle handleRowDescriptionStandard
      dsimp only
      cases DbosTupleDesc.parse data st.cachedColumns with
      | error e => exact spoiled_failed _ _ _
      | ok desc => exact spoiled_go h
  | commandComplete data =>
      unfold handle handleCommandComplete
      dsimp only
      refine spoiled_go ?_
      rwa [finishResponseSet_decodeError]
  | notice data =>
      unfold handle handleNotice
      dsimp only
      split_ifs
      · exact spoiled_go h
      · exact spoiled_go h
  | error data => exact spoiled_go h
  | ready =>
      unfold handle handleReady
      dsimp only
      cases (st.finishResponseSet .none).2.error with
      | some e => exact spoiled_failed _ _ _
      | none =>
          cases hdecode : (st.finishResponseSet .none).2.decodeError with
          | none => exact absurd hdecode hclosed
          | some e => exact spoiled_failed _ _ _

section Loop

variable (files : ExternalFiles) {s t : Session}

theorem drainLoop_ends {fuel : Nat} {msg : Msg} {result : Exec NzError (ParsedQueryResult N)}
    {synced : Bool} (hmsg : (receive .none policy files fuel st s).outcome = .ok msg)
    (hnext : (handle ops .none policy st msg).next = .ends result synced) :
    drainLoop ops files .none policy (fuel + 1) st s =
      ⟨outcomeOf result, synced, (handle ops .none policy st msg).calls,
        (receive .none policy files fuel st s).sent, st.transaction,
        (receive .none policy files fuel st s).peer⟩ := by
  simp only [drainLoop, hmsg, hnext]

theorem drainLoop_go {fuel : Nat} {msg : Msg} {next : DrainState N}
    (hmsg : (receive .none policy files fuel st s).outcome = .ok msg)
    (hnext : (handle ops .none policy st msg).next = .go next) :
    let rest := drainLoop ops files .none policy fuel next (receive .none policy files fuel st s).peer
    drainLoop ops files .none policy (fuel + 1) st s =
      { rest with
        calls := (handle ops .none policy st msg).calls ++ rest.calls
        sent := (receive .none policy files fuel st s).sent ++ rest.sent } := by
  simp only [drainLoop, hmsg, hnext]

theorem drainLoop_receive {fuel : Nat} {result : ParsedQueryResult N}
    (h : (drainLoop ops files .none policy (fuel + 1) st s).outcome = .ok result) :
    ∃ msg, (receive .none policy files fuel st s).outcome = .ok msg := by
  cases hmsg : (receive .none policy files fuel st s).outcome with
  | ok msg => exact ⟨msg, rfl⟩
  | error e => simp [drainLoop, hmsg] at h
  | unfinished => simp [drainLoop, hmsg] at h

theorem drainLoop_spoiled (fuel : Nat) (h : st.decodeError ≠ none) {result : ParsedQueryResult N} :
    (drainLoop ops files .none policy fuel st s).outcome ≠ .ok result := by
  induction fuel generalizing st s with
  | zero => exact nofun
  | succ fuel ih =>
      intro hok
      obtain ⟨msg, hmsg⟩ := drainLoop_receive files hok
      have hspoiled := handle_spoiled ops policy h msg
      cases hnext : (handle ops .none policy st msg).next with
      | go next =>
          rw [drainLoop_go files hmsg hnext] at hok
          exact ih (hspoiled.go next hnext) hok
      | ends ended synced =>
          rw [drainLoop_ends files hmsg hnext] at hok
          cases ended with
          | ok result => exact hspoiled.ends _ _ hnext
          | error fault => cases hok

/-- The two drains in step. -/
theorem drainLoop_alike (fuel : Nat) (h : Alike ops policy st st') (hst : Same s t)
    {result : ParsedQueryResult N}
    (hok : (drainLoop ops files .none .allRowsEager fuel st s).outcome = .ok result) :
    ∃ kept, ResultKept ops policy result kept ∧
      (drainLoop ops files .none policy fuel st' t).outcome = .ok kept ∧
      (drainLoop ops files .none policy fuel st' t).sent =
        (drainLoop ops files .none .allRowsEager fuel st s).sent ∧
      Same (drainLoop ops files .none .allRowsEager fuel st s).session
        (drainLoop ops files .none policy fuel st' t).session := by
  induction fuel generalizing st st' s t with
  | zero => cases hok
  | succ fuel ih =>
      obtain ⟨msg, hmsg⟩ := drainLoop_receive files hok
      obtain ⟨msg', hmsg', htaken, hsent, hpeer⟩ := receive_matches policy files fuel
        (by rw [h.same]) h.currentColumns (by rw [h.same]) s t hst msg hmsg
      have hturn := h.handle htaken
      cases hnext : (handle ops .none .allRowsEager st msg).next with
      | go next =>
          rw [drainLoop_go files hmsg hnext] at hok ⊢
          by_cases hclean : next.decodeError = none
          · obtain ⟨next', halike, hnext'⟩ := hturn.go next hnext hclean
            rw [drainLoop_go files hmsg' hnext']
            obtain ⟨kept, hkept, hout, hrest, hsession⟩ := ih halike hpeer hok
            exact ⟨kept, hkept, hout, by simp only [hsent, hrest], hsession⟩
          · exact absurd hok (drainLoop_spoiled files fuel hclean)
      | ends ended synced =>
          rw [drainLoop_ends files hmsg hnext] at hok ⊢
          cases ended with
          | error fault => cases hok
          | ok result' =>
              cases hok
              obtain ⟨kept, hkept, hnext'⟩ := hturn.ends _ _ hnext
              rw [drainLoop_ends files hmsg' hnext']
              exact ⟨kept, hkept, rfl, hsent, hpeer⟩

end Loop

theorem alike_start (policy : RowPolicy) (transaction : Bool) :
    Alike ops policy { transaction := transaction } { transaction := transaction } where
  same := rfl
  decodeError := rfl
  extra := rfl
  index := rfl
  count := rfl
  sets := by
    intro i set kept hset
    simp at hset
  current := .none
  first _ := rfl

end Kept

/-- A response that the eager drain accepts is accepted under every policy: the same bytes are
consumed and the same ones written, and the result differs in the rows only, of which the policy
keeps those that it selects. -/
theorem retention_keeps_outcome {N : Numerics} (ops : NumberOps N) (files : ExternalFiles)
    (policy : RowPolicy) (fuel : Nat) (transaction : Bool) (session : Session)
    (result : ParsedQueryResult N)
    (hok : (drainResponseInner ops files .none .allRowsEager fuel transaction session).outcome =
      .ok result) :
    let eager := drainResponseInner ops files .none .allRowsEager fuel transaction session
    let drained := drainResponseInner ops files .none policy fuel transaction session
    ∃ kept, drained.outcome = .ok kept ∧ ResultKept ops policy result kept ∧
      remaining drained.session = remaining eager.session ∧ drained.sent = eager.sent := by
  obtain ⟨kept, hkept, hout, hsent, hsession⟩ :=
    drainLoop_alike files fuel (alike_start policy transaction) (rfl : Same session session) hok
  exact ⟨kept, hout, hkept, hsession.symm, hsent⟩

/-- Two rows of an INT4, cut inside the second one. -/
def rowsSession : Session :=
  ([], [.data (rowsResponse.take 115), .data (rowsResponse.drop 115)])

/-- The rows that each set of a result holds. -/
def rowCounts {N : Numerics} (ended : Ended N) : Option (List Nat) :=
  match ended.outcome with
  | .ok result => some (result.resultSets.map fun set => set.rows.length)
  | _ => none

set_option maxRecDepth 4000 in
theorem rowsSession_first_row :
    ∃ result kept,
      (drainResponseInner RawRow.bitOps noFiles .none .allRowsEager 20 false rowsSession).outcome =
        .ok result ∧
      result.resultSets.map (fun set => set.rows.length) = [2] ∧
      (drainResponseInner RawRow.bitOps noFiles .none .firstOptional 20 false rowsSession).outcome =
        .ok kept ∧
      ResultKept RawRow.bitOps .firstOptional result kept := by
  have hcounts : rowCounts
      (drainResponseInner RawRow.bitOps noFiles .none .allRowsEager 20 false rowsSession) =
        some [2] := by
    decide +kernel
  unfold rowCounts at hcounts
  cases hout : (drainResponseInner RawRow.bitOps noFiles .none .allRowsEager 20 false
      rowsSession).outcome with
  | error fault => simp [hout] at hcounts
  | unfinished => simp [hout] at hcounts
  | ok result =>
      rw [hout] at hcounts
      obtain ⟨kept, hkept, hresult, -, -⟩ := retention_keeps_outcome RawRow.bitOps noFiles
        .firstOptional 20 false rowsSession result hout
      exact ⟨result, kept, rfl, Option.some.inj hcounts, hkept, hresult⟩

end NzRust.Response.Inner
