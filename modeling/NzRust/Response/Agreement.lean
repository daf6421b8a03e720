import NzRust.Response.Resync

/-!
# The two engines against each other

The engines keep different variables between messages. `Ground` is what they
hold in common: the columns of the next set and whether a text description
gave them, the binary descriptor, and the state of the open set. A message
moves the ground, stops both engines with a protocol fault, or is one that the
engines take differently.
-/

namespace NzRust.Response

open Wire
open Native (NativeState nativeStep nativeFramed nativeDataRow nativeRow)

variable {V : Type}

/-! ## The ground -/

/-- The binary descriptor: never seen, valid for the current columns, or from before the last
text description, when only the synchronous engine still has it. -/
inductive DescriptorState where
  | absent
  | live (desc : DbosTupleDesc)
  | stale
  deriving DecidableEq, Repr

def DescriptorState.outdated : DescriptorState → DescriptorState
  | .absent => .absent
  | _ => .stale

def DescriptorState.isLive : DescriptorState → Bool
  | .live _ => true
  | _ => false

/-- The open set: none, one that a binary descriptor announced and the asynchronous engine has
already opened, or one that both have open, with or without a row so far. -/
inductive SetState where
  | closed
  | announced
  | opened (hasRow : Bool)
  deriving DecidableEq, Repr

structure Ground where
  columns : Option (List ColumnDesc) := none
  described : Bool := false
  descriptor : DescriptorState := .absent
  set : SetState := .closed
  deriving DecidableEq, Repr

/-- How a message takes the engines on. -/
inductive Progress where
  | differs
  | stops
  | goes (ground : Ground)
  deriving DecidableEq, Repr

namespace Ground

/-- Binary columns are cached by the synchronous engine alone. -/
def nativeColumns (g : Ground) : Option (List ColumnDesc) :=
  if g.described then g.columns else none

/-- Both engines keep the set when it ends: it has a row, or columns. -/
def closes (g : Ground) : Bool :=
  match g.set with
  | .closed => true
  | .announced => false
  | .opened hasRow => hasRow || g.columns != some []

/-- A row whose layout is fine; a new set for it has no nullability in the asynchronous engine and
the last descriptor's in the synchronous one. -/
def row (g : Ground) (decoded : Decoded V) (opens : Bool) : Progress :=
  match decoded with
  | .malformed _ => .stops
  | _ => if g.set = .closed ∧ opens = false then .differs else .goes { g with set := .opened true }

def textRow (dec : Decoder V) (g : Ground) (payload : Bytes) : Progress :=
  match g.columns with
  | none => .stops
  | some columns =>
      if payload = [] then if columns = [] then .differs else .stops
      else g.row (dec.text columns payload) (g.described && !g.descriptor.isLive)

def binaryRow (dec : Decoder V) (g : Ground) (payload : Bytes) : Progress :=
  if payload = [] then .stops
  else
    match g.descriptor with
    | .absent => .stops
    | .stale => .differs
    | .live desc => g.row (dec.dbos desc payload) false

def describe (g : Ground) (payload : Bytes) : Progress :=
  match parseRowDescription payload with
  | .error _ => .stops
  | .ok columns =>
      if g.closes then
        .goes
          { columns := some columns
            described := true
            descriptor := g.descriptor.outdated
            set := .opened false }
      else .differs

/-- Columns that come from an earlier binary descriptor count for the synchronous engine only. -/
def describeStandard (g : Ground) (payload : Bytes) : Progress :=
  match DbosTupleDesc.parse payload g.columns, DbosTupleDesc.parse payload g.nativeColumns with
  | .error _, .error _ => .stops
  | .ok desc, .ok _ =>
      let next : Ground :=
        { g with
          columns := g.columns <|> some desc.toColumnDescs
          descriptor := .live desc }
      if g.set ≠ .closed then .goes next
      else if g.described || next.columns == some desc.toColumnDescs then
        .goes { next with set := .announced }
      else .differs
  | _, _ => .differs

def complete (g : Ground) (payload : Bytes) : Progress :=
  if payload ≠ [] ∧ g.closes then .goes { g with set := .closed } else .differs

def next (dec : Decoder V) (g : Ground) : Message → Progress
  | .control _ _ _ _ => .goes g
  | .rowStandard _ _ payload _ _ _ => g.binaryRow dec payload
  | .framed code _ payload _ _ _ =>
      if code = Code.rowDescription then g.describe payload
      else if code = Code.dataRow then g.textRow dec payload
      else if code = Code.rowDescriptionStandard then g.describeStandard payload
      else if code = Code.commandComplete then g.complete payload
      else if code = Code.errorResponse then if payload = [] then .differs else .goes g
      else .goes g

/-- No message up to a common stop, nor ReadyForQuery, is one that the engines take differently. -/
def Common (dec : Decoder V) (g : Ground) : Messages → Prop
  | [] => g.closes = true
  | (_, m) :: rest =>
      match g.next dec m with
      | .differs => False
      | .stops => True
      | .goes g' => g'.Common dec rest

end Ground

/-! ## The states that stand on a ground -/

/-- The variables for the binary descriptor. `nullability` follows the last description. -/
def DescriptorState.Holds (d : DescriptorState) (s : SyncState V) (n : NativeState V) : Prop :=
  match d with
  | .absent => s.descriptor = none ∧ n.descriptor = none ∧ s.nullability = none
  | .live desc =>
      s.descriptor = some desc ∧ n.descriptor = some desc ∧
        s.nullability = some (desc.fields.map (·.nullAllowed)) ∧
        ∃ columns, s.cachedColumns = some columns ∧ desc.numFields = columns.length
  | .stale => (∃ desc, s.descriptor = some desc) ∧ n.descriptor = none ∧ s.nullability = none

/-- The synchronous variables for the rows of a set with `columns`, which may still be closed. -/
def SyncState.Rows (s : SyncState V) (columns : List ColumnDesc) : Prop :=
  (s.rowMetadata = none ∨ s.rowMetadata = some columns) ∧
    ((s.current = none ∧ s.rowColumns = none) ∨
      ∃ set, s.current = some set ∧ set.columns = columns ∧ s.rowColumns = some columns)

/-- The variables that decide which messages are accepted. -/
def SetState.Holds (set : SetState) (s : SyncState V) (n : NativeState V) : Prop :=
  match set with
  | .closed =>
      s.current = none ∧ n.current = none ∧ s.rowColumns = none ∧ s.rowMetadata = none
  | _ =>
      ∃ columns open', s.cachedColumns = some columns ∧ s.Rows columns ∧
        n.current = some open' ∧ open'.columns = columns

/-- The sets of a response without an error so far. -/
def SetState.Matches (set : SetState) (s : SyncState V) (n : NativeState V) : Prop :=
  s.sets = n.sets ∧
    match set with
    | .closed => True
    | .announced =>
        s.current = none ∧ ∃ columns, n.current = some ⟨columns, [], s.nullability⟩
    | .opened hasRow => s.current = n.current ∧
        ∃ open', n.current = some open' ∧ (hasRow = true → open'.rows ≠ [])

structure Agree (g : Ground) (s : SyncState V) (n : NativeState V) : Prop where
  rowsAffected : s.rowsAffected = n.rowsAffected
  notices : s.notices = n.notices
  error : s.error = n.error
  database : ∀ e, n.error = some e → e.kind = .database
  decodeError : s.deferredDecode = n.decodeError
  columns : s.cachedColumns = g.columns
  nativeColumns : n.cachedColumns = g.nativeColumns
  described : g.described = true → g.columns ≠ none
  binaryColumns : g.described = false → ∀ columns, g.columns = some columns →
    ∃ desc : DbosTupleDesc, columns = desc.toColumnDescs
  descriptor : g.descriptor.Holds s n
  set : g.set.Holds s n
  sets : n.error = none → n.decodeError = none → g.set.Matches s n

/-- What a message does to states that stand on a ground. -/
def Progress.Holds (p : Progress) (r : NzResult (SyncState V)) (r' : NzResult (NativeState V)) :
    Prop :=
  match p with
  | .differs => True
  | .stops => ∃ e e', r = .error e ∧ r' = .error e' ∧
      e.isProtocolFault = true ∧ e'.isProtocolFault = true
  | .goes g => ∃ s n, r = .ok s ∧ r' = .ok n ∧ Agree g s n

theorem counted_nil (field : String) :
    ∃ e, counted field false [] = .error e ∧ e.isProtocolFault = true :=
  ⟨_, rfl, rfl⟩

theorem counted_of_ne_nil {payload : Bytes} (hne : payload ≠ [])
    (hlen : payload.length ≤ maxProtocolPayload) (field : String) :
    counted field false payload = .ok payload := by
  have hpos : 0 < payload.length := List.length_pos_iff.mpr hne
  have hvalid : validateProtocolLength (payload.length : Int) field false = .ok payload.length :=
    validateProtocolLength_eq_ok.mpr ⟨rfl, hlen, .inr hpos⟩
  rw [counted, hvalid]
  rfl

/-! ## Rows -/

namespace SyncState

/-- A row under the columns of its set is stored. -/
theorem Rows.push {s : SyncState V} {columns : List ColumnDesc} (h : s.Rows columns)
    {values : List V} (hlen : values.length = columns.length) :
    s.storeDecoded columns (.row values) =
      .ok { s with
            rowMetadata := some columns
            rowColumns := some columns
            current :=
              let set := s.current.getD ⟨columns, [], s.nullability⟩
              some { set with rows := set.rows ++ [⟨columns, values⟩] } } := by
  have hmetadata : s.rowMetadata.getD columns = columns := by
    rcases h.1 with hnone | hsome
    · rw [hnone]
      rfl
    · rw [hsome]
      rfl
  have hcount : (values.length != columns.length) = false := by simp [hlen]
  simp only [storeDecoded, hmetadata, pushExistingRow]
  rcases h.2 with ⟨hnone, hrows⟩ | ⟨set, hsome, hcolumns, hrows⟩
  · simp [hnone, hcount]
  · simp [hsome, hrows, hcolumns, hcount]

theorem Rows.textColumns_eq {s : SyncState V} {columns : List ColumnDesc} (h : s.Rows columns)
    (hcolumns : s.cachedColumns = some columns) : s.textColumns = some columns := by
  rcases h.2 with ⟨-, hrows⟩ | ⟨set, -, -, hrows⟩ <;> simp [textColumns, hrows, hcolumns]

theorem Rows.dbosColumns_eq {s : SyncState V} {columns : List ColumnDesc} (h : s.Rows columns)
    (hcolumns : s.cachedColumns = some columns) (desc : DbosTupleDesc) :
    s.dbosColumns desc = columns := by
  rcases h.2 with ⟨-, hrows⟩ | ⟨set, -, -, hrows⟩ <;> simp [dbosColumns, hrows, hcolumns]

end SyncState

/-- Whatever the state of the set, the next row goes under the same columns. -/
theorem SetState.Holds.rows {set : SetState} {s : SyncState V} {n : NativeState V}
    (h : set.Holds s n) {columns : List ColumnDesc} (hcolumns : s.cachedColumns = some columns)
    {c : List ColumnDesc} (hc : set = .closed → c = columns) :
    s.Rows columns ∧ (n.openSet c).columns = columns := by
  cases set with
  | closed =>
      obtain ⟨hcurrent, hcurrent', hrows, hmetadata⟩ := h
      refine ⟨⟨.inl hmetadata, .inl ⟨hcurrent, hrows⟩⟩, ?_⟩
      rw [NativeState.openSet, hcurrent']
      exact hc rfl
  | announced | opened =>
      obtain ⟨columns', open', hcached, hrows, hcurrent, hopen⟩ := h
      rw [hcolumns] at hcached
      cases hcached
      refine ⟨hrows, ?_⟩
      rw [NativeState.openSet, hcurrent]
      exact hopen

/-- The set of the next row is the same in both engines. -/
theorem SetState.Matches.openSet_eq {set : SetState} {s : SyncState V} {n : NativeState V}
    (h : set.Holds s n) (hmatch : set.Matches s n) {columns : List ColumnDesc}
    (hcolumns : s.cachedColumns = some columns) (hnull : set = .closed → s.nullability = none)
    {c : List ColumnDesc} (hc : set = .closed → c = columns) :
    s.current.getD ⟨columns, [], s.nullability⟩ = n.openSet c := by
  have hopen := (h.rows hcolumns hc).2
  obtain ⟨-, hmatch⟩ := hmatch
  cases set with
  | closed =>
      rw [NativeState.openSet, h.1, h.2.1, hc rfl, hnull rfl]
  | announced =>
      obtain ⟨hcurrent, columns', hcurrent'⟩ := hmatch
      rw [NativeState.openSet, hcurrent'] at hopen ⊢
      rw [hcurrent]
      cases hopen
      rfl
  | opened hasRow =>
      obtain ⟨hcurrent, open', hcurrent', -⟩ := hmatch
      rw [NativeState.openSet, hcurrent, hcurrent']
      rfl

/-- A decoded row of columns that both engines have. -/
theorem Agree.store {g : Ground} {s : SyncState V} {n : NativeState V} (h : Agree g s n)
    {columns : List ColumnDesc} (hcolumns : s.cachedColumns = some columns)
    (hnull : g.set = .closed → s.nullability = none) {c : List ColumnDesc}
    (hc : g.set = .closed → c = columns) (decoded : Decoded V)
    (hlen : ∀ values, decoded = .row values → values.length = columns.length)
    (hfault : ∀ e, decoded = .malformed e → e.isProtocolFault = true) :
    (g.row decoded true).Holds (s.storeDecoded columns decoded)
      (n.storeDecoded (n.openSet c) decoded) := by
  obtain ⟨hrows, hopen⟩ := h.set.rows hcolumns hc
  cases decoded with
  | malformed e => exact ⟨e, e, rfl, rfl, hfault e rfl, hfault e rfl⟩
  | undecodable e =>
      have hgoes : g.row (.undecodable e : Decoded V) true = .goes { g with set := .opened true } := by
        simp [Ground.row]
      rw [hgoes]
      refine ⟨_, _, rfl, rfl, { h with
        decodeError := by
          show (s.deferredDecode <|> some e) = (n.decodeError <|> some e)
          rw [h.decodeError]
        set := ⟨columns, _, hcolumns, hrows, rfl, hopen⟩
        sets := ?_ }⟩
      -- the engines may differ in the set, but the response has failed
      intro _ hdecode
      cases hn : n.decodeError <;> simp [hn] at hdecode
  | row values =>
      have hgoes : g.row (.row values) true = .goes { g with set := .opened true } := by
        simp [Ground.row]
      rw [hgoes, hrows.push (hlen values rfl)]
      refine ⟨_, _, rfl, rfl, { h with
        set := ⟨columns, _, hcolumns, ⟨.inr rfl, .inr ⟨_, rfl, ?_, rfl⟩⟩, rfl, hopen⟩
        sets := ?_ }⟩
      · rcases hrows.2 with ⟨hnone, -⟩ | ⟨set, hsome, hset, -⟩
        · rw [hnone]
          rfl
        · rw [hsome]
          exact hset
      · intro herror hdecode
        have hmatch := h.sets herror hdecode
        refine ⟨hmatch.1, ?_, _, rfl, by simp⟩
        simp only [hmatch.openSet_eq h.set hcolumns hnull hc, hopen]

/-! ## Messages -/

section Messages

variable (dec : Decoder V) {g : Ground} {s : SyncState V} {n : NativeState V} {payload : Bytes}

/-- A row that the engines take differently unless its layout stops both. -/
theorem Ground.row_closed_holds {decoded : Decoded V} {r : NzResult (SyncState V)}
    {r' : NzResult (NativeState V)} (hclosed : g.set = .closed)
    (hstops : ∀ e, decoded = .malformed e → ∃ e e', r = .error e ∧ r' = .error e' ∧
      e.isProtocolFault = true ∧ e'.isProtocolFault = true) :
    (g.row decoded false).Holds r r' := by
  cases decoded with
  | malformed e => exact hstops e rfl
  | undecodable e => simp [Ground.row, hclosed, Progress.Holds]
  | row values => simp [Ground.row, hclosed, Progress.Holds]

theorem Ground.row_of_not_closed (hopen : g.set ≠ .closed) (decoded : Decoded V) (opens : Bool) :
    g.row decoded opens = g.row decoded true := by
  cases decoded <;> simp [Ground.row, hopen]

theorem DescriptorState.Holds.nullability_eq_none {d : DescriptorState} (h : d.Holds s n)
    (hlive : d.isLive = false) : s.nullability = none := by
  cases d with
  | absent => exact h.2.2
  | live desc => cases hlive
  | stale => exact h.2.2

theorem Agree.missing_columns (h : Agree g s n) (hnone : g.columns = none) :
    s.textColumns = none ∧ (n.current.map (·.columns) <|> n.cachedColumns) = none := by
  have hcached : s.cachedColumns = none := h.columns.trans hnone
  have hset := h.set
  cases hg : g.set with
  | closed =>
      rw [hg] at hset
      obtain ⟨hcurrent, hcurrent', hrows, -⟩ := hset
      have hnative : n.cachedColumns = none := by
        rw [h.nativeColumns, Ground.nativeColumns, hnone]
        split <;> rfl
      simp [SyncState.textColumns, hcurrent, hcurrent', hrows, hcached, hnative]
  | announced | opened =>
      rw [hg] at hset
      obtain ⟨columns, open', hsome, -⟩ := hset
      cases hcached.symm.trans hsome

theorem Agree.textRow (h : Agree g s n) (hlen : payload.length ≤ maxProtocolPayload) :
    (g.textRow dec payload).Holds (dataRow dec s payload) (nativeDataRow dec n payload) := by
  obtain ⟨e, hcounted, hfault⟩ := counted_nil "dataRowPayload"
  unfold Ground.textRow
  cases hg : g.columns with
  | none =>
      obtain ⟨hs, hn⟩ := h.missing_columns hg
      rw [dataRow, nativeDataRow, hs, hn]
      by_cases hempty : payload = []
      · subst hempty
        rw [hcounted]
        exact ⟨_, _, rfl, rfl, rfl, hfault⟩
      · rw [counted_of_ne_nil hempty hlen]
        exact ⟨_, _, rfl, rfl, rfl, rfl⟩
  | some columns =>
      have hcolumns : s.cachedColumns = some columns := h.columns.trans hg
      obtain ⟨hrows, hopen⟩ := h.set.rows hcolumns (c := columns) fun _ => rfl
      rw [dataRow, nativeDataRow, hrows.textColumns_eq hcolumns]
      by_cases hempty : payload = []
      · subst hempty
        by_cases hnil : columns = []
        · simp [hnil, Progress.Holds]
        · obtain ⟨e', htext⟩ := dec.text_nil hnil
          simp only [if_true, hnil, if_false, htext, hcounted]
          exact ⟨_, _, rfl, rfl, dec.text_malformed htext, hfault⟩
      · simp only [hempty, if_false, counted_of_ne_nil hempty hlen]
        have hstore (hnull : g.set = .closed → s.nullability = none) :=
          h.store hcolumns hnull (c := columns) (fun _ => rfl)
            (dec.text columns payload) (fun _ => dec.text_length)
            (fun _ => dec.text_malformed)
        dsimp only [Except.bind]
        by_cases hclosed : g.set = .closed
        · -- only columns of a text description are known to both engines
          obtain ⟨-, hcurrent, -, -⟩ : SetState.closed.Holds s n := hclosed ▸ h.set
          cases hdescribed : g.described with
          | false =>
              have hnative : n.cachedColumns = none := by
                rw [h.nativeColumns, Ground.nativeColumns, hdescribed]
                rfl
              rw [hcurrent, hnative, Bool.false_and]
              refine Ground.row_closed_holds hclosed fun e' hbad => ?_
              rw [hbad]
              exact ⟨_, _, rfl, rfl, dec.text_malformed hbad, rfl⟩
          | true =>
              have hnative : (n.current.map (·.columns) <|> n.cachedColumns) = some columns := by
                rw [hcurrent, h.nativeColumns, Ground.nativeColumns, hdescribed]
                exact hg
              rw [hnative, Bool.true_and]
              dsimp only
              cases hlive : g.descriptor.isLive with
              | true =>
                  refine Ground.row_closed_holds hclosed fun e' hbad => ?_
                  have hfault' := dec.text_malformed hbad
                  rw [hbad]
                  exact ⟨_, _, rfl, rfl, hfault', hfault'⟩
              | false => exact hstore fun _ => h.descriptor.nullability_eq_none hlive
        · have hcurrent : n.current.map (·.columns) = some columns := by
            have hset := h.set
            cases hset' : g.set with
            | closed => exact absurd hset' hclosed
            | announced | opened =>
                rw [hset'] at hset
                obtain ⟨columns', open', hcached, -, hsome, rfl⟩ := hset
                rw [hsome]
                exact hcached.symm.trans hcolumns
          rw [hcurrent, Ground.row_of_not_closed hclosed]
          exact hstore fun hc => absurd hc hclosed

theorem Agree.binaryRow (h : Agree g s n) (hlen : payload.length ≤ maxProtocolPayload) :
    (g.binaryRow dec payload).Holds (syncRow dec s payload) (nativeRow dec n payload) := by
  unfold Ground.binaryRow
  by_cases hempty : payload = []
  · subst hempty
    obtain ⟨e, hcounted, hfault⟩ := counted_nil "rowStandardPayload"
    rw [if_pos rfl, syncRow, nativeRow, hcounted]
    cases s.descriptor with
    | none => exact ⟨_, _, rfl, rfl, rfl, hfault⟩
    | some desc => exact ⟨_, _, rfl, rfl, hfault, hfault⟩
  · rw [if_neg hempty, syncRow, nativeRow, counted_of_ne_nil hempty hlen]
    have hdesc := h.descriptor
    cases hd : g.descriptor with
    | absent =>
        rw [hd] at hdesc
        rw [hdesc.1, hdesc.2.1]
        exact ⟨_, _, rfl, rfl, rfl, rfl⟩
    | stale => trivial
    | live desc =>
        rw [hd] at hdesc
        obtain ⟨hs, hn, -, columns, hcolumns, hfields⟩ := hdesc
        rw [hs, hn]
        dsimp only [Except.bind]
        by_cases hclosed : g.set = .closed
        · refine Ground.row_closed_holds hclosed fun e hbad => ?_
          have hfault := dec.dbos_malformed hbad
          rw [hbad]
          exact ⟨e, e, rfl, rfl, hfault, hfault⟩
        · obtain ⟨hrows, -⟩ := h.set.rows hcolumns (c := []) fun hc => absurd hc hclosed
          have hstore := h.store hcolumns (fun hc => absurd hc hclosed)
            (c := n.cachedColumns.getD desc.toColumnDescs) (fun hc => absurd hc hclosed)
            (dec.dbos desc payload)
            (fun _ hrow => (dec.dbos_length hrow).trans hfields) (fun _ => dec.dbos_malformed)
          rw [Ground.row_of_not_closed hclosed, hrows.dbosColumns_eq hcolumns]
          exact hstore

omit dec in
theorem NativeState.finishSet_eq (n : NativeState V) :
    n.finishSet = { n with sets := n.sets ++ n.current.toList, current := none } := by
  rcases n with ⟨sets, _ | set⟩
  · simp [NativeState.finishSet]
  · rfl

omit dec in
/-- Where both engines keep the set, they keep the same one. -/
theorem Agree.flush (h : Agree g s n) (hcloses : g.closes = true) (herror : n.error = none)
    (hdecode : n.decodeError = none) :
    s.flushCurrent.sets = n.sets ++ n.current.toList := by
  obtain ⟨hsets, hmatch⟩ := h.sets herror hdecode
  have hset := h.set
  simp only [SyncState.flushCurrent, hsets]
  unfold Ground.closes at hcloses
  cases hg : g.set with
  | closed =>
      rw [hg] at hset
      simp [hset.1, hset.2.1]
  | announced => simp [hg] at hcloses
  | opened hasRow =>
      rw [hg] at hset hmatch hcloses
      obtain ⟨hcurrent, open', hopen, hrow⟩ := hmatch
      obtain ⟨columns, open'', hcached, -, hopen', hcolumns⟩ := hset
      cases hopen.symm.trans hopen'
      have hkeep : (open'.rows.isEmpty && open'.columns.isEmpty) = false := by
        simp only [Bool.or_eq_true, bne_iff_ne, ne_eq] at hcloses
        rcases hcloses with hhas | hne
        · simp [hrow hhas]
        · have hnil : open'.columns ≠ [] := by
            rintro hnil
            exact hne (h.columns.symm.trans (hcached.trans (by rw [← hcolumns, hnil])))
          simp [hnil]
      simp [hcurrent, hopen, hkeep]

omit dec in
theorem Agree.complete (h : Agree g s n) (hlen : payload.length ≤ maxProtocolPayload) :
    (g.complete payload).Holds
      (.ok { (s.addCount payload).flushCurrent with rowMetadata := none })
      ((counted "commandCompletePayload" false payload).map n.complete) := by
  unfold Ground.complete
  split
  case isFalse => trivial
  case isTrue hcond =>
    obtain ⟨hne, hcloses⟩ := hcond
    rw [counted_of_ne_nil hne hlen]
    refine ⟨_, _, rfl, rfl, ?_⟩
    have hflush := h.flush hcloses
    rw [NativeState.complete, NativeState.finishSet_eq]
    exact {
      rowsAffected := congrArg (addRows · _) h.rowsAffected
      notices := h.notices
      error := h.error
      database := h.database
      decodeError := h.decodeError
      columns := h.columns
      nativeColumns := h.nativeColumns
      described := h.described
      binaryColumns := h.binaryColumns
      descriptor := by
        have hdesc := h.descriptor
        cases hd : g.descriptor <;> rw [hd] at hdesc <;> exact hdesc
      set := ⟨rfl, rfl, rfl, rfl⟩
      sets := fun herror hdecode => ⟨hflush herror hdecode, trivial⟩ }

omit dec in
theorem Agree.describe (h : Agree g s n) (hlen : payload.length ≤ maxProtocolPayload) :
    (g.describe payload).Holds ((parseRowDescription payload).map s.describe)
      ((counted "rowDescriptionPayload" false payload).bind fun data =>
        (parseRowDescription data).map n.describe) := by
  unfold Ground.describe
  cases hparse : parseRowDescription payload with
  | error e =>
      have hfault := parseRowDescription_error hparse
      by_cases hempty : payload = []
      · subst hempty
        obtain ⟨e', hcounted, hfault'⟩ := counted_nil "rowDescriptionPayload"
        rw [hcounted]
        exact ⟨_, _, rfl, rfl, hfault, hfault'⟩
      · rw [counted_of_ne_nil hempty hlen]
        dsimp only [Except.bind]
        rw [hparse]
        exact ⟨_, _, rfl, rfl, hfault, hfault⟩
  | ok columns =>
      have hne : payload ≠ [] := by
        rintro rfl
        cases hparse
      rw [counted_of_ne_nil hne hlen]
      dsimp only [Except.bind]
      split
      case isFalse => trivial
      case isTrue hcloses =>
        rw [hparse]
        refine ⟨_, _, rfl, rfl, ?_⟩
        have hflush := h.flush hcloses
        rw [NativeState.describe, NativeState.finishSet_eq]
        exact {
          rowsAffected := h.rowsAffected
          notices := h.notices
          error := h.error
          database := h.database
          decodeError := h.decodeError
          columns := rfl
          nativeColumns := rfl
          described := fun _ => nofun
          binaryColumns := fun hd => nomatch hd
          descriptor := by
            have hdesc := h.descriptor
            cases hd : g.descriptor with
            | absent =>
                rw [hd] at hdesc
                exact ⟨hdesc.1, rfl, rfl⟩
            | live desc =>
                rw [hd] at hdesc
                exact ⟨⟨desc, hdesc.1⟩, rfl, rfl⟩
            | stale =>
                rw [hd] at hdesc
                exact ⟨hdesc.1, rfl, rfl⟩
          set := ⟨columns, _, rfl, ⟨.inr rfl, .inr ⟨_, rfl, rfl, rfl⟩⟩, rfl, rfl⟩
          sets := fun herror hdecode =>
            ⟨hflush herror hdecode, rfl, _, rfl, fun hrow => nomatch hrow⟩ }

omit dec in
/-- Both engines parse the same descriptor, if both accept it. -/
theorem Agree.parse_eq (h : Agree g s n) {desc desc' : DbosTupleDesc}
    (hparse : DbosTupleDesc.parse payload g.columns = .ok desc)
    (hparse' : DbosTupleDesc.parse payload g.nativeColumns = .ok desc') : desc = desc' := by
  unfold Ground.nativeColumns at hparse'
  cases hdescribed : g.described with
  | true =>
      rw [hdescribed, if_pos rfl, hparse] at hparse'
      cases hparse'
      rfl
  | false =>
      rw [hdescribed, if_neg Bool.false_ne_true] at hparse'
      cases hcolumns : g.columns with
      | none =>
          rw [hcolumns, hparse'] at hparse
          cases hparse
          rfl
      | some columns =>
          obtain ⟨earlier, rfl⟩ := h.binaryColumns hdescribed columns hcolumns
          rw [hcolumns] at hparse
          exact DbosTupleDesc.parse_toColumnDescs hparse hparse'

omit dec in
/-- A descriptor for a set that is open, or announced by another. -/
theorem Agree.redescribe (h : Agree g s n) (hopen : g.set ≠ .closed) {desc : DbosTupleDesc}
    (hparse : DbosTupleDesc.parse payload g.columns = .ok desc) :
    Agree { g with columns := g.columns <|> some desc.toColumnDescs, descriptor := .live desc }
      (s.describeStandard desc) (n.describeStandard desc) := by
  have hset : ∃ columns open', s.cachedColumns = some columns ∧ s.Rows columns ∧
      n.current = some open' ∧ open'.columns = columns := by
    have hset := h.set
    cases hg : g.set with
    | closed => exact absurd hg hopen
    | announced | opened =>
        rw [hg] at hset
        exact hset
  obtain ⟨columns, open', hcached, hrows, hcurrent, hcolumns⟩ := hset
  have hg : g.columns = some columns := h.columns.symm.trans hcached
  have hkeep : (g.columns <|> some desc.toColumnDescs) = g.columns := by
    rw [hg]
    rfl
  have hsync : s.describeStandard desc =
      { s with
        descriptor := some desc
        nullability := some (desc.fields.map (·.nullAllowed))
        current := s.current.map fun set =>
          { set with nullability := some (desc.fields.map (·.nullAllowed)) } } := by
    simp [SyncState.describeStandard, hcached]
  rw [hkeep, hsync, NativeState.describeStandard, NativeState.openSet, hcurrent]
  refine { h with
    descriptor := ⟨rfl, rfl, rfl, columns, hcached, ?_⟩
    set := ?_
    sets := ?_ }
  · exact ((DbosTupleDesc.parse_ok hparse).1 columns hg).symm
  · have hrows' : SyncState.Rows { s with
        descriptor := some desc
        nullability := some (desc.fields.map (·.nullAllowed))
        current := s.current.map fun set =>
          { set with nullability := some (desc.fields.map (·.nullAllowed)) } } columns := by
      refine ⟨hrows.1, ?_⟩
      rcases hrows.2 with ⟨hnone, hrow⟩ | ⟨set, hsome, hset, hrow⟩
      · exact .inl ⟨by rw [hnone]; rfl, hrow⟩
      · exact .inr ⟨⟨set.columns, set.rows, some (desc.fields.map (·.nullAllowed))⟩,
          by rw [hsome]; rfl, hset, hrow⟩
    cases hset : g.set with
    | closed => exact absurd hset hopen
    | announced | opened => exact ⟨columns, _, hcached, hrows', rfl, hcolumns⟩
  · intro herror hdecode
    obtain ⟨hsets, hmatch⟩ := h.sets herror hdecode
    refine ⟨hsets, ?_⟩
    cases hset : g.set with
    | closed => trivial
    | announced =>
        rw [hset] at hmatch
        obtain ⟨hnone, columns', hsome⟩ := hmatch
        cases hcurrent.symm.trans hsome
        exact ⟨by rw [hnone]; rfl, columns', rfl⟩
    | opened hasRow =>
        rw [hset] at hmatch
        obtain ⟨heq, open'', hsome, hrow⟩ := hmatch
        cases hcurrent.symm.trans hsome
        exact ⟨by rw [heq, hsome]; rfl, _, rfl, hrow⟩

omit dec in
/-- A descriptor without an open set: the asynchronous engine opens one, the synchronous engine
waits for its first row. -/
theorem Agree.announce (h : Agree g s n) (hclosed : g.set = .closed) {desc : DbosTupleDesc}
    (hparse : DbosTupleDesc.parse payload g.columns = .ok desc)
    (hsame : g.described = true ∨
      (g.columns <|> some desc.toColumnDescs) = some desc.toColumnDescs) :
    Agree { g with
            columns := g.columns <|> some desc.toColumnDescs
            descriptor := .live desc
            set := .announced }
      (s.describeStandard desc) (n.describeStandard desc) := by
  obtain ⟨hcurrent, hcurrent', hrow, hmetadata⟩ : SetState.closed.Holds s n := hclosed ▸ h.set
  have hsets (herror : n.error = none) (hdecode : n.decodeError = none) :=
    (h.sets herror hdecode).1
  have hnative := h.nativeColumns
  unfold Ground.nativeColumns at hnative
  rw [NativeState.describeStandard, NativeState.openSet, hcurrent']
  cases hcolumns : g.columns with
  | none =>
      have hdescribed : g.described = false := by
        by_contra hd
        exact h.described (by simpa using hd) hcolumns
      have hcached : s.cachedColumns = none := h.columns.trans hcolumns
      rw [hdescribed] at hnative
      have hsync : s.describeStandard desc =
          { s with
            descriptor := some desc
            nullability := some (desc.fields.map (·.nullAllowed))
            cachedColumns := some desc.toColumnDescs
            rowMetadata := some desc.toColumnDescs
            current := none } := by
        simp [SyncState.describeStandard, hcached, hcurrent]
      rw [hsync, hnative]
      exact { h with
        columns := rfl
        nativeColumns := by simp [Ground.nativeColumns, hdescribed]
        described := fun _ => nofun
        binaryColumns := fun _ columns hc => ⟨desc, (Option.some.inj hc).symm⟩
        descriptor := ⟨rfl, rfl, rfl, _, rfl, desc.toColumnDescs_length.symm⟩
        set := ⟨_, _, rfl, ⟨.inr rfl, .inl ⟨rfl, hrow⟩⟩, rfl, rfl⟩
        sets := fun herror hdecode => ⟨hsets herror hdecode, rfl, _, rfl⟩ }
  | some columns =>
      have hcached : s.cachedColumns = some columns := h.columns.trans hcolumns
      have hnative' : n.cachedColumns.getD desc.toColumnDescs = columns := by
        rw [hnative]
        rcases hsame with hdescribed | heq
        · simp [hdescribed, hcolumns]
        · rw [hcolumns] at heq
          have heq' : columns = desc.toColumnDescs := Option.some.inj heq
          cases g.described <;> simp [hcolumns, heq']
      have hsync : s.describeStandard desc =
          { s with
            descriptor := some desc
            nullability := some (desc.fields.map (·.nullAllowed))
            current := none } := by
        simp [SyncState.describeStandard, hcached, hcurrent]
      have hfields := (DbosTupleDesc.parse_ok hparse).1 columns hcolumns
      rw [hsync, hnative']
      exact { h with
        columns := hcached
        nativeColumns := by
          rw [hcolumns] at hnative
          exact hnative
        described := fun _ => nofun
        binaryColumns := fun hd columns' hc => h.binaryColumns hd columns' (hcolumns.trans hc)
        descriptor := ⟨rfl, rfl, rfl, columns, hcached, hfields.symm⟩
        set := ⟨columns, _, hcached, ⟨.inl hmetadata, .inl ⟨rfl, hrow⟩⟩, rfl, rfl⟩
        sets := fun herror hdecode => ⟨hsets herror hdecode, rfl, _, rfl⟩ }

omit dec in
theorem Agree.describeStandard (h : Agree g s n) (hlen : payload.length ≤ maxProtocolPayload) :
    (g.describeStandard payload).Holds
      ((DbosTupleDesc.parse payload s.cachedColumns).map s.describeStandard)
      ((counted "rowDescriptionStandardPayload" false payload).bind fun data =>
        (DbosTupleDesc.parse data n.cachedColumns).map n.describeStandard) := by
  rw [h.columns, h.nativeColumns]
  by_cases hempty : payload = []
  · subst hempty
    obtain ⟨e, hcounted, hfault⟩ := counted_nil "rowDescriptionStandardPayload"
    rw [hcounted]
    exact ⟨_, _, rfl, rfl, rfl, hfault⟩
  rw [counted_of_ne_nil hempty hlen]
  dsimp only [Except.bind, Ground.describeStandard]
  cases hparse : DbosTupleDesc.parse payload g.columns with
  | error e =>
      cases hparse' : DbosTupleDesc.parse payload g.nativeColumns with
      | error e' =>
          exact ⟨_, _, rfl, rfl, DbosTupleDesc.parse_error hparse,
            DbosTupleDesc.parse_error hparse'⟩
      | ok desc => trivial
  | ok desc =>
      cases hparse' : DbosTupleDesc.parse payload g.nativeColumns with
      | error e' => trivial
      | ok desc' =>
          obtain rfl := h.parse_eq hparse hparse'
          dsimp only [Except.map]
          by_cases hclosed : g.set = .closed
          · rw [if_neg (by simp [hclosed])]
            split
            case isFalse => trivial
            case isTrue hsame =>
              simp only [Bool.or_eq_true, beq_iff_eq] at hsame
              exact ⟨_, _, rfl, rfl, h.announce hclosed hparse hsame⟩
          · rw [if_pos hclosed]
            exact ⟨_, _, rfl, rfl, h.redescribe hclosed hparse⟩

omit dec in
theorem Agree.addNotice (h : Agree g s n) (data : Bytes) :
    Agree g (s.addNotice data) (n.addNotice data) := by
  dsimp only [SyncState.addNotice, NativeState.addNotice]
  split
  · exact h
  · exact { h with notices := congrArg (· ++ _) h.notices }

omit dec in
theorem Agree.addError (h : Agree g s n) (data : Bytes) :
    Agree g (s.addError data) (n.addError data) := by
  unfold SyncState.addError NativeState.addError
  refine { h with
    error := congrArg (· <|> _) h.error
    database := fun e he => ?_
    sets := fun herror => ?_ }
  · cases hn : n.error with
    | none =>
        simp only [hn] at he
        cases he
        rfl
    | some e' =>
        simp only [hn] at he
        cases he
        exact h.database _ hn
  · cases hn : n.error <;> simp [hn] at herror

theorem Agree.framed (h : Agree g s n) (code : UInt8) {header : Bytes}
    (hcode : Code.isFramed code = true) (hheader : header.length = 4)
    (hlen : payload.length ≤ maxProtocolPayload) :
    (g.next dec (.framed code header payload hcode hheader hlen)).Holds
      (syncFramed dec s code payload) (nativeFramed dec n code payload) := by
  unfold Ground.next syncFramed nativeFramed
  by_cases ht : code = Code.rowDescription
  · subst ht
    exact h.describe hlen
  by_cases hd : code = Code.dataRow
  · subst hd
    exact h.textRow dec hlen
  by_cases hx : code = Code.rowDescriptionStandard
  · subst hx
    exact h.describeStandard hlen
  by_cases hc : code = Code.commandComplete
  · subst hc
    exact h.complete hlen
  simp only [ht, hd, hx, hc, if_false]
  by_cases he : code = Code.errorResponse
  · subst he
    by_cases hempty : payload = []
    · simp [hempty, Progress.Holds]
    · simp only [hempty, if_true, if_false, counted_of_ne_nil hempty hlen]
      exact ⟨_, _, rfl, rfl, h.addError payload⟩
  simp only [he, if_false]
  by_cases hn : code = Code.noticeResponse
  · simp only [hn, if_true]
    exact ⟨_, _, rfl, rfl, h.addNotice payload⟩
  · simp only [hn, if_false]
    exact ⟨_, _, rfl, rfl, h⟩

theorem Agree.step (h : Agree g s n) (m : Message) :
    (g.next dec m).Holds (syncStep dec s m) (nativeStep dec n m) := by
  cases m with
  | framed code header payload hcode hheader hlen => exact h.framed dec code hcode hheader hlen
  | control code header hcode hheader => exact ⟨_, _, rfl, rfl, h⟩
  | rowStandard header reserved payload hheader hreserved hlen => exact h.binaryRow dec hlen

/-- A whole response on common ground. -/
theorem Agree.run (h : Agree g s n) {ms : Messages} (hcommon : g.Common dec ms) :
    (∃ e e', runSteps (syncStep dec) s ms = .error e ∧ runSteps (nativeStep dec) n ms = .error e' ∧
        e.isProtocolFault = true ∧ e'.isProtocolFault = true) ∨
      ∃ g' s' n', runSteps (syncStep dec) s ms = .ok s' ∧ runSteps (nativeStep dec) n ms = .ok n' ∧
        Agree g' s' n' ∧ g'.closes = true := by
  induction ms generalizing g s n with
  | nil => exact .inr ⟨g, s, n, rfl, rfl, h, hcommon⟩
  | cons entry rest ih =>
      obtain ⟨padding, m⟩ := entry
      have hstep := h.step dec m
      simp only [Ground.Common] at hcommon
      simp only [runSteps]
      cases hnext : g.next dec m with
      | differs =>
          rw [hnext] at hcommon
          exact hcommon.elim
      | stops =>
          rw [hnext] at hstep
          obtain ⟨e, e', hs, hn, hfaults⟩ := hstep
          rw [hs, hn]
          exact .inl ⟨e, e', rfl, rfl, hfaults⟩
      | goes g' =>
          rw [hnext] at hstep hcommon
          obtain ⟨s', n', hs, hn, h'⟩ := hstep
          rw [hs, hn]
          exact ih h' hcommon

omit dec in
theorem Agree.finish (h : Agree g s n) (hcloses : g.closes = true) : s.finish = n.finish := by
  have hflush := h.flush hcloses
  simp only [SyncState.finish, NativeState.finish, NativeState.finishSet_eq]
  rw [show s.flushCurrent.error = n.error from h.error]
  cases herror : n.error with
  | some e => rfl
  | none =>
      dsimp only
      rw [show s.flushCurrent.deferredDecode = n.decodeError from h.decodeError]
      cases hdecode : n.decodeError with
      | some e => rfl
      | none =>
          show (⟨.ok ⟨s.flushCurrent.sets, s.rowsAffected, s.notices⟩, false⟩ : Drained V) = _
          rw [hflush herror hdecode, h.rowsAffected, h.notices]

end Messages

/-! ## Sessions -/

/-- What the caller of a drain learns, and whether the session stays usable. -/
structure Verdict (V : Type) where
  result : Except ErrorKind (QueryResult V)
  usable : Bool
  deriving DecidableEq, Repr

/-- The verdict on a drain, under an engine's rule for errors. -/
def verdict (usable : NzError → Bool → Bool) : Outcome NzError (Drained V) → Option (Verdict V)
  | .ok ⟨.ok result, _⟩ => some ⟨.ok result, true⟩
  | .ok ⟨.error e, synced⟩ => some ⟨.error e.kind, usable e synced⟩
  | .error e => some ⟨.error e.kind, usable e false⟩
  | .unfinished => none

/-- `mark_faulted_after` leaves the socket connected. -/
def syncUsable (e : NzError) (synced : Bool) : Bool :=
  (Connection.markFaultedAfter {} synced e).connected

/-- `drive_operation`, and the correction for a decoding error. -/
def nativeUsable (e : NzError) (synced : Bool) : Bool :=
  e.kind = .database || synced

theorem usable_of_synced (e : NzError) : syncUsable e true = nativeUsable e true := by
  simp [syncUsable, nativeUsable, Connection.markFaultedAfter]

theorem usable_of_database {e : NzError} (h : e.kind = .database) :
    syncUsable e false = nativeUsable e false := by
  cases e <;> first | rfl | cases h

theorem verdict_of_fault {e : NzError} (h : e.isProtocolFault = true) :
    verdict (V := V) syncUsable (.error (drainError e)) = some ⟨.error .protocol, false⟩ ∧
      verdict (V := V) nativeUsable (.error e) = some ⟨.error .protocol, false⟩ := by
  cases e <;> first | exact ⟨rfl, rfl⟩ | cases h

/-- A response that ends under the same errors gets the same verdict. -/
theorem Agree.verdict_eq {g : Ground} {s : SyncState V} {n : NativeState V} (h : Agree g s n)
    (hcloses : g.closes = true) :
    verdict syncUsable (.ok s.finish) = verdict nativeUsable (.ok n.finish) := by
  rw [h.finish hcloses]
  simp only [NativeState.finish, NativeState.finishSet_eq]
  cases herror : n.error with
  | some e =>
      show some (Verdict.mk _ _) = some (Verdict.mk _ _)
      rw [usable_of_database (h.database e herror)]
  | none =>
      cases hdecode : n.decodeError with
      | some e =>
          show some (Verdict.mk _ _) = some (Verdict.mk _ _)
          rw [usable_of_synced e]
      | none => rfl

/-- The peer that the asynchronous buffer looks like. -/
abbrev nativeView : Peer NzError View :=
  Handshake.viewPeer Handshake.asyncClosedMessage Handshake.asyncCheck

theorem agree_start : Agree (V := V) {} {} {} where
  rowsAffected := rfl
  notices := rfl
  error := rfl
  database := nofun
  decodeError := rfl
  columns := rfl
  nativeColumns := rfl
  described := nofun
  binaryColumns := nofun
  descriptor := ⟨rfl, rfl, rfl⟩
  set := ⟨rfl, rfl, rfl, rfl⟩
  sets := fun _ _ => ⟨rfl, trivial⟩

/-- On a response that keeps to common ground both engines come to the same verdict, and where it
is a result they have consumed the response and nothing behind it. -/
theorem engines_agree (files : ExternalFiles) (dec : Decoder V) {r : WireResponse}
    (hcommon : Ground.Common dec {} r.messages) {b : ReadBuffer} {s : Stream} {rest : View}
    (hview : b.view s = bytesView r.encode ++ rest) {b' : Bytes} {s' : Stream} {rest' : View}
    (hview' : bytesView b' ++ s'.items (fun _ => false) = bytesView r.encode ++ rest')
    {fuel fuel' : Nat} (hfuel : r.encode.length ≤ fuel) (hfuel' : r.encode.length ≤ fuel') :
    let sync := (drainResponse files dec fuel).run Handshake.syncReader.port (b, s)
    let native := (Native.drainResponse files dec fuel').run Handshake.nativeReader.port (b', s')
    ∃ v, verdict syncUsable sync.outcome = some v ∧ verdict nativeUsable native.outcome = some v ∧
      (v.result.isOk = true → sync.peer.1.view sync.peer.2 = rest ∧
        bytesView native.peer.1 ++ (native.peer.2.items fun _ => false) = rest') := by
  intro sync native
  have hsync := drainResponse_steps files dec hfuel rest
  have hnative : Steps nativeView (Native.drainResponse files dec fuel')
      (bytesView r.encode ++ rest')
      ((runSteps (nativeStep dec) {} r.messages).map NativeState.finish) rest' :=
    (Native.native_walks files dec (viewPeer_byteFed fun _ => asyncCheck_ok)).response {} hfuel'
      rest'
  rw [← hview] at hsync
  rw [← hview'] at hnative
  have hends : Ends _ _ sync _ _ := hsync.ends Handshake.syncReader_serves
  have hends' : Ends _ _ native _ _ := Steps.ends Handshake.nativeReader_serves hnative
  obtain ⟨e, e', hrun, hrun', hfault, hfault'⟩ | ⟨g, st, st', hrun, hrun', hagree, hcloses⟩ :=
    agree_start.run dec hcommon
  · rw [hrun] at hends
    rw [hrun'] at hends'
    refine ⟨⟨.error .protocol, false⟩, ?_, ?_, nofun⟩
    · rw [show sync.outcome = .error (drainError e) from hends]
      exact (verdict_of_fault hfault).1
    · rw [show native.outcome = .error e' from hends']
      exact (verdict_of_fault hfault').2
  · rw [hrun] at hends
    rw [hrun'] at hends'
    obtain ⟨hout, hrest⟩ := hends
    obtain ⟨hout', hrest'⟩ := hends'
    have hverdict := hagree.verdict_eq hcloses
    rw [← hout, ← hout'] at hverdict
    obtain ⟨v, hv⟩ : ∃ v, verdict syncUsable sync.outcome = some v := by
      rw [hout]
      rcases st.finish with ⟨_ | _, _⟩ <;> exact ⟨_, rfl⟩
    exact ⟨v, hv, hverdict.symm.trans hv, fun _ => ⟨hrest, hrest'⟩⟩

/-- One text column, one row of it and its completion. -/
def textResponse : WireResponse :=
  ⟨[(0, .framed Code.rowDescription (zeros 4)
        ([0, 1, 97, 0, 0, 0, 0, 23, 0, 4] ++ zeros 5) (by decide) blankHeader_length
        (by decide)),
      (0, .framed Code.dataRow (zeros 4) [128, 0, 0, 0, 5, 55] (by decide) blankHeader_length
        (by decide)),
      (1, .framed Code.commandComplete (zeros 4) [83, 69, 76, 69, 67, 84, 0]
        commandComplete_isFramed blankHeader_length (by decide))],
    0, Code.readyForQuery, zeros 4, readyForQuery_isReady, blankHeader_length⟩

theorem text_response_agrees :
    Ground.Common shapeDecoder {} textResponse.messages ∧
      ∃ v, verdict syncUsable ((drainResponse noFiles shapeDecoder 100).run
          Handshake.syncReader.port (buffered textResponse.encode, [])).outcome = some v ∧
        verdict nativeUsable ((Native.drainResponse noFiles shapeDecoder 100).run
          Handshake.nativeReader.port (textResponse.encode, [])).outcome = some v := by
  have hcommon : Ground.Common shapeDecoder {} textResponse.messages :=
    (rfl : Ground.closes _ = true)
  have hfuel : textResponse.encode.length ≤ 100 := by decide
  have hempty (bytes : Bytes) :
      bytesView bytes ++ Stream.items (fun _ => false) [] = bytesView bytes ++ [] := rfl
  obtain ⟨v, hsync, hnative, -⟩ := engines_agree noFiles shapeDecoder hcommon
    (buffered_view _) (hempty textResponse.encode) hfuel hfuel
  exact ⟨hcommon, v, hsync, hnative⟩

/-- A completion without a tag. -/
def untaggedResponse : WireResponse :=
  ⟨[(0, .framed Code.commandComplete (zeros 4) [] commandComplete_isFramed blankHeader_length
      (by decide))], 0,
    Code.readyForQuery, zeros 4, readyForQuery_isReady, blankHeader_length⟩

/-- The synchronous engine takes it for a result, the asynchronous one for a protocol error. -/
theorem untagged_completion_splits :
    ¬ ∀ (b : ReadBuffer) (s : Stream) (b' : Bytes) (s' : Stream) (r : WireResponse) (fuel : Nat),
      b.view s = bytesView r.encode →
      bytesView b' ++ s'.items (fun _ => false) = bytesView r.encode →
      r.encode.length ≤ fuel →
      verdict syncUsable ((drainResponse noFiles shapeDecoder fuel).run
          Handshake.syncReader.port (b, s)).outcome =
        verdict nativeUsable ((Native.drainResponse noFiles shapeDecoder fuel).run
          Handshake.nativeReader.port (b', s')).outcome := by
  intro h
  have hverdict := h (buffered untaggedResponse.encode) [] untaggedResponse.encode []
    untaggedResponse 50 (by rw [buffered_view, List.append_nil]) (List.append_nil _) (by decide)
  have hresult : (some ⟨.ok ⟨[], -1, []⟩, true⟩ : Option (Verdict Unit)) =
      some ⟨.error .protocol, false⟩ := hverdict
  cases hresult

end NzRust.Response
