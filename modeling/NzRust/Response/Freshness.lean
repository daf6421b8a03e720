import NzRust.Response.Runs

/-!
# Which descriptor a row is read with

The history of a drain lists the messages it has taken that describe or carry
binary rows. It is kept beside the state of an engine and changes nothing that
the engine does. A row is read with the last descriptor received, also when a
text description has come in between; so the rows have fresh descriptors as
long as the server sends one between a description and its first row.
-/

namespace NzRust.Response

open Wire
open Handshake (Step)

/-! ## Histories -/

/-- The messages that bear on binary rows: `T`, `X` and `Y`. -/
inductive Kind where
  | description
  | descriptor
  | row
  deriving DecidableEq, Repr

/-- Such a message, as it was taken: a row with the descriptor it was read with and the columns of
the set that it went to. -/
inductive Event (V : Type) where
  | description
  | descriptor (desc : DbosTupleDesc)
  | row (desc : DbosTupleDesc) (columns : List ColumnDesc) (decoded : Decoded V)

variable {V : Type}

def Event.kind : Event V → Kind
  | .description => .description
  | .descriptor _ => .descriptor
  | .row _ _ _ => .row

/-- Every element of a list, with the elements before it, meets `Q`. -/
def Holds {α : Type} (Q : List α → α → Prop) (l : List α) : Prop :=
  ∀ before a after, l = before ++ a :: after → Q before a

theorem Holds.nil {α : Type} (Q : List α → α → Prop) : Holds Q [] := by
  intro before a after h
  cases before <;> cases h

theorem holds_snoc {α : Type} {Q : List α → α → Prop} {l : List α} {a : α} :
    Holds Q (l ++ [a]) ↔ Holds Q l ∧ Q l a := by
  constructor
  · intro h
    refine ⟨?_, h l a [] rfl⟩
    intro before b after hl
    exact h before b (after ++ [a]) (by rw [hl, List.append_assoc, List.cons_append])
  · rintro ⟨hl, ha⟩ before b after h
    rcases List.eq_nil_or_concat after with rfl | ⟨after, c, rfl⟩
    · obtain ⟨rfl, hlast⟩ := List.append_inj' h rfl
      rw [← List.singleton_inj.mp hlast]
      exact ha
    · rw [List.concat_eq_append, ← List.cons_append, ← List.append_assoc] at h
      exact hl before b after (List.append_inj' h rfl).1

abbrev History (V : Type) := List (Event V)

namespace History

/-- The last descriptor received. -/
def latest (h : History V) : Option DbosTupleDesc :=
  h.foldl (fun last e =>
    match e with
    | .descriptor desc => some desc
    | _ => last) none

/-- The descriptor received since the last description. -/
def given (h : History V) : Option DbosTupleDesc :=
  h.foldl (fun last e =>
    match e with
    | .description => none
    | .descriptor desc => some desc
    | .row _ _ _ => last) none

/-- Every row was read with the descriptor given for it, and has a value for each column of its
set. -/
def Fresh (h : History V) : Prop :=
  Holds (fun before e =>
    match e with
    | .row desc columns decoded =>
        given before = some desc ∧ ∀ values, decoded = .row values → values.length = columns.length
    | _ => True) h

end History

/-- Whether a descriptor has come since the last description. -/
def announced (kinds : List Kind) : Bool :=
  kinds.foldl (fun yes kind =>
    match kind with
    | .description => false
    | .descriptor => true
    | .row => yes) false

/-- No row comes before a descriptor that is newer than the last description. -/
def Ordered (kinds : List Kind) : Prop :=
  Holds (fun before kind => kind = .row → announced before = true) kinds

namespace History

theorem latest_snoc (h : History V) (e : Event V) :
    latest (h ++ [e]) =
      match e with
      | .descriptor desc => some desc
      | _ => latest h := by
  unfold latest
  rw [List.foldl_append]
  rfl

theorem given_snoc (h : History V) (e : Event V) :
    given (h ++ [e]) =
      match e with
      | .description => none
      | .descriptor desc => some desc
      | .row _ _ _ => given h := by
  unfold given
  rw [List.foldl_append]
  rfl

theorem announced_snoc (kinds : List Kind) (kind : Kind) :
    announced (kinds ++ [kind]) =
      match kind with
      | .description => false
      | .descriptor => true
      | .row => announced kinds := by
  unfold announced
  rw [List.foldl_append]
  rfl

/-- A descriptor has been given exactly when it is announced, and then it is the latest. -/
theorem given_eq (h : History V) :
    given h = if announced (h.map Event.kind) then latest h else none := by
  induction h using List.reverseRecOn with
  | nil => rfl
  | append_singleton h e ih =>
      rw [List.map_append, List.map_singleton, given_snoc, announced_snoc, latest_snoc]
      cases e with
      | description => rfl
      | descriptor desc => rfl
      | row desc columns decoded => exact ih

theorem ordered_snoc {h : History V} {e : Event V} :
    Ordered ((h ++ [e]).map Event.kind) ↔
      Ordered (h.map Event.kind) ∧ (e.kind = .row → announced (h.map Event.kind) = true) := by
  rw [List.map_append, List.map_singleton]
  exact holds_snoc

/-- Rows that have fresh descriptors come in order. -/
theorem Fresh.ordered {h : History V} (hfresh : Fresh h) : Ordered (h.map Event.kind) := by
  induction h using List.reverseRecOn with
  | nil => exact .nil _
  | append_singleton h e ih =>
      obtain ⟨hh, he⟩ := holds_snoc.mp hfresh
      refine ordered_snoc.mpr ⟨ih hh, ?_⟩
      intro hrow
      cases e with
      | description => cases hrow
      | descriptor desc => cases hrow
      | row desc columns decoded =>
          have hgiven : given h = some desc := he.1
          rw [given_eq] at hgiven
          by_contra hnot
          rw [if_neg hnot] at hgiven
          cases hgiven

end History

/-! ## A drain that keeps its history -/

section Traced

variable {S R K : Type} (E : Engine V S R K) (columnsOf : S → List ColumnDesc)

/-- What a framed message adds to the history. -/
def framedEvents (code : UInt8) (st : S) : History V :=
  if code = Code.rowDescription then [.description]
  else if code = Code.rowDescriptionStandard then
    match E.descriptor st with
    | .ok desc => [.descriptor desc]
    | .error _ => []
  else []

/-- The engine with its history. `columnsOf` names the columns of the set that a row went to. -/
def traced : Engine V (S × History V) R K where
  descriptor st := E.descriptor st.1
  row st desc decoded :=
    (E.row st.1 desc decoded).map fun stored =>
      ((stored.1, st.2 ++ [.row desc (columnsOf stored.1) decoded]), stored.2)
  available k st desc decoded :=
    (E.available k st.1 desc decoded).map fun st' =>
      (st', st.2 ++ [.row desc (columnsOf st') decoded])
  framed st code := (E.framed st.1 code).bind fun st' => .ret (st', st.2 ++ framedEvents E code st')
  finish st := (((E.finish st.1).1, st.2), (E.finish st.1).2)

variable {E} {Open : K → DbosTupleDesc → S → Prop}

theorem traced_lawful (hE : E.Lawful Open) :
    (traced E columnsOf).Lawful fun k desc st => Open k desc st.1 where
  framed_total st code := .bind (hE.framed_total st.1 code) fun _ => .ret _
  row_open {st st' desc decoded k} hdesc hrow := by
    cases hplain : E.row st.1 desc decoded with
    | error e =>
        simp only [traced, hplain, Except.map] at hrow
        cases hrow
    | ok stored =>
        simp only [traced, hplain, Except.map] at hrow
        obtain ⟨stored, o⟩ := stored
        cases hrow
        exact hE.row_open hdesc hplain
  descriptor hopen := hE.descriptor hopen
  available_error {k desc st decoded e} hopen h := by
    cases hplain : E.available k st.1 desc decoded with
    | error e' =>
        simp only [traced, hplain, Except.map] at h
        cases h
        simp only [traced, hE.available_error hopen hplain, Except.map]
    | ok st' =>
        simp only [traced, hplain, Except.map] at h
        cases h
  available_ok {k desc st st' decoded} hopen h := by
    cases hplain : E.available k st.1 desc decoded with
    | error e =>
        simp only [traced, hplain, Except.map] at h
        cases h
    | ok stored =>
        obtain ⟨⟨o, hrow⟩, hopen'⟩ := hE.available_ok hopen hplain
        simp only [traced, hplain, Except.map] at h
        cases h
        refine ⟨⟨o, ?_⟩, hopen'⟩
        simp only [traced, hrow, Except.map]

/-! ### The history changes nothing -/

theorem traced_erase :
    (traced E columnsOf).Maps E (fun _ => True) Prod.fst fun p => (p.1.1, p.2) where
  descriptor _ := rfl
  row {st} _ desc decoded := by
    simp only [traced]
    cases E.row st.1 desc decoded with
    | error e => rfl
    | ok stored => rfl
  available {st} _ k desc decoded := by
    simp only [traced]
    cases E.available k st.1 desc decoded with
    | error e => rfl
    | ok st' => rfl
  framed {st} _ code := by
    show _ = ((E.framed st.1 code).bind _).bind _
    rw [Prog.bind_assoc]
    exact (Prog.bind_ret _).symm
  finish _ := rfl
  row_keeps _ _ := trivial
  available_keeps _ _ := trivial
  framed_keeps _ _ := Returns.top _
  finish_keeps _ := trivial

def Ending.erase {σ : Type} (e : Ending (S × History V) R σ) : Ending S R σ :=
  ⟨e.outcome, e.state.1, e.sent, e.session⟩

variable (files : ExternalFiles) (dec : Decoder V)

/-- A drain with its history is the drain. -/
theorem drainResponseWithSink_erase (fuel : Nat) (st : S × History V)
    (session : ReadBuffer × Stream) :
    (drainResponseWithSink files dec (traced E columnsOf) fuel st session).erase =
      drainResponseWithSink files dec E fuel st.1 session := by
  rw [((traced_erase columnsOf).drainResponseWithSink files dec fuel trivial session).2]
  unfold Ending.image Ending.erase
  cases (drainResponseWithSink files dec (traced E columnsOf) fuel st session).outcome with
  | ok r => rfl
  | error e => rfl
  | unfinished => rfl

/-! ## What an engine does with descriptions -/

/-- What a framed message does to the descriptor and to the columns of an engine. `cachedOf` are the
columns of the last description. -/
structure Engine.FramedEffect (E : Engine V S R K) (Uniform : S → Prop)
    (cachedOf : S → Option (List ColumnDesc)) (st : S) (code : UInt8) (st' : S) : Prop where
  uniform : Uniform st'
  descriptor : code ≠ Code.rowDescriptionStandard → E.descriptor st' = E.descriptor st
  cached : code ≠ Code.rowDescription → code ≠ Code.rowDescriptionStandard →
    cachedOf st' = cachedOf st
  standard : code = Code.rowDescriptionStandard →
    ∃ desc columns, E.descriptor st' = .ok desc ∧ cachedOf st' = some columns ∧
      desc.numFields = columns.length

/-- What all messages do to them. -/
structure Engine.Describes (E : Engine V S R K) (Uniform : S → Prop)
    (cachedOf : S → Option (List ColumnDesc)) (columnsOf : S → List ColumnDesc) : Prop where
  framed : ∀ {st}, Uniform st → ∀ code, Returns (E.FramedEffect Uniform cachedOf st code)
    (E.framed st code)
  row : ∀ {st st' desc decoded o}, Uniform st → E.descriptor st = .ok desc →
    E.row st desc decoded = .ok (st', o) →
    Uniform st' ∧ E.descriptor st' = .ok desc ∧ cachedOf st' = cachedOf st ∧
      ∀ values, decoded = .row values → cachedOf st = some (columnsOf st')
  finish : ∀ {st}, Uniform st → Uniform (E.finish st).1 ∧
    E.descriptor (E.finish st).1 = E.descriptor st ∧ cachedOf (E.finish st).1 = cachedOf st

/-- The state agrees with the history: it holds the last descriptor, and one that was given for the
current columns has as many fields. -/
structure Agrees (E : Engine V S R K) (Uniform : S → Prop) (cachedOf : S → Option (List ColumnDesc))
    (st : S × History V) : Prop where
  uniform : Uniform st.1
  latest : (E.descriptor st.1).toOption = History.latest st.2
  count : ∀ desc columns, History.given st.2 = some desc → cachedOf st.1 = some columns →
    desc.numFields = columns.length
  fresh : Ordered (st.2.map Event.kind) → History.Fresh st.2

variable {columnsOf} {dec} {Uniform : S → Prop} {cachedOf : S → Option (List ColumnDesc)}

theorem Agrees.same {st st' : S} {h : History V} (hst : Agrees E Uniform cachedOf (st, h))
    (huniform : Uniform st') (hdesc : E.descriptor st' = E.descriptor st)
    (hcached : cachedOf st' = cachedOf st) : Agrees E Uniform cachedOf (st', h) where
  uniform := huniform
  latest := by
    rw [hdesc]
    exact hst.latest
  count desc columns hgiven hcolumns := hst.count desc columns hgiven (hcached.symm.trans hcolumns)
  fresh := hst.fresh

/-- Events other than rows keep the rows before them fresh. -/
theorem Agrees.fresh_snoc {st : S} {h : History V} (hst : Agrees E Uniform cachedOf (st, h))
    {e : Event V} (he : e.kind ≠ .row) :
    Ordered ((h ++ [e]).map Event.kind) → History.Fresh (h ++ [e]) := by
  intro hordered
  refine holds_snoc.mpr ⟨hst.fresh (History.ordered_snoc.mp hordered).1, ?_⟩
  cases e with
  | description => trivial
  | descriptor desc => trivial
  | row desc columns decoded => exact absurd rfl he

theorem Agrees.describe {st st' : S} {h : History V} (hst : Agrees E Uniform cachedOf (st, h))
    (huniform : Uniform st') (hdesc : E.descriptor st' = E.descriptor st) :
    Agrees E Uniform cachedOf (st', h ++ [.description]) where
  uniform := huniform
  latest := by
    rw [History.latest_snoc, hdesc]
    exact hst.latest
  count desc columns hgiven _ := by
    rw [History.given_snoc] at hgiven
    cases hgiven
  fresh := hst.fresh_snoc (by
    intro hfalse
    cases hfalse)

theorem Agrees.describeStandard {st st' : S} {h : History V}
    (hst : Agrees E Uniform cachedOf (st, h)) (huniform : Uniform st') {desc : DbosTupleDesc}
    {columns : List ColumnDesc} (hdesc : E.descriptor st' = .ok desc)
    (hcolumns : cachedOf st' = some columns) (hcount : desc.numFields = columns.length) :
    Agrees E Uniform cachedOf (st', h ++ [.descriptor desc]) where
  uniform := huniform
  latest := by
    rw [History.latest_snoc, hdesc]
    rfl
  count desc' columns' hgiven hcolumns' := by
    rw [History.given_snoc] at hgiven
    cases hgiven
    rw [hcolumns] at hcolumns'
    cases hcolumns'
    exact hcount
  fresh := hst.fresh_snoc (e := .descriptor desc) (by
    intro hfalse
    cases hfalse)

theorem Agrees.row {st st' : S} {h : History V} (hst : Agrees E Uniform cachedOf (st, h))
    {desc : DbosTupleDesc} {decoded : Decoded V} (hdesc : E.descriptor st = .ok desc)
    (hlength : ∀ values, decoded = .row values → values.length = desc.numFields)
    (hrow : Uniform st' ∧ E.descriptor st' = .ok desc ∧ cachedOf st' = cachedOf st ∧
      ∀ values, decoded = .row values → cachedOf st = some (columnsOf st')) :
    Agrees E Uniform cachedOf (st', h ++ [.row desc (columnsOf st') decoded]) where
  uniform := hrow.1
  latest := by
    have hlatest := hst.latest
    rw [hdesc] at hlatest
    rw [History.latest_snoc, hrow.2.1]
    exact hlatest
  count desc' columns hgiven hcolumns := by
    rw [History.given_snoc] at hgiven
    exact hst.count desc' columns hgiven (hrow.2.2.1.symm.trans hcolumns)
  fresh := by
    intro hordered
    obtain ⟨hbefore, hrow'⟩ := History.ordered_snoc.mp hordered
    have hlatest : some desc = History.latest h := by
      have := hst.latest
      rw [hdesc] at this
      exact this
    have hgiven : History.given h = some desc := by
      rw [History.given_eq, if_pos (hrow' rfl), ← hlatest]
    refine holds_snoc.mpr ⟨hst.fresh hbefore, hgiven, ?_⟩
    intro values hvalues
    rw [hlength values hvalues]
    exact hst.count desc _ hgiven (hrow.2.2.2 values hvalues)

theorem traced_keeps (hD : E.Describes Uniform cachedOf columnsOf) :
    (traced E columnsOf).Keeps dec (Agrees E Uniform cachedOf) where
  framed {st} hst code := by
    refine .seq (hD.framed hst.uniform code) ?_
    intro st' heffect
    obtain ⟨huniform, hdesc, hcached, hstandard⟩ := heffect
    refine .ret ?_
    unfold framedEvents
    by_cases ht : code = Code.rowDescription
    · rw [if_pos ht]
      exact hst.describe huniform (hdesc (by rw [ht]; decide))
    rw [if_neg ht]
    by_cases hx : code = Code.rowDescriptionStandard
    · obtain ⟨desc, columns, hnew, hcolumns, hcount⟩ := hstandard hx
      rw [if_pos hx, hnew]
      exact hst.describeStandard huniform hnew hcolumns hcount
    · rw [if_neg hx, List.append_nil]
      exact hst.same huniform (hdesc hx) (hcached ht hx)
  row {st st' desc payload o} hst hdesc hrow := by
    have hplain : E.descriptor st.1 = .ok desc := hdesc
    cases hstored : E.row st.1 desc (dec.dbos desc payload) with
    | error e =>
        simp only [traced, hstored, Except.map] at hrow
        cases hrow
    | ok stored =>
        simp only [traced, hstored, Except.map] at hrow
        cases hrow
        exact hst.row hplain (fun values hvalues => dec.dbos_length hvalues)
          (hD.row hst.uniform hplain hstored)
  finish {st} hst :=
    hst.same (hD.finish hst.uniform).1 (hD.finish hst.uniform).2.1 (hD.finish hst.uniform).2.2

/-- In every drain that keeps its history the rows are fresh exactly when they come in order. -/
theorem fresh_iff_ordered (hE : E.Lawful Open) (hD : E.Describes Uniform cachedOf columnsOf)
    (fuel : Nat) {st : S} (hst : Uniform st) (hnone : (E.descriptor st).toOption = none)
    (session : ReadBuffer × Stream) :
    let history :=
      (drainResponseWithSink files dec (traced E columnsOf) fuel (st, []) session).state.2
    History.Fresh history ↔ Ordered (history.map Event.kind) := by
  have hstart : Agrees E Uniform cachedOf (st, []) :=
    { uniform := hst
      latest := hnone
      count := by
        intro desc columns hgiven
        cases hgiven
      fresh := fun _ => .nil _ }
  exact ⟨History.Fresh.ordered, (drainResponseWithSink_keeps files dec (traced_lawful columnsOf hE)
    (traced_keeps hD) fuel session hstart).fresh⟩

end Traced

/-! ## The drain without a sink -/

namespace SyncState

/-- The columns of the set that a row went to. -/
def rowSetColumns (st : SyncState V) : List ColumnDesc :=
  (st.current.map (·.columns)).getD []

/-- The open set and the metadata of rows have the columns of the last description. -/
structure Uniform (st : SyncState V) : Prop where
  current : ∀ set, st.current = some set → st.cachedColumns = some set.columns
  rowColumns : ∀ columns, st.rowColumns = some columns → st.cachedColumns = some columns
  rowMetadata : ∀ columns, st.rowMetadata = some columns → st.cachedColumns = some columns
  described : ∀ desc, st.descriptor = some desc → ∃ columns, st.cachedColumns = some columns

theorem Uniform.flushCurrent {st : SyncState V} (h : Uniform st) : Uniform st.flushCurrent where
  current set hset := by cases hset
  rowColumns columns hcolumns := by cases hcolumns
  rowMetadata := h.rowMetadata
  described := h.described

theorem Uniform.describe (st : SyncState V) (columns : List ColumnDesc) :
    Uniform (st.describe columns) where
  current set hset := by
    cases hset
    rfl
  rowColumns _ h := h
  rowMetadata _ h := h
  described _ _ := ⟨columns, rfl⟩

theorem Uniform.describeStandard {st : SyncState V} (h : Uniform st) (desc : DbosTupleDesc) :
    Uniform (st.describeStandard desc) ∧
      (st.describeStandard desc).cachedColumns =
        some (st.cachedColumns.getD desc.toColumnDescs) := by
  unfold SyncState.describeStandard
  cases hcached : st.cachedColumns with
  | none =>
      -- nothing is described yet, so no set is open and no row has been read
      have hcurrent : st.current = none := by
        cases hset : st.current with
        | none => rfl
        | some set =>
            have := h.current set hset
            rw [hcached] at this
            cases this
      have hrow : st.rowColumns = none := by
        cases hrow : st.rowColumns with
        | none => rfl
        | some columns =>
            have := h.rowColumns columns hrow
            rw [hcached] at this
            cases this
      simp only [hcurrent, Option.isNone_none, Bool.and_self, if_true, Option.map_none]
      refine ⟨⟨?_, ?_, ?_, ?_⟩, rfl⟩
      · intro set hset
        cases hset
      · intro columns hcolumns
        rw [hrow] at hcolumns
        cases hcolumns
      · intro columns hcolumns
        exact hcolumns
      · intro desc' _
        exact ⟨_, rfl⟩
  | some columns =>
      simp only [Option.isNone_some, Bool.and_false, Bool.false_eq_true, if_false]
      refine ⟨⟨?_, ?_, ?_, ?_⟩, rfl⟩
      · intro set hset
        obtain ⟨old, hold, rfl⟩ := Option.map_eq_some_iff.mp hset
        rw [← hcached]
        exact h.current old hold
      · intro columns' hcolumns
        rw [← hcached]
        exact h.rowColumns columns' hcolumns
      · intro columns' hcolumns
        rw [← hcached]
        exact h.rowMetadata columns' hcolumns
      · intro desc' _
        exact ⟨_, rfl⟩

theorem Uniform.textColumns {st : SyncState V} (h : Uniform st) {columns : List ColumnDesc}
    (hcolumns : st.textColumns = some columns) : st.cachedColumns = some columns := by
  unfold SyncState.textColumns at hcolumns
  cases hrow : st.rowColumns with
  | some columns' =>
      rw [hrow] at hcolumns
      cases hcolumns
      exact h.rowColumns columns hrow
  | none =>
      rw [hrow] at hcolumns
      cases hcached : st.cachedColumns with
      | some columns' =>
          rw [hcached] at hcolumns
          exact hcolumns
      | none =>
          rw [hcached] at hcolumns
          obtain ⟨set, hset, rfl⟩ := Option.map_eq_some_iff.mp hcolumns
          rw [← hcached]
          exact h.current set hset

theorem Uniform.dbosColumns {st : SyncState V} (h : Uniform st) {desc : DbosTupleDesc}
    (hdesc : st.descriptor = some desc) : st.cachedColumns = some (st.dbosColumns desc) := by
  unfold SyncState.dbosColumns
  obtain ⟨columns, hcached⟩ := h.described desc hdesc
  cases hrow : st.rowColumns with
  | some columns' => exact h.rowColumns columns' hrow
  | none =>
      rw [hcached]
      rfl

/-- A row that is pushed goes to the open set, or opens one with its own columns. -/
theorem pushExistingRow_cases {st st' : SyncState V} {row : Row V}
    (h : st.pushExistingRow row = .ok st') :
    ∃ set columns, (st.current = some set ∨ set.columns = row.columns) ∧
      (columns = set.columns ∨ st.rowColumns = some columns) ∧
      st' = { st with current := some { set with rows := set.rows ++ [row] }
                      rowColumns := some columns } := by
  unfold SyncState.pushExistingRow at h
  dsimp only at h
  split at h
  · cases h
  next set rowColumns hopened =>
    split at h
    · cases h
    cases h
    cases hcurrent : st.current with
    | some current =>
        rw [hcurrent] at hopened
        cases hopened
        refine ⟨set, st.rowColumns.getD set.columns, .inl rfl, ?_, ?_⟩
        · cases st.rowColumns with
          | none => exact .inl rfl
          | some columns => exact .inr rfl
        · cases st.rowColumns with
          | none => rfl
          | some columns => rfl
    | none =>
        rw [hcurrent] at hopened
        dsimp only at hopened
        split at hopened
        · cases hopened
        cases hopened
        exact ⟨⟨row.columns, [], st.nullability⟩, row.columns, .inr rfl, .inl rfl, rfl⟩

theorem Uniform.storeDecoded {st st' : SyncState V} (h : Uniform st) {columns : List ColumnDesc}
    (hcolumns : st.cachedColumns = some columns) {decoded : Decoded V}
    (hstored : st.storeDecoded columns decoded = .ok st') :
    Uniform st' ∧ st'.descriptor = st.descriptor ∧ st'.cachedColumns = st.cachedColumns ∧
      ∀ values, decoded = .row values → st.cachedColumns = some st'.rowSetColumns := by
  cases decoded with
  | malformed e => cases hstored
  | undecodable e =>
      cases hstored
      exact ⟨⟨h.current, h.rowColumns, h.rowMetadata, h.described⟩, rfl, rfl, by
        intro values hvalues
        cases hvalues⟩
  | row values =>
      have hmetadata : st.rowMetadata.getD columns = columns := by
        cases hm : st.rowMetadata with
        | none => rfl
        | some columns' =>
            have := h.rowMetadata columns' hm
            rw [hcolumns] at this
            cases this
            rfl
      simp only [SyncState.storeDecoded, hmetadata] at hstored
      obtain ⟨set, columns', hset, hrow, rfl⟩ := pushExistingRow_cases hstored
      have hsetColumns : st.cachedColumns = some set.columns := by
        rcases hset with hset | hset
        · exact h.current set hset
        · rw [hset]
          exact hcolumns
      refine ⟨⟨?_, ?_, ?_, h.described⟩, rfl, rfl, ?_⟩
      · rintro _ ⟨⟩
        exact hsetColumns
      · rintro _ ⟨⟩
        rcases hrow with rfl | hrow
        · exact hsetColumns
        · exact h.rowColumns columns' hrow
      · rintro _ ⟨⟩
        exact hcolumns
      · intro _ _
        exact hsetColumns

end SyncState

theorem bufferedEngine_descriptor {dec : Decoder V} {st : SyncState V} {desc : DbosTupleDesc}
    (h : (bufferedEngine dec).descriptor st = .ok desc) : st.descriptor = some desc := by
  cases hd : st.descriptor with
  | none =>
      simp only [bufferedEngine, hd] at h
      cases h
  | some d =>
      simp only [bufferedEngine, hd] at h
      rw [Except.ok.inj h]

/-- The effect of a message that keeps the descriptor. -/
theorem bufferedEngine_effect {dec : Decoder V} {st st' : SyncState V} {code : UInt8}
    (hx : code ≠ Code.rowDescriptionStandard) (huniform : st'.Uniform)
    (hdesc : st'.descriptor = st.descriptor)
    (hcached : code ≠ Code.rowDescription → st'.cachedColumns = st.cachedColumns) :
    (bufferedEngine dec).FramedEffect SyncState.Uniform SyncState.cachedColumns st code st' where
  uniform := huniform
  descriptor _ := by simp only [bufferedEngine, hdesc]
  cached ht _ := hcached ht
  standard h := absurd h hx

theorem bufferedEngine_framed (dec : Decoder V) {st : SyncState V} (hst : st.Uniform)
    (code : UInt8) :
    Returns ((bufferedEngine dec).FramedEffect SyncState.Uniform SyncState.cachedColumns st code)
      (framedMessage dec st code) := by
  have hkept : ∀ hx : code ≠ Code.rowDescriptionStandard,
      (bufferedEngine dec).FramedEffect SyncState.Uniform SyncState.cachedColumns st code st :=
    fun hx => bufferedEngine_effect hx hst rfl fun _ => rfl
  unfold framedMessage
  by_cases hcc : code = Code.commandComplete
  · subst hcc
    refine .bind _ fun data => .ret (bufferedEngine_effect (by decide) ?_ rfl fun _ => rfl)
    have hcount : (st.addCount data).Uniform :=
      ⟨hst.current, hst.rowColumns, hst.rowMetadata, hst.described⟩
    exact ⟨hcount.flushCurrent.current, hcount.flushCurrent.rowColumns, (by
      intro columns hcolumns
      cases hcolumns), hcount.flushCurrent.described⟩
  rw [if_neg hcc]
  by_cases hi : code = Code.emptyQueryResponse
  · subst hi
    exact .bind _ fun _ => .ret (hkept (by decide))
  rw [if_neg hi]
  by_cases hp : code = Code.backendPayloadP
  · subst hp
    exact .bind _ fun _ => .ret (hkept (by decide))
  rw [if_neg hp]
  by_cases he : code = Code.errorResponse
  · subst he
    exact .bind _ fun data => .ret (bufferedEngine_effect (by decide)
      ⟨hst.current, hst.rowColumns, hst.rowMetadata, hst.described⟩ rfl fun _ => rfl)
  rw [if_neg he]
  by_cases hn : code = Code.noticeResponse
  · subst hn
    refine .bind _ fun data => .ret ?_
    unfold SyncState.addNotice
    dsimp only
    split
    · exact hkept (by decide)
    · exact bufferedEngine_effect (by decide)
        ⟨hst.current, hst.rowColumns, hst.rowMetadata, hst.described⟩ rfl fun _ => rfl
  rw [if_neg hn]
  by_cases ht : code = Code.rowDescription
  · subst ht
    exact .bind _ fun data => .bind _ fun columns => .ret (bufferedEngine_effect (by decide)
      (.describe st columns) rfl fun h => absurd rfl h)
  rw [if_neg ht]
  by_cases hd : code = Code.dataRow
  · subst hd
    refine .bind _ fun data => ?_
    unfold dataRow
    cases hcolumns : st.textColumns with
    | none => exact .fail _
    | some columns =>
        dsimp only
        cases hstored : st.storeDecoded columns (dec.text columns data) with
        | error e => exact .fail e
        | ok st' =>
            obtain ⟨huniform, hdesc, hcached, -⟩ :=
              hst.storeDecoded (hst.textColumns hcolumns) hstored
            exact .ret (bufferedEngine_effect (by decide) huniform hdesc fun _ => hcached)
  rw [if_neg hd]
  by_cases hx : code = Code.rowDescriptionStandard
  · subst hx
    refine .bind _ fun data => ?_
    cases hparse : DbosTupleDesc.parse data st.cachedColumns with
    | error e => exact .fail e
    | ok desc =>
        obtain ⟨huniform, hcolumns⟩ := hst.describeStandard desc
        refine .ret ⟨huniform, fun h => absurd rfl h, fun _ h => absurd rfl h, fun _ => ?_⟩
        refine ⟨desc, _, rfl, hcolumns, ?_⟩
        cases hcached : st.cachedColumns with
        | none => exact (DbosTupleDesc.toColumnDescs_length desc).symm
        | some columns => exact ((DbosTupleDesc.parse_ok hparse).1 columns hcached).symm
  rw [if_neg hx]
  exact .bind _ fun _ => .ret (hkept hx)

theorem bufferedEngine_describes (dec : Decoder V) :
    (bufferedEngine dec).Describes SyncState.Uniform SyncState.cachedColumns
      SyncState.rowSetColumns where
  framed hst code := bufferedEngine_framed dec hst code
  row {st st' desc decoded o} hst hdesc hrow := by
    have hd := bufferedEngine_descriptor hdesc
    cases hstored : st.storeDecoded (st.dbosColumns desc) decoded with
    | error e =>
        simp only [bufferedEngine, hstored, Except.map] at hrow
        cases hrow
    | ok stored =>
        simp only [bufferedEngine, hstored, Except.map] at hrow
        have hsame : stored = st' := by
          cases decoded <;> cases hrow <;> rfl
        subst hsame
        obtain ⟨huniform, hkept, hcached, hcolumns⟩ := hst.storeDecoded (hst.dbosColumns hd) hstored
        refine ⟨huniform, ?_, hcached, hcolumns⟩
        simp only [bufferedEngine, hkept, hd]
  finish hst := ⟨hst.flushCurrent, rfl, rfl⟩

/-! ## The drain with a sink -/

namespace StreamState

/-- What rows and descriptions depend on. -/
structure Shape where
  nextIndex : Nat
  currentIndex : Option Nat
  cachedColumns : Option (List ColumnDesc)
  descriptor : Option DbosTupleDesc
  columns : List (List ColumnDesc)

def shape (st : StreamState V) : Shape where
  nextIndex := st.nextIndex
  currentIndex := st.currentIndex
  cachedColumns := st.cachedColumns
  descriptor := st.descriptor
  columns := st.resultSets.map (·.columns)

/-- The columns of the set that a row went to. -/
def rowSetColumns (st : StreamState V) : List ColumnDesc :=
  match st.currentIndex with
  | none => []
  | some index => (st.setAt index).columns

variable (sink : Sink V)

theorem call_shape (st : StreamState V) (cb : Callback V) : (st.call sink cb).1.shape = st.shape := by
  unfold StreamState.call
  dsimp only
  split
  · rfl
  · rfl

theorem emitStreamColumns_shape (st : StreamState V) (index : Nat) :
    (st.emitStreamColumns sink index).1.shape = st.shape := by
  unfold StreamState.emitStreamColumns
  split
  · rfl
  split
  · rfl
  · exact call_shape sink st _

/-- Sets keep their columns. -/
theorem modify_columns (sets : List StreamResultSet) (index : Nat)
    {f : StreamResultSet → StreamResultSet} (hf : ∀ set, (f set).columns = set.columns) :
    (sets.modify index f).map (·.columns) = sets.map (·.columns) := by
  apply List.ext_getElem?
  intro i
  rw [List.getElem?_map, List.getElem?_map, List.getElem?_modify]
  split
  · cases sets[i]? with
    | none => rfl
    | some set => exact congrArg some (hf set)
  · cases sets[i]? with
    | none => rfl
    | some set => rfl

theorem emitStreamRow_shape (st : StreamState V) (index : Nat) (values : List V) :
    (st.emitStreamRow sink index values).1.shape = st.shape := by
  have hcolumns := emitStreamColumns_shape sink st index
  unfold StreamState.emitStreamRow
  dsimp only
  split
  · have hcall := (call_shape sink (st.emitStreamColumns sink index).1
      (.values index ((st.emitStreamColumns sink index).1.setAt index).columns values)).trans hcolumns
    rw [← hcall]
    unfold shape
    simp only [modify_columns _ _ (f := fun set => { set with rowCount := set.rowCount + 1 })
      fun _ => rfl]
  · rw [← hcolumns]
    unfold shape
    simp only [modify_columns _ _ (f := fun set => { set with rowCount := set.rowCount + 1 })
      fun _ => rfl]

theorem cancelIfSinkAborted_shape (r : StreamState V × Bool) :
    (cancelIfSinkAborted r).shape = r.1.shape := by
  unfold StreamState.cancelIfSinkAborted
  split
  · rfl
  · rfl

/-- The set in use has the columns of the last description. -/
structure Shape.Uniform (s : Shape) : Prop where
  next : s.nextIndex = s.columns.length
  current : ∀ index, s.currentIndex = some index →
    ∃ columns, s.columns[index]? = some columns ∧ s.cachedColumns = some columns
  described : ∀ desc, s.descriptor = some desc → ∃ columns, s.cachedColumns = some columns

/-- A set opened with the columns of the last description. -/
theorem ensureStreamResultSet_uniform {st : StreamState V} (h : st.shape.Uniform)
    {columns : List ColumnDesc} (hcolumns : st.cachedColumns = some columns)
    (nullability : Option (List Bool)) :
    let opened := st.ensureStreamResultSet columns nullability
    opened.1.shape.Uniform ∧ opened.1.currentIndex = some opened.2 ∧
      opened.1.descriptor = st.descriptor ∧ opened.1.cachedColumns = st.cachedColumns := by
  unfold StreamState.ensureStreamResultSet
  split
  next index hindex => exact ⟨h, hindex, rfl, rfl⟩
  next hindex =>
    have hnext : st.nextIndex = (st.resultSets.map (·.columns)).length := h.next
    refine ⟨⟨?_, ?_, h.described⟩, rfl, rfl, rfl⟩
    · simp only [shape, List.map_append, List.length_append, List.map_singleton,
        List.length_singleton, hnext]
    · rintro _ ⟨⟩
      refine ⟨columns, ?_, hcolumns⟩
      simp only [shape, List.map_append, List.map_singleton, hnext, List.getElem?_concat_length]

theorem finishStreamResultSet_shape (st : StreamState V) :
    (st.finishStreamResultSet sink).1.shape = { st.shape with currentIndex := none } := by
  unfold StreamState.finishStreamResultSet
  split
  next hindex =>
    unfold shape
    rw [hindex]
  next index hindex => exact emitStreamColumns_shape sink _ index

theorem Shape.Uniform.close {s : Shape} (h : s.Uniform) :
    Shape.Uniform { s with currentIndex := none } where
  next := h.next
  current index hindex := by cases hindex
  described := h.described

/-- The columns of the set in use. -/
theorem Shape.Uniform.rowSetColumns {st : StreamState V} (h : st.shape.Uniform) {index : Nat}
    (hindex : st.currentIndex = some index) : st.cachedColumns = some st.rowSetColumns := by
  obtain ⟨columns, hset, hcolumns⟩ := h.current index hindex
  simp only [shape, List.getElem?_map, Option.map_eq_some_iff] at hset
  obtain ⟨set, hset, rfl⟩ := hset
  unfold StreamState.rowSetColumns StreamState.setAt
  rw [hindex]
  simp only [List.getD_eq_getElem?_getD, hset, Option.getD_some]
  exact hcolumns

theorem streamRow_uniform {st st' : StreamState V} (h : st.shape.Uniform)
    {columns : List ColumnDesc} (hcolumns : st.cachedColumns = some columns) {decoded : Decoded V}
    {o : Option Nat} (hrow : st.streamRow sink columns decoded = .ok (st', o)) :
    st'.shape.Uniform ∧ st'.descriptor = st.descriptor ∧ st'.cachedColumns = st.cachedColumns ∧
      ∀ values, decoded = .row values → st.cachedColumns = some st'.rowSetColumns := by
  cases decoded with
  | malformed e => cases hrow
  | undecodable e =>
      cases hrow
      exact ⟨h, rfl, rfl, by
        intro values hvalues
        cases hvalues⟩
  | row values =>
      obtain ⟨huniform, hindex, hdesc, hcached⟩ :=
        ensureStreamResultSet_uniform h hcolumns st.nullability
      cases hrow
      generalize st.ensureStreamResultSet columns st.nullability = opened at *
      have hshape : (cancelIfSinkAborted (opened.1.emitStreamRow sink opened.2 values)).shape =
          opened.1.shape :=
        (cancelIfSinkAborted_shape _).trans (emitStreamRow_shape sink _ _ _)
      have hd := (congrArg Shape.descriptor hshape).trans hdesc
      have hc := (congrArg Shape.cachedColumns hshape).trans hcached
      have hi := (congrArg Shape.currentIndex hshape).trans hindex
      rw [← hshape] at huniform
      refine ⟨huniform, hd, hc, ?_⟩
      intro _ _
      exact hc.symm.trans (huniform.rowSetColumns hi)

theorem describe_uniform {st : StreamState V} (h : st.shape.Uniform) (columns : List ColumnDesc) :
    (st.describe sink columns).shape.Uniform ∧
      (st.describe sink columns).descriptor = st.descriptor := by
  have hclosed : (cancelIfSinkAborted (st.finishStreamResultSet sink)).shape =
      { st.shape with currentIndex := none } :=
    (cancelIfSinkAborted_shape _).trans (finishStreamResultSet_shape sink st)
  unfold StreamState.describe
  generalize cancelIfSinkAborted (st.finishStreamResultSet sink) = closed at hclosed ⊢
  have hnone : closed.currentIndex = none := congrArg Shape.currentIndex hclosed
  have hnext : closed.nextIndex = (closed.resultSets.map (·.columns)).length :=
    (congrArg Shape.nextIndex hclosed).trans
      (h.next.trans (congrArg List.length (congrArg Shape.columns hclosed).symm))
  simp only [StreamState.ensureStreamResultSet, hnone]
  refine ⟨⟨?_, ?_, fun _ _ => ⟨columns, rfl⟩⟩, congrArg Shape.descriptor hclosed⟩
  · simp only [shape, List.map_append, List.length_append, List.map_singleton,
      List.length_singleton, hnext]
  · rintro _ ⟨⟩
    refine ⟨columns, ?_, rfl⟩
    simp only [shape, List.map_append, List.map_singleton, hnext, List.getElem?_concat_length]

theorem describeStandard_uniform {st : StreamState V} (h : st.shape.Uniform) (desc : DbosTupleDesc) :
    (st.describeStandard sink desc).shape.Uniform ∧
      (st.describeStandard sink desc).descriptor = some desc ∧
      (st.describeStandard sink desc).cachedColumns =
        some (st.cachedColumns.getD desc.toColumnDescs) := by
  unfold StreamState.describeStandard
  dsimp only
  generalize hcolumns : st.cachedColumns.getD desc.toColumnDescs = columns
  generalize some (desc.fields.map (·.nullAllowed)) = nullability
  have huniform : { st with
      descriptor := some desc
      nullability := nullability
      cachedColumns := some columns }.shape.Uniform := by
    refine ⟨h.next, ?_, fun _ _ => ⟨columns, rfl⟩⟩
    intro index hindex
    obtain ⟨columns', hset, hcached⟩ := h.current index hindex
    refine ⟨columns', hset, ?_⟩
    rw [← hcolumns, show st.cachedColumns = some columns' from hcached]
    rfl
  obtain ⟨hopened, -, hdesc, hcached⟩ := ensureStreamResultSet_uniform huniform rfl nullability
  generalize StreamState.ensureStreamResultSet _ columns nullability = opened at *
  have hshape : (cancelIfSinkAborted ({ opened.1 with
      resultSets := opened.1.resultSets.modify opened.2 fun set =>
        { set with nullability := nullability } }.emitStreamColumns sink opened.2)).shape =
      opened.1.shape := by
    rw [cancelIfSinkAborted_shape, emitStreamColumns_shape]
    unfold shape
    simp only [modify_columns _ _ (f := fun set => { set with nullability := nullability })
      fun _ => rfl]
  rw [← hshape] at hopened
  exact ⟨hopened, (congrArg Shape.descriptor hshape).trans hdesc,
    (congrArg Shape.cachedColumns hshape).trans hcached⟩

theorem completeCommand_shape (st : StreamState V) (data : Bytes) :
    (st.completeCommand sink data).shape = { st.shape with currentIndex := none } := by
  unfold StreamState.completeCommand
  dsimp only
  split
  · rw [cancelIfSinkAborted_shape, call_shape, cancelIfSinkAborted_shape, finishStreamResultSet_shape]
    rfl
  · rw [cancelIfSinkAborted_shape, finishStreamResultSet_shape]
    rfl

theorem finish_shape (st : StreamState V) :
    (st.finish sink).1.shape = { st.shape with currentIndex := none } := by
  rw [← finishStreamResultSet_shape sink st]
  unfold StreamState.finish
  dsimp only
  split
  · rfl
  split
  · rfl
  split
  · rfl
  · rfl

theorem addNotice_shape (st : StreamState V) (data : Bytes) :
    (st.addNotice sink data).shape = st.shape := by
  unfold StreamState.addNotice
  dsimp only
  split
  · rfl
  split
  · exact (cancelIfSinkAborted_shape _).trans (call_shape sink st _)
  · rfl

end StreamState

section

variable {dec : Decoder V} {sink : Sink V}

theorem streamEngine_descriptor {st : StreamState V} {desc : DbosTupleDesc}
    (h : (streamEngine dec sink).descriptor st = .ok desc) : st.descriptor = some desc := by
  cases hd : st.descriptor with
  | none =>
      simp only [streamEngine, hd] at h
      cases h
  | some d =>
      simp only [streamEngine, hd] at h
      rw [Except.ok.inj h]

theorem streamEngine_effect {st st' : StreamState V} {code : UInt8}
    (hx : code ≠ Code.rowDescriptionStandard) (huniform : st'.shape.Uniform)
    (hdesc : st'.descriptor = st.descriptor)
    (hcached : code ≠ Code.rowDescription → st'.cachedColumns = st.cachedColumns) :
    (streamEngine dec sink).FramedEffect (·.shape.Uniform) StreamState.cachedColumns st code
      st' where
  uniform := huniform
  descriptor _ := by simp only [streamEngine, hdesc]
  cached ht _ := hcached ht
  standard h := absurd h hx

theorem streamEngine_framed {st : StreamState V} (hst : st.shape.Uniform) (code : UInt8) :
    Returns ((streamEngine dec sink).FramedEffect (·.shape.Uniform) StreamState.cachedColumns st code)
      (streamFramed dec sink st code) := by
  have hkept {st' : StreamState V} (hx : code ≠ Code.rowDescriptionStandard)
      (hshape : st'.shape = st.shape) :
      (streamEngine dec sink).FramedEffect (·.shape.Uniform) StreamState.cachedColumns st code st' := by
    have huniform : st'.shape.Uniform := by
      rw [hshape]
      exact hst
    exact streamEngine_effect hx huniform (congrArg StreamState.Shape.descriptor hshape)
      fun _ => congrArg StreamState.Shape.cachedColumns hshape
  unfold streamFramed
  by_cases hcc : code = Code.commandComplete
  · subst hcc
    refine .bind _ fun data => .ret ?_
    have hshape := StreamState.completeCommand_shape sink st data
    refine streamEngine_effect (by decide) ?_ (congrArg StreamState.Shape.descriptor hshape)
      fun _ => congrArg StreamState.Shape.cachedColumns hshape
    rw [hshape]
    exact hst.close
  rw [if_neg hcc]
  by_cases hi : code = Code.emptyQueryResponse
  · subst hi
    exact .bind _ fun _ => .ret (hkept (by decide) rfl)
  rw [if_neg hi]
  by_cases hp : code = Code.backendPayloadP
  · subst hp
    exact .bind _ fun _ => .ret (hkept (by decide) rfl)
  rw [if_neg hp]
  by_cases he : code = Code.errorResponse
  · subst he
    exact .bind _ fun _ => .ret (hkept (by decide) rfl)
  rw [if_neg he]
  by_cases hn : code = Code.noticeResponse
  · subst hn
    exact .bind _ fun data => .ret (hkept (by decide) (StreamState.addNotice_shape sink st data))
  rw [if_neg hn]
  by_cases ht : code = Code.rowDescription
  · subst ht
    refine .bind _ fun data => .bind _ fun columns => .ret ?_
    obtain ⟨huniform, hdesc⟩ := StreamState.describe_uniform sink hst columns
    exact streamEngine_effect (by decide) huniform hdesc fun h => absurd rfl h
  rw [if_neg ht]
  by_cases hd : code = Code.dataRow
  · subst hd
    refine .bind _ fun data => ?_
    unfold streamDataRow
    cases hcolumns : st.cachedColumns with
    | none => exact .fail _
    | some columns =>
        dsimp only
        cases hrow : st.streamRow sink columns (dec.text columns data) with
        | error e => exact .fail e
        | ok stored =>
            obtain ⟨st', o⟩ := stored
            obtain ⟨huniform, hdesc, hcached, -⟩ :=
              StreamState.streamRow_uniform sink hst hcolumns hrow
            exact .ret (streamEngine_effect (by decide) huniform hdesc fun _ => hcached)
  rw [if_neg hd]
  by_cases hx : code = Code.rowDescriptionStandard
  · subst hx
    refine .bind _ fun data => ?_
    cases hparse : DbosTupleDesc.parse data st.cachedColumns with
    | error e => exact .fail e
    | ok desc =>
        obtain ⟨huniform, hdesc, hcolumns⟩ := StreamState.describeStandard_uniform sink hst desc
        refine .ret ⟨huniform, fun h => absurd rfl h, fun _ h => absurd rfl h, fun _ => ?_⟩
        refine ⟨desc, _, ?_, hcolumns, ?_⟩
        · simp only [streamEngine, hdesc]
        · cases hcached : st.cachedColumns with
          | none => exact (DbosTupleDesc.toColumnDescs_length desc).symm
          | some columns => exact ((DbosTupleDesc.parse_ok hparse).1 columns hcached).symm
  rw [if_neg hx]
  exact .bind _ fun _ => .ret (hkept hx rfl)

theorem streamEngine_describes :
    (streamEngine dec sink).Describes (·.shape.Uniform) StreamState.cachedColumns
      StreamState.rowSetColumns where
  framed hst code := streamEngine_framed hst code
  row {st st' desc decoded o} hst hdesc hrow := by
    have hd := streamEngine_descriptor hdesc
    have hcolumns : st.cachedColumns = some (st.cachedColumns.getD desc.toColumnDescs) := by
      obtain ⟨columns, hcolumns⟩ := hst.described desc hd
      rw [show st.cachedColumns = some columns from hcolumns]
      rfl
    obtain ⟨huniform, hkept, hcached, hset⟩ := StreamState.streamRow_uniform sink hst hcolumns hrow
    refine ⟨huniform, ?_, hcached, hset⟩
    simp only [streamEngine, hkept, hd]
  finish {st} hst := by
    have hshape : ((streamEngine dec sink).finish st).1.shape =
        { st.shape with currentIndex := none } := StreamState.finish_shape sink st
    refine ⟨?_, ?_, congrArg StreamState.Shape.cachedColumns hshape⟩
    · rw [hshape]
      exact hst.close
    · have hdesc : ((streamEngine dec sink).finish st).1.descriptor = st.descriptor :=
        congrArg StreamState.Shape.descriptor hshape
      generalize ((streamEngine dec sink).finish st).1 = st' at hdesc ⊢
      simp only [streamEngine, hdesc]

end

/-! ## Every drain -/

section Claims

variable (files : ExternalFiles) (dec : Decoder V) (fuel : Nat) (session : ReadBuffer × Stream)

/-- With and without a sink, the rows of a drain have fresh descriptors exactly when none of them
comes between a description and its descriptor; the history is that of the drain itself. -/
theorem rows_fresh_iff_ordered :
    (let e := drainResponseWithSink files dec (traced (bufferedEngine dec) SyncState.rowSetColumns)
      fuel ({}, []) session
    e.erase = drainResponseWithSink files dec (bufferedEngine dec) fuel {} session ∧
        (History.Fresh e.state.2 ↔ Ordered (e.state.2.map Event.kind))) ∧
    ∀ sink : Sink V,
      let e := drainResponseWithSink files dec
        (traced (streamEngine dec sink) StreamState.rowSetColumns) fuel ({}, []) session
      e.erase = drainResponseWithSink files dec (streamEngine dec sink) fuel {} session ∧
        (History.Fresh e.state.2 ↔ Ordered (e.state.2.map Event.kind)) := by
  refine ⟨⟨?_, ?_⟩, fun sink => ⟨?_, ?_⟩⟩
  · exact drainResponseWithSink_erase _ files dec fuel _ session
  · refine fresh_iff_ordered files (bufferedEngine_lawful dec) (bufferedEngine_describes dec) fuel ?_
      rfl session
    exact ⟨nofun, nofun, nofun, nofun⟩
  · exact drainResponseWithSink_erase _ files dec fuel _ session
  · refine fresh_iff_ordered files (streamEngine_lawful dec sink) streamEngine_describes fuel ?_
      rfl session
    exact ⟨rfl, nofun, nofun⟩

end Claims

/-! ## A row behind a description without a descriptor -/

def descriptorFrame : Bytes :=
  let descriptor := [1, 0, 0, 0, 1, 0, 6, 6, 1, 3, 4, 4, 2, 0, 0, 0, 4, 0, 0, 0].flatMap
    (ByteString.toBe 4)
  Code.rowDescriptionStandard :: (zeros 4 ++ (ByteString.toBe 4 descriptor.length ++ descriptor))

def descriptionFrame : Bytes :=
  let description := ByteString.toBe 2 1 ++ [97, 0] ++ ByteString.toBe 4 20 ++ ByteString.toBe 2 8 ++
    ByteString.toBe 4 (-1) ++ [1]
  Code.rowDescription :: (zeros 4 ++ (ByteString.toBe 4 description.length ++ description))

def staleResponse : Bytes :=
  descriptorFrame ++ (descriptionFrame ++ (rowFrame ++ Code.readyForQuery :: zeros 4))

theorem staleResponse_length : (ReadBuffer.new.slice ++ [staleResponse].flatten).length < 200 := by
  decide +kernel

theorem staleResponse_ne_nil : ∀ c ∈ [staleResponse], c ≠ [] := by
  intro c hc
  rw [List.mem_singleton.mp hc]
  decide

/-- The row is stored, or handed on, as if its descriptor had been sent. -/
theorem staleResponse_row_taken :
    (let e := drainResponseWithSink noFiles shapeDecoder
        (traced (bufferedEngine shapeDecoder) SyncState.rowSetColumns) 200 ({}, [])
        (ReadBuffer.new, chunked [staleResponse])
    ¬ History.Fresh e.state.2 ∧ ∃ r, e.outcome = .ok r ∧ r.result.toBool = true) ∧
    (let e := drainResponseWithSink noFiles shapeDecoder
        (traced (streamEngine shapeDecoder fun _ => .ok ()) StreamState.rowSetColumns) 200 ({}, [])
        (ReadBuffer.new, chunked [staleResponse])
    ¬ History.Fresh e.state.2 ∧ ∃ r, e.outcome = .ok r ∧ r.result.toBool = true) := by
  have hstale : ¬ Ordered [.descriptor, .description, .row] := by
    intro h
    have := h [.descriptor, .description] .row [] rfl rfl
    cases this
  have hbuffered := drainResponseWithSink_drainFrames noFiles shapeDecoder
    (traced_lawful SyncState.rowSetColumns (bufferedEngine_lawful shapeDecoder)) 200 ({}, [])
    ReadBuffer.new staleResponse_ne_nil staleResponse_length
  have hstream := drainResponseWithSink_drainFrames noFiles shapeDecoder
    (traced_lawful StreamState.rowSetColumns (streamEngine_lawful shapeDecoder fun _ => .ok ())) 200
    ({}, []) ReadBuffer.new staleResponse_ne_nil staleResponse_length
  have hflat : ReadBuffer.new.slice ++ [staleResponse].flatten = staleResponse := rfl
  rw [hflat] at hbuffered hstream
  dsimp only
  refine ⟨⟨?_, ?_⟩, ⟨?_, ?_⟩⟩
  · intro hfresh
    have hordered := hfresh.ordered
    rw [hbuffered.state] at hordered
    exact hstale hordered
  · rw [hbuffered.outcome]
    exact ⟨_, rfl, rfl⟩
  · intro hfresh
    have hordered := hfresh.ordered
    rw [hstream.state] at hordered
    exact hstale hordered
  · rw [hstream.outcome]
    exact ⟨_, rfl, rfl⟩

end NzRust.Response
