import Mathlib.Data.Char
import Mathlib.Data.List.Sort
import NzRust.Metadata.CatalogAnswers

/-!
# The batch against one table at a time

The entries of a native batch are those that the blocking API puts together with
six queries for each table, whatever the order in which the tables and the rows
of the answers stand.
-/

namespace NzRust.Metadata

open Checked Sql Gathering

/-! ## What the batch has gathered -/

theorem mapM_eq_ok {α β ε : Type} {f : α → Except ε β} {b : α → β} {as : List α}
    (h : ∀ a ∈ as, f a = .ok (b a)) : as.mapM f = .ok (as.map b) := by
  induction as with
  | nil => rfl
  | cons a as ih =>
      rw [List.mapM_cons, h a List.mem_cons_self]
      show (as.mapM f >>= fun rest => pure (b a :: rest)) = _
      rw [ih fun a ha => h a (List.mem_cons_of_mem _ ha)]
      rfl

section Batch

variable {V : Type} {srv : CatalogServer V} {C : Cells V} {U : Uppercase}

/-- The answers that a batch was gathered from. -/
structure Batched (srv : CatalogServer V) (C : Cells V) (targets : List Target) (g : Gathered) :
    Prop where
  written : ∀ target ∈ targets, Writable target.2 ∧ ∀ s, target.1 = some s → Writable s
  catalog : ∃ rows, srv.currentCatalog = .ok rows ∧ catalogName C rows = .ok g.database
  columns : ∃ rows, srv.answer (batchSelect .relationColumn targets columnFields) = .ok rows ∧
    gather (rowKey C) (fun held row =>
      (detailedColumn C 2 row).map fun column => held.getD [] ++ [column]) rows [] = .ok g.columns
  distribution : ∃ rows, srv.answer (batchSelect .tableDistMap targets ["attname"]) = .ok rows ∧
    gather (rowKey C) (pushName C) rows [] = .ok g.distribution
  organize : ∃ rows, srv.answer (batchSelect .tableOrganizeColumn targets ["attname"]) = .ok rows ∧
    gather (rowKey C) (pushName C) rows [] = .ok g.organize
  keys : ∃ rows, srv.answer (batchSelect .relationKeydata targets keyFields) = .ok rows ∧
    gather (rowKey C) (fun held row => keyStep C 2 (held.getD []) row) rows [] = .ok g.keys
  comments : ∃ rows, srv.answer {
      columns := ["schema", "objname", "description"], view := .objectData,
      filter := .any targets, tablesOnly := true } = .ok rows ∧
    gather (commentKey C) (fun held row =>
      (cell row 2 >>= C.optionalText).map fun comment => held.getD (comment.getD [])) rows [] =
        .ok g.comments

theorem gatherCatalog_ok {catalog columns dist organize keys comments : List (List V)}
    {g : Gathered} (h : gatherCatalog C none catalog columns dist organize keys comments = .ok g) :
    catalogName C catalog = .ok g.database ∧
      gather (rowKey C) (fun held row =>
        (detailedColumn C 2 row).map fun column => held.getD [] ++ [column]) columns [] =
          .ok g.columns ∧
      gather (rowKey C) (pushName C) dist [] = .ok g.distribution ∧
      gather (rowKey C) (pushName C) organize [] = .ok g.organize ∧
      gather (rowKey C) (fun held row => keyStep C 2 (held.getD []) row) keys [] = .ok g.keys ∧
      gather (commentKey C) (fun held row =>
        (cell row 2 >>= C.optionalText).map fun comment => held.getD (comment.getD [])) comments
          [] = .ok g.comments := by
  obtain ⟨current, hcurrent, h⟩ := bind_ok h
  obtain ⟨columns', hcolumns, h⟩ := bind_ok h
  obtain ⟨distribution, hdist, h⟩ := bind_ok h
  obtain ⟨organize', horganize, h⟩ := bind_ok h
  obtain ⟨keys', hkeys, h⟩ := bind_ok h
  obtain ⟨comments', hcomments, h⟩ := bind_ok h
  cases h
  exact ⟨hcurrent, hcolumns, hdist, horganize, hkeys, hcomments⟩

/-- A batch that ends well has been gathered from the answers to its queries. -/
theorem tableDdlBatch_ok {V : Type} [LinearOrder V] {srv : CatalogServer V} {C : Cells V}
    {records : CatalogView → List (CatalogRecord V)} (hserves : Serves srv C records)
    {schema pattern : Option Text} {names : Option (List Text)} {targets : List Target}
    (htargets : ddlTargets srv C U schema pattern names = .ok targets)
    {results : List NzDdlBatchResult}
    (h : tableDdlBatch srv C U schema pattern names none = .ok results) :
    targets = [] ∧ results = [] ∨
      ∃ g, Batched srv C targets g ∧ results = targets.map g.result := by
  rw [tableDdlBatch, htargets, ok_bind] at h
  split at h
  next hnil =>
    cases h
    exact .inl ⟨hnil, rfl⟩
  next hne =>
    right
    obtain ⟨texts, htexts, h⟩ := bind_ok h
    obtain ⟨first, rest, hfirst, -, -⟩ := mapM_cons_ok htexts
    obtain ⟨sets, hsets, h⟩ := bind_ok h
    rw [hserves.answerBatch] at hsets
    obtain ⟨catalog, hcatalog, hsets⟩ := bind_ok hsets
    obtain ⟨answers, hanswers, hsets⟩ := bind_ok hsets
    cases hsets
    obtain ⟨columns, rest₁, hcolumns, hrest₁, rfl⟩ := mapM_cons_ok hanswers
    obtain ⟨dist, rest₂, hdist, hrest₂, rfl⟩ := mapM_cons_ok hrest₁
    obtain ⟨organize, rest₃, horganize, hrest₃, rfl⟩ := mapM_cons_ok hrest₂
    obtain ⟨keys, rest₄, hkeys, hrest₄, rfl⟩ := mapM_cons_ok hrest₃
    obtain ⟨comments, rest₅, hcomments, hrest₅, rfl⟩ := mapM_cons_ok hrest₄
    cases hrest₅
    obtain ⟨g, hg, h⟩ := bind_ok h
    cases h
    obtain ⟨hname, hc, hd, ho, hk, hm⟩ := gatherCatalog_ok hg
    obtain ⟨filter, hfilter, -⟩ := except_bind_ok (lift_ok hfirst)
    exact ⟨g, ⟨targetFilter_writable hfilter, ⟨_, hcatalog, hname⟩, ⟨_, hcolumns, hc⟩,
      ⟨_, hdist, hd⟩, ⟨_, horganize, ho⟩, ⟨_, hkeys, hk⟩, ⟨_, hcomments, hm⟩⟩, rfl⟩

end Batch

/-! ## Comments -/

section Comments

variable {V : Type} {C : Cells V}

/-- A comment that is more than blanks. -/
def filled (comment : CatalogRecord V → Option Text) (r : CatalogRecord V) : Option Text :=
  (comment r).filter fun comment => !(trim comment).isEmpty

/-- The catalog describes the targets: its comments can be read, only tables among the targets
have one, and a table has one at most. -/
structure Described (C : Cells V) (records : CatalogView → List (CatalogRecord V))
    (targets : List Target) (comment : CatalogRecord V → Option Text) : Prop where
  decodes : ∀ r ∈ records .objectData, C.optionalText (r.cells "description") = .ok (comment r)
  onTables : ∀ r ∈ records .objectData, (∃ t ∈ targets, t.means r.key = true) →
    filled comment r ≠ none → r.isTable = true
  once : ∀ r ∈ records .objectData, ∀ r' ∈ records .objectData, r.key = r'.key →
    filled comment r ≠ none → filled comment r' ≠ none → filled comment r = filled comment r'

/-- The queries about the comments of a key, of tables or of anything. -/
def commentSelect (filter : Filter) (fields : List String) (tablesOnly : Bool) : Select where
  columns := fields
  view := .objectData
  filter := filter
  tablesOnly := tablesOnly

theorem firstComment_rows {comment : CatalogRecord V → Option Text} {q : Select}
    (hq : q.columns = ["description"]) {rs : List (CatalogRecord V)}
    (hdecodes : ∀ r ∈ rs, C.optionalText (r.cells "description") = .ok (comment r)) :
    firstComment C (rs.map q.row) = .ok (rs.findSome? (filled comment)) := by
  induction rs with
  | nil => rfl
  | cons r rs ih =>
      have hrest := ih fun r hr => hdecodes r (List.mem_cons_of_mem _ hr)
      have hcell : (cell (q.row r) 0 >>= C.optionalText) = .ok (comment r) := by
        rw [Select.row, hq]
        exact hdecodes r List.mem_cons_self
      rw [List.map_cons, firstComment, hcell, ok_bind, List.findSome?_cons, filled]
      cases comment r with
      | none => exact hrest
      | some text =>
          rw [Option.filter_some]
          dsimp only
          cases (trim text).isEmpty with
          | true => exact hrest
          | false => rfl

end Comments

/-! ## The columns of a target -/

section Columns

variable {V : Type} [LinearOrder V] {srv : CatalogServer V} {C : Cells V} {U : Uppercase}
  {records : CatalogView → List (CatalogRecord V)} {targets : List Target} {g : Gathered}
  {target : Target}

/-- The keys among which the batch looks a target up. -/
def Gathered.matching (g : Gathered) (target : Target) : List (Text × Text) :=
  (g.columns.map Prod.fst).filter target.means

theorem mem_matching (h : Serves srv C records) (hb : Batched srv C targets g)
    (htarget : target ∈ targets) (key : Text × Text) :
    key ∈ g.matching target ↔
      target.means key = true ∧ ∃ r ∈ records .relationColumn, r.key = key := by
  obtain ⟨rows, hrows, hgather⟩ := hb.columns
  obtain ⟨rb, hanswer, hperm, -⟩ := h.answer (batchSelect .relationColumn targets columnFields)
  rw [hrows] at hanswer
  cases hanswer
  rw [batchSelect_holds] at hperm
  rw [gather_map] at hgather
  have hvisit : ∀ r ∈ rb, rowKey C
      ((batchSelect .relationColumn targets columnFields).row r) = .ok (some r.key) :=
    fun r hr => h.rowKey (List.mem_filter.mp (hperm.subset hr)).1
  have hkeys := (gather_keys hvisit hgather).1 key
  rw [Gathered.matching, List.mem_filter, hkeys, and_comm]
  refine and_congr_right fun hmeans => ?_
  constructor
  · rintro (hnil | ⟨r, hr, hkey⟩)
    · cases hnil
    · exact ⟨r, (List.mem_filter.mp (hperm.subset hr)).1, Option.some.inj hkey⟩
  · rintro ⟨r, hr, hkey⟩
    refine .inr ⟨r, hperm.symm.subset (List.mem_filter.mpr ⟨hr, ?_⟩), congrArg some hkey⟩
    refine List.any_eq_true.mpr ⟨target, htarget, ?_⟩
    rw [hkey]
    exact hmeans

theorem nodup_matching (h : Serves srv C records) (hb : Batched srv C targets g)
    (target : Target) :
    (g.matching target).Nodup := by
  obtain ⟨rows, hrows, hgather⟩ := hb.columns
  obtain ⟨rb, hanswer, hperm, -⟩ := h.answer (batchSelect .relationColumn targets columnFields)
  rw [hrows] at hanswer
  cases hanswer
  rw [batchSelect_holds] at hperm
  rw [gather_map] at hgather
  have hvisit : ∀ r ∈ rb, rowKey C
      ((batchSelect .relationColumn targets columnFields).row r) = .ok (some r.key) :=
    fun r hr => h.rowKey (List.mem_filter.mp (hperm.subset hr)).1
  exact ((gather_keys hvisit hgather).2 .nil).filter _

/-- The query of `detailed_columns` has been answered. -/
theorem detailedColumns_answered (h : Serves srv C records) (hb : Batched srv C targets g)
    (htarget : target ∈ targets) (hplain : target.Plain) :
    ∃ rs : List (CatalogRecord V),
      srv.answer (singleSelect .relationColumn target ("schema" :: columnFields)) =
        .ok (rs.map (singleSelect .relationColumn target ("schema" :: columnFields)).row) ∧
      (∀ r, r ∈ rs ↔ r ∈ records .relationColumn ∧ target.means r.key = true) ∧
      detailedColumns srv C U (quoteIdentifier target.2) (target.1.map quoteIdentifier) =
        ((if target.1.isNone then requireUniqueSchema C
            (rs.map (singleSelect .relationColumn target ("schema" :: columnFields)).row) target.2
          else pure ()) >>= fun _ =>
          (rs.map (singleSelect .relationColumn target ("schema" :: columnFields)).row).mapM
            (detailedColumn C 1)) := by
  obtain ⟨rs, hanswer, hperm, -⟩ :=
    h.answer (singleSelect .relationColumn target ("schema" :: columnFields))
  refine ⟨rs, hanswer, ?_, ?_⟩
  · intro r
    rw [hperm.mem_iff, singleSelect_holds, List.mem_filter]
    rfl
  · obtain ⟨hname, hschema⟩ := hb.written target htarget
    obtain ⟨text, htext⟩ := Select.sql_ok
      (q := singleSelect .relationColumn target ("schema" :: columnFields))
      (filter_one_sql hname hschema _)
    have hask := ask_eq srv htext
    rw [detailedColumns, normalizeObjectName_quoted U target.1 hplain, ok_bind]
    show (ask srv (singleSelect .relationColumn target ("schema" :: columnFields)) >>= _) = _
    rw [hask, hanswer, ok_bind]
    dsimp only
    split <;> rfl

theorem schemaCell (h : Serves srv C records) {r : CatalogRecord V}
    (hr : r ∈ records .relationColumn) :
    (cell ((singleSelect .relationColumn target ("schema" :: columnFields)).row r) 0 >>= C.text) =
      .ok r.schema :=
  h.schemaText .relationColumn r hr

/-- Nothing is found of a target that no key of the batch means. -/
theorem detailedColumns_none (h : Serves srv C records) (hb : Batched srv C targets g)
    (htarget : target ∈ targets) (hplain : target.Plain) (hnone : g.matching target = []) :
    detailedColumns srv C U (quoteIdentifier target.2) (target.1.map quoteIdentifier) = .ok [] := by
  obtain ⟨rs, -, hmem, heq⟩ := detailedColumns_answered (U := U) h hb htarget hplain
  have hrs : rs = [] := by
    refine List.eq_nil_iff_forall_not_mem.mpr fun r hr => ?_
    obtain ⟨hrecord, hmeans⟩ := (hmem r).mp hr
    have hkey := (mem_matching h hb htarget r.key).mpr ⟨hmeans, r, hrecord, rfl⟩
    rw [hnone] at hkey
    cases hkey
  rw [heq, hrs]
  cases target.1 <;> rfl

/-- Two keys that a target means are two schemas. -/
theorem detailedColumns_several (h : Serves srv C records) (hb : Batched srv C targets g)
    (htarget : target ∈ targets) (hplain : target.Plain) {key key' : Text × Text}
    {rest : List (Text × Text)} (hkeys : g.matching target = key :: key' :: rest) :
    detailedColumns srv C U (quoteIdentifier target.2) (target.1.map quoteIdentifier) =
      fail (severalSchemas target.2) := by
  obtain ⟨rs, -, hmem, heq⟩ := detailedColumns_answered (U := U) h hb htarget hplain
  have hnodup := nodup_matching h hb target
  rw [hkeys] at hnodup
  have hne : key ≠ key' := fun heq => (List.nodup_cons.mp hnodup).1 (heq ▸ List.mem_cons_self)
  obtain ⟨hmeans, r, hr, rfl⟩ := (mem_matching h hb htarget key).mp
    (hkeys ▸ List.mem_cons_self)
  obtain ⟨hmeans', r', hr', rfl⟩ := (mem_matching h hb htarget key').mp
    (hkeys ▸ List.mem_cons_of_mem _ List.mem_cons_self)
  simp only [Target.means, CatalogRecord.key, Bool.and_eq_true, beq_iff_eq] at hmeans hmeans' hne
  have hschemas : r.schema ≠ r'.schema := by
    intro hsame
    exact hne (Prod.ext hsame (hmeans.1.trans hmeans'.1.symm))
  have hfree : target.1 = none := by
    cases hschema : target.1 with
    | none => rfl
    | some s =>
        rw [hschema] at hmeans hmeans'
        simp only [Option.all_some, beq_iff_eq] at hmeans hmeans'
        exact absurd (hmeans.2.symm.trans hmeans'.2) hschemas
  rw [heq, hfree]
  have hcells : ∀ row ∈ rs.map
      (singleSelect .relationColumn target ("schema" :: columnFields)).row,
      ∃ s, (cell row 0 >>= C.text) = .ok s := by
    intro row hrow
    obtain ⟨x, hx, rfl⟩ := List.mem_map.mp hrow
    exact ⟨x.schema, schemaCell h ((hmem x).mp hx).1⟩
  have hin : ∀ x ∈ records .relationColumn, x.name = target.2 → x ∈ rs := by
    intro x hx hname
    refine (hmem x).mpr ⟨hx, ?_⟩
    rw [Target.means, hfree]
    simp [CatalogRecord.key, hname]
  have hseveral := uniqueSchemaLoop_several target.2 hcells
    (List.mem_map_of_mem (hin r hr hmeans.1)) (List.mem_map_of_mem (hin r' hr' hmeans'.1))
    (schemaCell h hr) (schemaCell h hr') hschemas
  rw [Option.isNone_none, if_pos rfl, hseveral]
  rfl

/-- The columns of the one key that a target means. -/
theorem detailedColumns_found (h : Serves srv C records) (hb : Batched srv C targets g)
    (htarget : target ∈ targets) (hplain : target.Plain) {key : Text × Text}
    (hkey : g.matching target = [key]) :
    detailedColumns srv C U (quoteIdentifier target.2) (target.1.map quoteIdentifier) =
        .ok ((get key g.columns).getD []) ∧
      ∃ first rest, (get key g.columns).getD [] = first :: rest ∧ first.schema = key.1 := by
  obtain ⟨hmeans, r, hr, hrkey⟩ := (mem_matching h hb htarget key).mp (hkey ▸ List.mem_cons_self)
  have honly : ∀ r ∈ records .relationColumn, target.means r.key = true → r.key = key := by
    intro r hr hm
    have hmem := (mem_matching h hb htarget r.key).mpr ⟨hm, r, hr, rfl⟩
    rw [hkey] at hmem
    exact List.mem_singleton.mp hmem
  obtain ⟨rows, hrows, hgather⟩ := hb.columns
  obtain ⟨rs, hanswer, hmem, heq⟩ := detailedColumns_answered (U := U) h hb htarget hplain
  obtain ⟨rs', hanswer', -, hcolumns⟩ := h.listed (by decide) hmeans ⟨target, htarget, hmeans⟩ honly
    ("schema" :: columnFields) (detailedColumn C 2) (detailedColumn C 1) hrows (fun _ => rfl)
    hgather
  rw [hanswer] at hanswer'
  rw [← Except.ok.inj hanswer'] at hcolumns
  have hschemas : ∀ row ∈ rs.map
      (singleSelect .relationColumn target ("schema" :: columnFields)).row,
      (cell row 0 >>= C.text) = .ok key.1 := by
    intro row hrow
    obtain ⟨x, hx, rfl⟩ := List.mem_map.mp hrow
    obtain ⟨hrecord, hm⟩ := (hmem x).mp hx
    rw [schemaCell h hrecord, ← honly x hrecord hm]
    rfl
  have hunique : requireUniqueSchema C
      (rs.map (singleSelect .relationColumn target ("schema" :: columnFields)).row) target.2 =
        .ok () :=
    uniqueSchemaLoop_ok target.2 hschemas (by intro s hs; cases hs)
  have hin : r ∈ rs := (hmem r).mpr ⟨hr, hrkey ▸ hmeans⟩
  constructor
  · rw [heq, hunique, hcolumns]
    split <;> rfl
  · cases rs with
    | nil => cases hin
    | cons x xs =>
        obtain ⟨first, rest, hfirst, -, hall⟩ := mapM_cons_ok hcolumns
        exact ⟨first, rest, hall, detailedColumn_schema hfirst (hschemas _ List.mem_cons_self)⟩

/-! ## What hangs on the columns -/

/-- The target that the other queries are about, once a schema has been found. -/
def located (key : Text × Text) : Target :=
  (some key.1, key.2)

theorem means_located (key : Text × Text) : (located key).means key = true := by
  simp [located, Target.means]

theorem eq_of_means_located {key other : Text × Text} (h : (located key).means other = true) :
    other = key := by
  simp only [located, Target.means, Option.all_some, Bool.and_eq_true, beq_iff_eq] at h
  exact Prod.ext h.2.symm h.1

theorem located_sql (h : Serves srv C records) (hb : Batched srv C targets g)
    (htarget : target ∈ targets) {key : Text × Text} (hkey : key ∈ g.matching target)
    {q : Select} (hq : q.filter = .one (located key)) : ∃ text, q.sql = .ok text := by
  obtain ⟨hmeans, r, hr, rfl⟩ := (mem_matching h hb htarget key).mp hkey
  refine Select.sql_ok ?_
  rw [hq]
  refine filter_one_sql ?_ ?_ _
  · simp only [Target.means, Bool.and_eq_true, beq_iff_eq] at hmeans
    rw [hmeans.1]
    exact (hb.written target htarget).1
  · rintro s hs
    cases hs
    exact h.writable _ r hr

section Located

variable {key : Text × Text}

theorem asked_of_matching (h : Serves srv C records) (hb : Batched srv C targets g)
    (htarget : target ∈ targets) (hkey : key ∈ g.matching target) :
    ∃ t ∈ targets, t.means key = true :=
  ⟨target, htarget, ((mem_matching h hb htarget key).mp hkey).1⟩

/-- The names that the batch pushed at a key, decoded from a query about the key. -/
theorem names_located (h : Serves srv C records) (hb : Batched srv C targets g)
    (htarget : target ∈ targets) (hkey : key ∈ g.matching target) {view : CatalogView}
    (hview : view ≠ .objectData) {m : List ((Text × Text) × List Text)}
    (hgathered : ∃ rows, srv.answer (batchSelect view targets ["attname"]) = .ok rows ∧
      gather (rowKey C) (pushName C) rows [] = .ok m) :
    ∃ rows, ask srv (singleSelect view (located key) ["attname"]) = .ok rows ∧
      (rows.mapM fun row => cell row 0 >>= C.text) = .ok ((get key m).getD []) := by
  obtain ⟨rows, hrows, hgather⟩ := hgathered
  obtain ⟨rs, hanswer, -, hnames⟩ := h.listed hview (means_located key)
    (asked_of_matching h hb htarget hkey) (fun r _ hr => eq_of_means_located hr) ["attname"]
    (fun row => cell row 2 >>= C.text) (fun row => cell row 0 >>= C.text) hrows (fun _ => rfl)
    hgather
  obtain ⟨text, htext⟩ := located_sql h hb htarget hkey
    (q := singleSelect view (located key) ["attname"]) rfl
  exact ⟨_, (ask_eq srv htext).trans hanswer, hnames⟩

theorem distributionKey_located (h : Serves srv C records) (hb : Batched srv C targets g)
    (htarget : target ∈ targets) (hkey : key ∈ g.matching target) :
    distributionKey srv C key.2 (some key.1) = .ok ((get key g.distribution).getD []) := by
  obtain ⟨rows, hrows, hnames⟩ := names_located h hb htarget hkey (by decide) hb.distribution
  rw [distributionKey]
  show (ask srv (singleSelect .tableDistMap (located key) ["attname"]) >>= _) = _
  rw [hrows, ok_bind]
  exact hnames

theorem organizeColumns_located (h : Serves srv C records) (hb : Batched srv C targets g)
    (htarget : target ∈ targets) (hkey : key ∈ g.matching target)
    (hplain : ¬ HasAdjacentQuotes key.2) :
    organizeColumns srv C U (quoteIdentifier key.2) (some (quoteIdentifier key.1)) =
      .ok ((get key g.organize).getD []) := by
  obtain ⟨rows, hrows, hnames⟩ := names_located h hb htarget hkey (by decide) hb.organize
  have hnormal := normalizeObjectName_quoted U (some key.1) hplain
  rw [Option.map_some] at hnormal
  rw [organizeColumns, hnormal, ok_bind]
  show (orMissing (ask srv (singleSelect .tableOrganizeColumn (located key) ["attname"])) >>= _) = _
  rw [hrows, orMissing, ok_bind]
  exact hnames

theorem tableKeys_located (h : Serves srv C records) (hb : Batched srv C targets g)
    (htarget : target ∈ targets) (hkey : key ∈ g.matching target)
    (hplain : ¬ HasAdjacentQuotes key.2) :
    tableKeys srv C U (quoteIdentifier key.2) (some (quoteIdentifier key.1)) =
      .ok ((get key g.keys).getD []) := by
  obtain ⟨rows, hrows, hgather⟩ := hb.keys
  obtain ⟨rs, hanswer, -, hfold⟩ := h.gathered (by decide) (means_located key)
    (asked_of_matching h hb htarget hkey) (fun r _ hr => eq_of_means_located hr) keyFields hrows
    hgather
  have hlist := foldlM_getD (f := fun keys r =>
    keyStep C 2 keys ((batchSelect .relationKeydata targets keyFields).row r)) hfold
  have hsame : ∀ keys (r : CatalogRecord V),
      keyStep C 2 keys ((batchSelect .relationKeydata targets keyFields).row r) =
        keyStep C 0 keys ((singleSelect .relationKeydata (located key) keyFields).row r) :=
    fun _ _ => rfl
  simp only [hsame] at hlist
  obtain ⟨text, htext⟩ := located_sql h hb htarget hkey
    (q := singleSelect .relationKeydata (located key) keyFields) rfl
  have hnormal := normalizeObjectName_quoted U (some key.1) hplain
  rw [Option.map_some] at hnormal
  rw [tableKeys, hnormal, ok_bind]
  show (orMissing (ask srv (singleSelect .relationKeydata (located key) keyFields)) >>= _) = _
  rw [ask_eq srv htext, hanswer, orMissing, ok_bind]
  show (rs.map _).foldlM _ _ = _
  rw [List.foldlM_map]
  exact hlist

end Located

/-! ## The comments that the batch has gathered -/

/-- The rows that bring a comment to the batch. -/
theorem commentKey_row (h : Serves srv C records) {comment : CatalogRecord V → Option Text}
    {q : Select} (hq : q.columns = ["schema", "objname", "description"]) {r : CatalogRecord V}
    (hr : r ∈ records .objectData)
    (hdecodes : C.optionalText (r.cells "description") = .ok (comment r)) :
    commentKey C (q.row r) = .ok ((filled comment r).map fun _ => r.key) := by
  have hschema : (cell (q.row r) 0 >>= C.text) = .ok r.schema := by
    rw [Select.row, hq]
    exact h.schemaText .objectData r hr
  have hname : (cell (q.row r) 1 >>= C.text) = .ok r.name := by
    rw [Select.row, hq]
    exact h.nameText .objectData r hr
  have hcell : (cell (q.row r) 2 >>= C.optionalText) = .ok (comment r) := by
    rw [Select.row, hq]
    exact hdecodes
  have hkey : rowKey C (q.row r) = .ok (some r.key) := by
    rw [rowKey, hschema, ok_bind, hname]
    rfl
  rw [commentKey, hcell, ok_bind, filled]
  cases comment r with
  | none => rfl
  | some text =>
      rw [Option.filter_some]
      dsimp only
      rw [hkey]
      cases (trim text).isEmpty <;> rfl

/-- The comment of a key in the batch is the first that its rows have. -/
theorem get_comments (h : Serves srv C records) (hb : Batched srv C targets g)
    {comment : CatalogRecord V → Option Text} (hd : Described C records targets comment)
    (key : Text × Text) :
    ∃ rb : List (CatalogRecord V),
      (∀ r, filled comment r ≠ none → (r ∈ rb ↔ (r ∈ records .objectData ∧ r.isTable = true ∧
        ∃ t ∈ targets, t.means r.key = true) ∧ r.key = key)) ∧
      get key g.comments = rb.findSome? (filled comment) := by
  obtain ⟨rows, hrows, hgather⟩ := hb.comments
  obtain ⟨rb, hanswer, hperm, -⟩ := h.answer
    (commentSelect (.any targets) ["schema", "objname", "description"] true)
  rw [show srv.answer (commentSelect (.any targets) ["schema", "objname", "description"] true) =
    .ok rows from hrows] at hanswer
  cases hanswer
  have hrecords : ∀ r, r ∈ rb ↔ r ∈ records .objectData ∧ r.isTable = true ∧
      ∃ t ∈ targets, t.means r.key = true := by
    intro r
    rw [hperm.mem_iff, List.mem_filter, Select.holds, and_comm (a := r.isTable = true)]
    simp [commentSelect, Filter.holds]
  rw [gather_map] at hgather
  have hget := gather_get
    (fun r hr => commentKey_row h rfl ((hrecords r).mp hr).1 (hd.decodes r ((hrecords r).mp hr).1))
    hgather key
  generalize hkept : rb.filter
    (fun r => ((filled comment r).map fun _ => r.key) = some key) = kept at hget
  have hmem : ∀ r, r ∈ kept ↔ r ∈ rb ∧ ∃ text, filled comment r = some text ∧ r.key = key := by
    intro r
    rw [← hkept, List.mem_filter, decide_eq_true_eq, Option.map_eq_some_iff]
  refine ⟨kept, ?_, ?_⟩
  · intro r hr
    obtain ⟨text, htext⟩ := Option.ne_none_iff_exists'.mp hr
    rw [hmem, hrecords, htext]
    simp
  · rw [foldlM_first (f := fun r => (comment r).getD []) (fun r hr s => ?_)] at hget
    · rw [← Except.ok.inj hget]
      cases kept with
      | nil => rfl
      | cons r rest =>
          obtain ⟨-, text, htext, -⟩ := (hmem r).mp List.mem_cons_self
          rw [List.findSome?_cons, htext]
          rw [filled, Option.filter_eq_some_iff] at htext
          show some ((comment r).getD []) = _
          rw [htext.1]
          rfl
    · have hrecord := ((hrecords r).mp ((hmem r).mp hr).1).1
      show (C.optionalText (r.cells "description")).map _ = _
      rw [hd.decodes r hrecord]
      rfl

theorem tableComment_located (h : Serves srv C records) (hb : Batched srv C targets g)
    {comment : CatalogRecord V → Option Text} (hd : Described C records targets comment)
    (htarget : target ∈ targets) {key : Text × Text} (hkey : key ∈ g.matching target)
    (hplain : ¬ HasAdjacentQuotes key.2) :
    tableComment srv C U (quoteIdentifier key.2) (some (quoteIdentifier key.1)) =
      .ok (get key g.comments) := by
  obtain ⟨rb, hmem, hget⟩ := get_comments h hb hd key
  have hasked := asked_of_matching h hb htarget hkey
  -- the rows that either query about the key finds have the comments that the batch has found
  have hfound : ∀ tablesOnly, ∃ rows,
      ask srv (commentSelect (.one (located key)) ["description"] tablesOnly) = .ok rows ∧
        firstComment C rows = .ok (get key g.comments) := by
    intro tablesOnly
    obtain ⟨rs, hanswer, hperm, -⟩ :=
      h.answer (commentSelect (.one (located key)) ["description"] tablesOnly)
    obtain ⟨text, htext⟩ := located_sql h hb htarget hkey
      (q := commentSelect (.one (located key)) ["description"] tablesOnly) rfl
    have hrecords : ∀ r, r ∈ rs ↔ r ∈ records .objectData ∧ r.key = key ∧
        (tablesOnly = true → r.isTable = true) := by
      intro r
      have hone : (located key).means r.key = true ↔ r.key = key :=
        ⟨eq_of_means_located, fun hsame => hsame ▸ means_located key⟩
      rw [hperm.mem_iff, List.mem_filter, Select.holds, ← hone]
      cases tablesOnly <;> simp [commentSelect, Filter.holds]
    refine ⟨_, (ask_eq srv htext).trans hanswer, ?_⟩
    rw [firstComment_rows rfl fun r hr => hd.decodes r ((hrecords r).mp hr).1, hget]
    refine congrArg _ (findSome?_congr ?_ ?_)
    · intro r hr
      rw [hrecords, hmem r hr]
      constructor
      · rintro ⟨hrecord, rfl, -⟩
        exact ⟨⟨hrecord, hd.onTables r hrecord hasked hr, hasked⟩, rfl⟩
      · rintro ⟨⟨hrecord, htable, -⟩, hsame⟩
        exact ⟨hrecord, hsame, fun _ => htable⟩
    · intro r hr r' hr' hfilled hfilled'
      obtain ⟨hrecord, hsame, -⟩ := (hrecords r).mp hr
      obtain ⟨⟨hrecord', -⟩, hsame'⟩ := (hmem r' hfilled').mp hr'
      exact hd.once r hrecord r' hrecord' (hsame.trans hsame'.symm) hfilled hfilled'
  obtain ⟨tables, htables, hfirst⟩ := hfound true
  obtain ⟨all, hall, hsecond⟩ := hfound false
  have hnormal := normalizeObjectName_quoted U (some key.1) hplain
  rw [Option.map_some] at hnormal
  rw [tableComment, hnormal, ok_bind]
  show (orMissing (ask srv (commentSelect (.one (located key)) ["description"] true)) >>= _) = _
  rw [htables, orMissing, ok_bind]
  dsimp only
  rw [hfirst, ok_bind]
  cases hcomment : get key g.comments with
  | some text => rfl
  | none =>
      show (orMissing (ask srv (commentSelect (.one (located key)) ["description"] false)) >>= _) =
        _
      rw [hall, orMissing, ok_bind]
      exact hsecond.trans (congrArg _ hcomment)

/-! ## Both batches -/

/-- An entry of the native batch as the blocking one reports it: with the schema that was asked
for. -/
def reported (target : Target) (entry : NzDdlBatchResult) : NzDdlBatchResult :=
  { entry with schema := target.1.getD "UNKNOWN".toList }

theorem tableDdl_found (h : Serves srv C records) (hb : Batched srv C targets g)
    {comment : CatalogRecord V → Option Text} (hd : Described C records targets comment)
    (htarget : target ∈ targets) (hplain : target.Plain) {key : Text × Text}
    (hkey : g.matching target = [key]) :
    tableDdl srv C U (quoteIdentifier target.2) (target.1.map quoteIdentifier) none =
      .ok (buildTableDdl g.database key.1 target.2 ((get key g.columns).getD [])
        ((get key g.distribution).getD []) ((get key g.organize).getD [])
        ((get key g.keys).getD []) (get key g.comments)) := by
  have hin : key ∈ g.matching target := hkey ▸ List.mem_cons_self
  have hmeans := ((mem_matching h hb htarget key).mp hin).1
  simp only [Target.means, Bool.and_eq_true, beq_iff_eq] at hmeans
  obtain ⟨hcolumns, first, rest, hcons, hfirst⟩ :=
    detailedColumns_found (U := U) h hb htarget hplain hkey
  obtain ⟨catalog, hcatalog, hdatabase⟩ := hb.catalog
  have hschema : target.1.getD first.schema = key.1 := by
    cases hs : target.1 with
    | none => exact hfirst
    | some s =>
        rw [hs] at hmeans
        simpa using hmeans.2
  have hname : ¬ HasAdjacentQuotes key.2 := by
    rw [hmeans.1]
    exact hplain
  have hdistribution := distributionKey_located h hb htarget hin
  have horganize := organizeColumns_located (U := U) h hb htarget hin hname
  have hkeys := tableKeys_located (U := U) h hb htarget hin hname
  have hcomment := tableComment_located (U := U) h hb hd htarget hin hname
  rw [hmeans.1] at hdistribution horganize hkeys hcomment
  rw [tableDdl, normalizeObjectName_quoted U target.1 hplain, ok_bind]
  dsimp only
  rw [hcolumns, ok_bind, hcons]
  dsimp only
  rw [hcatalog, ok_bind, hdatabase, ok_bind, hschema, hdistribution, ok_bind, horganize, ok_bind,
    hkeys, ok_bind, hcomment, ok_bind]
  rfl

/-- The blocking API reports of every target what the batch does. -/
theorem batchResult_agrees (h : Serves srv C records) (hb : Batched srv C targets g)
    {comment : CatalogRecord V → Option Text} (hd : Described C records targets comment)
    (htarget : target ∈ targets) (hplain : target.Plain) :
    batchResult target
        (tableDdl srv C U (quoteIdentifier target.2) (target.1.map quoteIdentifier) none) =
      .ok (reported target (g.result target)) := by
  cases hkeys : g.matching target with
  | nil =>
      have hcolumns := detailedColumns_none (U := U) h hb htarget hplain hkeys
      rw [tableDdl, normalizeObjectName_quoted U target.1 hplain, ok_bind]
      dsimp only
      rw [hcolumns, ok_bind, Gathered.result, Gathered.build]
      rw [Gathered.matching] at hkeys
      rw [hkeys]
      rfl
  | cons key rest =>
      cases rest with
      | nil =>
          rw [tableDdl_found h hb hd htarget hplain hkeys, Gathered.result, Gathered.build]
          rw [Gathered.matching] at hkeys
          rw [hkeys]
          rfl
      | cons key' rest =>
          have hcolumns := detailedColumns_several (U := U) h hb htarget hplain hkeys
          rw [tableDdl, normalizeObjectName_quoted U target.1 hplain, ok_bind]
          dsimp only
          rw [hcolumns, Gathered.result, Gathered.build]
          rw [Gathered.matching] at hkeys
          rw [hkeys]
          rfl

/-- Where a schema was asked for the entry names it. -/
theorem reported_result (h : Serves srv C records) (hb : Batched srv C targets g)
    (htarget : target ∈ targets) (hasked : target.1 ≠ none) :
    reported target (g.result target) = g.result target := by
  obtain ⟨s, hs⟩ := Option.ne_none_iff_exists'.mp hasked
  rw [reported, Gathered.result, Gathered.build]
  cases hkeys : (g.columns.map Prod.fst).filter target.means with
  | nil => rfl
  | cons key rest =>
      cases rest with
      | cons key' rest => rfl
      | nil =>
          have hmeans := ((mem_matching h hb htarget key).mp (by
            rw [Gathered.matching, hkeys]
            exact List.mem_cons_self)).1
          simp only [Target.means, hs, Option.all_some, Bool.and_eq_true, beq_iff_eq] at hmeans
          rw [hs]
          show NzDdlBatchResult.mk s _ _ _ = _
          rw [hmeans.2]

/-- A native batch that ends well has the entries that the blocking API puts together table by
table, errors included. The blocking ones name the schema that was asked for, so where all targets
have one the batches are equal. -/
theorem batches_agree (h : Serves srv C records) {schema pattern : Option Text}
    {names : Option (List Text)}
    (htargets : ddlTargets srv C U schema pattern names = .ok targets)
    (hplain : ∀ target ∈ targets, target.Plain) {comment : CatalogRecord V → Option Text}
    (hd : Described C records targets comment) {results : List NzDdlBatchResult}
    (hbatch : tableDdlBatch srv C U schema pattern names none = .ok results) :
    batchDdl srv C U schema pattern names = .ok (List.zipWith reported targets results) ∧
      ((∀ target ∈ targets, target.1 ≠ none) →
        batchDdl srv C U schema pattern names = .ok results) := by
  rcases tableDdlBatch_ok h htargets hbatch with ⟨rfl, rfl⟩ | ⟨g, hb, rfl⟩
  · rw [batchDdl, htargets]
    exact ⟨rfl, fun _ => rfl⟩
  · have hall : batchDdl srv C U schema pattern names =
        .ok (targets.map fun target => reported target (g.result target)) := by
      rw [batchDdl, htargets, ok_bind]
      exact mapM_eq_ok fun target htarget =>
        batchResult_agrees h hb hd htarget (hplain target htarget)
    refine ⟨?_, fun hasked => ?_⟩
    · rw [hall, List.zipWith_map_right, List.zipWith_self]
    · rw [hall]
      exact congrArg _ (List.map_congr_left fun target htarget =>
        reported_result h hb htarget (hasked target htarget))

end Columns

/-! ## A catalog of two schemas -/

/-- A server that sorts the records that a filter holds of. -/
def serving {V : Type} [LinearOrder V] (records : CatalogView → List (CatalogRecord V))
    (catalog : List (List V)) : CatalogServer V :=
  let answer (q : Select) : Exec NzError (List (List V)) :=
    .ok ((((records q.view).filter q.holds).insertionSort fun r r' =>
      q.orderBy.map r.cells ≤ q.orderBy.map r'.cells).map q.row)
  { answer
    answerBatch := fun qs => do
      let sets ← qs.mapM answer
      return catalog :: sets
    currentCatalog := .ok catalog
    listTables := fun _ _ => .ok (((records .objectData).filter (·.isTable)).map fun r =>
      [r.cells "schema", r.cells "objname"]) }

theorem serving_answer {V : Type} [LinearOrder V] (records : CatalogView → List (CatalogRecord V))
    (catalog : List (List V)) (q : Select) :
    ∃ rs : List (CatalogRecord V), (serving records catalog).answer q = .ok (rs.map q.row) ∧
      rs.Perm ((records q.view).filter q.holds) ∧
      rs.Pairwise fun r r' => q.orderBy.map r.cells ≤ q.orderBy.map r'.cells := by
  have htotal : Std.Total fun r r' : CatalogRecord V =>
      q.orderBy.map r.cells ≤ q.orderBy.map r'.cells := ⟨fun _ _ => le_total _ _⟩
  have htrans : IsTrans (CatalogRecord V) fun r r' =>
      q.orderBy.map r.cells ≤ q.orderBy.map r'.cells := ⟨fun _ _ _ => le_trans⟩
  exact ⟨_, rfl, List.perm_insertionSort _ _, List.pairwise_insertionSort _ _⟩

/-- Cells that are texts. -/
def textCells : Cells Text where
  text value := .ok value
  optionalText value := .ok (if value = [] then none else some value)
  boolValue value := .ok (value == "t".toList)
  ordinal value := .ok (value.foldl (fun n c => 10 * n + (c.toNat - 48)) 0 : Nat)
  isNull value := .ok (value == [])

def textRecord (view : CatalogView) (schema name : String) (fields : List (String × String)) :
    CatalogRecord Text where
  schema := schema.toList
  name := name.toList
  isTable := true
  cells column :=
    ((("schema", schema) :: (view.nameColumn, name) :: fields).lookup column).getD "" |>.toList

theorem textRecord_name (view : CatalogView) (schema name : String)
    (fields : List (String × String)) :
    (textRecord view schema name fields).cells view.nameColumn = name.toList := by
  cases view <;> rfl

def sampleFields : List (String × String) :=
  [("attname", "ID"), ("attnum", "1"), ("format_type", "INTEGER"), ("attnotnull", "t")]

/-- A table of one name in two schemas, and a comment on one of them. -/
def sampleRecords (view : CatalogView) : List (CatalogRecord Text) :=
  (match view with
    | .relationColumn => [("ADMIN", "T", sampleFields), ("OTHER", "T", sampleFields)]
    | .objectData => [("ADMIN", "T", [("description", "it's")])]
    | _ => []).map fun (schema, name, fields) => textRecord view schema name fields

theorem sampleRecords_mem {view : CatalogView} {r : CatalogRecord Text}
    (hr : r ∈ sampleRecords view) : ∃ schema name fields,
      r = textRecord view schema name fields ∧ (schema = "ADMIN" ∨ schema = "OTHER") := by
  obtain ⟨⟨schema, name, fields⟩, hmem, rfl⟩ := List.mem_map.mp hr
  refine ⟨schema, name, fields, rfl, ?_⟩
  cases view <;> simp at hmem <;> tauto

theorem sample_serves (catalog : List (List Text)) :
    Serves (serving sampleRecords catalog) textCells sampleRecords where
  answer := serving_answer sampleRecords catalog
  answerBatch _ := rfl
  schemaText view r hr := by
    obtain ⟨schema, name, fields, rfl, -⟩ := sampleRecords_mem hr
    rfl
  nameText view r hr := by
    obtain ⟨schema, name, fields, rfl, -⟩ := sampleRecords_mem hr
    exact congrArg _ (textRecord_name view schema name fields)
  sameSchema view r hr r' hr' hsame := by
    obtain ⟨schema, name, fields, rfl, -⟩ := sampleRecords_mem hr
    obtain ⟨schema', name', fields', rfl, -⟩ := sampleRecords_mem hr'
    exact hsame
  sameName view r hr r' hr' hsame := by
    obtain ⟨schema, name, fields, rfl, -⟩ := sampleRecords_mem hr
    obtain ⟨schema', name', fields', rfl, -⟩ := sampleRecords_mem hr'
    rw [textRecord_name, textRecord_name]
    exact hsame
  position view _ r hr r' hr' hsame _ := by
    have hschema : r.schema = r'.schema := congrArg Prod.fst hsame
    cases view <;> simp [sampleRecords, textRecord] at hr hr'
    · rcases hr with rfl | rfl <;> rcases hr' with rfl | rfl <;> first | rfl | cases hschema
    · rw [hr, hr']
  writable view r hr := by
    obtain ⟨schema, name, fields, rfl, rfl | rfl⟩ := sampleRecords_mem hr <;> exact ⟨_, rfl⟩

/-- The comment of a sample record. -/
def sampleComment (r : CatalogRecord Text) : Option Text :=
  if r.cells "description" = [] then none else some (r.cells "description")

theorem sample_described (targets : List Target) :
    Described textCells sampleRecords targets sampleComment where
  decodes _ _ := rfl
  onTables r hr _ _ := by
    obtain ⟨schema, name, fields, rfl, -⟩ := sampleRecords_mem hr
    rfl
  once r hr r' hr' _ _ _ := by
    rw [List.mem_singleton.mp hr, List.mem_singleton.mp hr']

theorem sample_batches_agree :
    ∃ results, tableDdlBatch (serving sampleRecords [["DB".toList]]) textCells asciiUppercase none
        none (some ["ADMIN.T".toList, "T".toList, "X".toList]) none = .ok results ∧
      batchDdl (serving sampleRecords [["DB".toList]]) textCells asciiUppercase none none
        (some ["ADMIN.T".toList, "T".toList, "X".toList]) =
          .ok (List.zipWith reported [(some "ADMIN".toList, "T".toList), (none, "T".toList),
            (none, "X".toList)] results) := by
  have hplain : ∀ target ∈ ([(some "ADMIN".toList, "T".toList), (none, "T".toList),
      (none, "X".toList)] : List Target), target.Plain := by
    simp [Target.Plain, HasAdjacentQuotes, List.infix_cons_iff]
  exact ⟨_, rfl, (batches_agree (sample_serves _) rfl hplain (sample_described _) rfl).1⟩

end NzRust.Metadata
