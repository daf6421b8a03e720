import Mathlib.Data.List.Lex
import NzRust.Metadata.DdlBatch

/-!
# Answers of the catalog

A catalog that answers both APIs: its views are lists of records, a query gives
the records that its filter means, in its order. What the batch finds of one
object is then what a query about that object alone finds.
-/

namespace NzRust.Metadata

open Checked Sql Gathering

/-! ## The catalog -/

structure CatalogRecord (V : Type) where
  schema : Text
  name : Text
  isTable : Bool
  cells : String → V

def CatalogRecord.key {V : Type} (r : CatalogRecord V) : Text × Text :=
  (r.schema, r.name)

section Catalog

variable {V : Type}

def Filter.holds : Filter → CatalogRecord V → Bool
  | .one target, r => target.means r.key
  | .any targets, r => targets.any fun target => target.means r.key

def Select.holds (q : Select) (r : CatalogRecord V) : Bool :=
  q.filter.holds r && (!q.tablesOnly || r.isTable)

def Select.row (q : Select) (r : CatalogRecord V) : List V :=
  q.columns.map r.cells

/-- The columns that number the rows of one object. -/
def CatalogView.position : CatalogView → List String
  | .relationColumn => ["attnum"]
  | .tableDistMap => ["distattnum"]
  | .tableOrganizeColumn => ["orgseqno"]
  | .relationKeydata => ["constraintname", "conseq"]
  | .objectData => []

/-- The server answers from these records. Schemas and names arrive as the texts that its filters
compare, and its order is one of the cells. -/
structure Serves [LinearOrder V] (srv : CatalogServer V) (C : Cells V)
    (records : CatalogView → List (CatalogRecord V)) : Prop where
  answer : ∀ q, ∃ rs : List (CatalogRecord V), srv.answer q = .ok (rs.map q.row) ∧
    rs.Perm ((records q.view).filter q.holds) ∧
    rs.Pairwise fun r r' => q.orderBy.map r.cells ≤ q.orderBy.map r'.cells
  answerBatch : ∀ qs, srv.answerBatch qs = do
    let catalog ← srv.currentCatalog
    let sets ← qs.mapM srv.answer
    return catalog :: sets
  schemaText : ∀ view, ∀ r ∈ records view, C.text (r.cells "schema") = .ok r.schema
  nameText : ∀ view, ∀ r ∈ records view, C.text (r.cells view.nameColumn) = .ok r.name
  sameSchema : ∀ view, ∀ r ∈ records view, ∀ r' ∈ records view, r.schema = r'.schema →
    r.cells "schema" = r'.cells "schema"
  sameName : ∀ view, ∀ r ∈ records view, ∀ r' ∈ records view, r.name = r'.name →
    r.cells view.nameColumn = r'.cells view.nameColumn
  position : ∀ view, view ≠ .objectData → ∀ r ∈ records view, ∀ r' ∈ records view,
    r.key = r'.key → view.position.map r.cells = view.position.map r'.cells → r = r'
  writable : ∀ view, ∀ r ∈ records view, ∃ text, literal r.schema = .ok text

/-- The query of the batch about a view, and the one about a single target. -/
def batchSelect (view : CatalogView) (targets : List Target) (fields : List String) : Select where
  columns := "schema" :: view.nameColumn :: fields
  view := view
  filter := .any targets
  orderBy := "schema" :: view.nameColumn :: view.position

def singleSelect (view : CatalogView) (target : Target) (fields : List String) : Select where
  columns := fields
  view := view
  filter := .one target
  orderBy := view.position

theorem batchSelect_holds (view : CatalogView) (targets : List Target) (fields : List String) :
    (batchSelect view targets fields).holds =
      fun r : CatalogRecord V => (Filter.any targets).holds r := by
  funext r
  simp only [Select.holds, batchSelect, Bool.not_false, Bool.true_or, Bool.and_true]

theorem singleSelect_holds (view : CatalogView) (target : Target) (fields : List String) :
    (singleSelect view target fields).holds =
      fun r : CatalogRecord V => (Filter.one target).holds r := by
  funext r
  simp only [Select.holds, singleSelect, Bool.not_false, Bool.true_or, Bool.and_true]

end Catalog

/-! ## What a query sees of one object -/

theorem le_of_cons_le {V : Type} [LinearOrder V] {a : V} {l m : List V} (h : a :: l ≤ a :: m) :
    l ≤ m :=
  le_of_not_gt fun hlt => not_le_of_gt (List.Lex.cons hlt) h

section Answers

variable {V : Type} [LinearOrder V] {srv : CatalogServer V} {C : Cells V}
  {records : CatalogView → List (CatalogRecord V)}

/-- The rows of one object in the answer of the batch are the answer about it alone, when nothing
else is meant by the single query. -/
theorem Serves.restrict (h : Serves srv C records) {view : CatalogView} (hview : view ≠ .objectData)
    {target : Target} {targets : List Target} {key : Text × Text}
    (hmeans : target.means key = true) (hasked : ∃ t ∈ targets, t.means key = true)
    (honly : ∀ r ∈ records view, target.means r.key = true → r.key = key)
    {rb rs : List (CatalogRecord V)}
    (hb : rb.Perm ((records view).filter fun r => (Filter.any targets).holds r))
    (hbsorted : rb.Pairwise fun r r' =>
      ("schema" :: view.nameColumn :: view.position).map r.cells ≤
        ("schema" :: view.nameColumn :: view.position).map r'.cells)
    (hs : rs.Perm ((records view).filter fun r => (Filter.one target).holds r))
    (hssorted : rs.Pairwise fun r r' => view.position.map r.cells ≤ view.position.map r'.cells) :
    rb.filter (fun r => r.key = key) = rs := by
  have hrb : ∀ r ∈ rb.filter (fun r => r.key = key), r ∈ records view ∧ r.key = key := by
    intro r hr
    rw [List.mem_filter, decide_eq_true_eq] at hr
    exact ⟨(List.mem_filter.mp (hb.subset hr.1)).1, hr.2⟩
  have hrs : ∀ r ∈ rs, r ∈ records view ∧ r.key = key := by
    intro r hr
    obtain ⟨hmem, hholds⟩ := List.mem_filter.mp (hs.subset hr)
    exact ⟨hmem, honly r hmem hholds⟩
  have hantisymm : ∀ r r', r ∈ rb.filter (fun r => r.key = key) → r' ∈ rs →
      view.position.map r.cells ≤ view.position.map r'.cells →
      view.position.map r'.cells ≤ view.position.map r.cells → r = r' := by
    intro r r' hr hr' hle hge
    obtain ⟨hmem, hkey⟩ := hrb r hr
    obtain ⟨hmem', hkey'⟩ := hrs r' hr'
    exact h.position view hview r hmem r' hmem' (hkey.trans hkey'.symm) (le_antisymm hle hge)
  have hsorted : (rb.filter (fun r => r.key = key)).Pairwise fun r r' =>
      view.position.map r.cells ≤ view.position.map r'.cells := by
    refine (hbsorted.filter _).imp_of_mem ?_
    intro r r' hr hr' hle
    obtain ⟨hmem, hkey⟩ := hrb r hr
    obtain ⟨hmem', hkey'⟩ := hrb r' hr'
    have hsame : r.key = r'.key := hkey.trans hkey'.symm
    have hschema := h.sameSchema view r hmem r' hmem' (congrArg Prod.fst hsame)
    have hname := h.sameName view r hmem r' hmem' (congrArg Prod.snd hsame)
    simp only [List.map_cons, hschema, hname] at hle
    exact le_of_cons_le (le_of_cons_le hle)
  have hfilter : ((records view).filter fun r => (Filter.any targets).holds r).filter
      (fun r => r.key = key) = (records view).filter fun r => (Filter.one target).holds r := by
    rw [List.filter_filter]
    refine List.filter_congr ?_
    intro r hr
    by_cases hkey : r.key = key
    · have hone : (Filter.one target).holds r = true := by
        rw [← hmeans, ← hkey]
        rfl
      have hany : (Filter.any targets).holds r = true := by
        rw [← hkey] at hasked
        exact List.any_eq_true.mpr hasked
      rw [hany, hone, Bool.and_true, decide_eq_true hkey]
    · have hnot : target.means r.key = false := by
        cases hm : target.means r.key with
        | false => rfl
        | true => exact absurd (honly r hr hm) hkey
      rw [decide_eq_false hkey, Bool.false_and]
      exact hnot.symm
  have hperm := hb.filter fun r => r.key = key
  rw [hfilter] at hperm
  exact List.Perm.eq_of_pairwise hantisymm hsorted hssorted (hperm.trans hs.symm)

theorem Serves.rowKey (h : Serves srv C records) {view : CatalogView} {targets : List Target}
    {fields : List String} {r : CatalogRecord V} (hr : r ∈ records view) :
    rowKey C ((batchSelect view targets fields).row r) = .ok (some r.key) := by
  have hschema : cell ((batchSelect view targets fields).row r) 0 = .ok (r.cells "schema") := rfl
  have hname : cell ((batchSelect view targets fields).row r) 1 =
      .ok (r.cells view.nameColumn) := rfl
  rw [Metadata.rowKey, hschema, hname]
  show (C.text (r.cells "schema") >>= fun schema =>
    C.text (r.cells view.nameColumn) >>= fun name => pure (some (schema, name))) = _
  rw [h.schemaText view r hr, h.nameText view r hr]
  rfl

/-- What the batch has gathered for a key, from the answer about its target alone. -/
theorem Serves.gathered {T : Type} (h : Serves srv C records) {view : CatalogView}
    (hview : view ≠ .objectData) {target : Target} {targets : List Target} {key : Text × Text}
    (hmeans : target.means key = true) (hasked : ∃ t ∈ targets, t.means key = true)
    (honly : ∀ r ∈ records view, target.means r.key = true → r.key = key)
    {fields : List String} (singleFields : List String) {rows : List (List V)}
    (hrows : srv.answer (batchSelect view targets fields) = .ok rows)
    {step : Option T → List V → Exec NzError T} {m : List ((Text × Text) × T)}
    (hgather : gather (Metadata.rowKey C) step rows [] = .ok m) :
    ∃ rs : List (CatalogRecord V), srv.answer (singleSelect view target singleFields) =
        .ok (rs.map (singleSelect view target singleFields).row) ∧
      (∀ r ∈ rs, r ∈ records view ∧ r.key = key) ∧
      rs.foldlM (fun held r =>
        (step held ((batchSelect view targets fields).row r)).map some) none = .ok (get key m) := by
  obtain ⟨rb, hrb, hbperm, hbsorted⟩ := h.answer (batchSelect view targets fields)
  obtain ⟨rs, hrs, hsperm, hssorted⟩ := h.answer (singleSelect view target singleFields)
  rw [hrows] at hrb
  cases hrb
  have hb : rb.Perm ((records view).filter fun r => (Filter.any targets).holds r) := by
    rw [batchSelect_holds] at hbperm
    exact hbperm
  have hs : rs.Perm ((records view).filter fun r => (Filter.one target).holds r) := by
    rw [singleSelect_holds] at hsperm
    exact hsperm
  have hrestrict := h.restrict hview hmeans hasked honly hb hbsorted hs hssorted
  refine ⟨rs, hrs, ?_, ?_⟩
  · intro r hr
    obtain ⟨hmem, hone⟩ := List.mem_filter.mp (hs.subset hr)
    exact ⟨hmem, honly r hmem hone⟩
  · rw [gather_map] at hgather
    have hvisit : ∀ r ∈ rb, Metadata.rowKey C ((batchSelect view targets fields).row r) =
        .ok (some r.key) := by
      intro r hr
      exact h.rowKey (List.mem_filter.mp (hb.subset hr)).1
    have hget := gather_get hvisit hgather key
    simp only [Option.some.injEq] at hget
    rw [hrestrict] at hget
    exact hget

/-- Lists that the batch pushes at a key are decoded alike from the answer about the target. -/
theorem Serves.listed {T : Type} (h : Serves srv C records) {view : CatalogView}
    (hview : view ≠ .objectData) {target : Target} {targets : List Target} {key : Text × Text}
    (hmeans : target.means key = true) (hasked : ∃ t ∈ targets, t.means key = true)
    (honly : ∀ r ∈ records view, target.means r.key = true → r.key = key)
    {fields : List String} (singleFields : List String) (decode decode' : List V → Exec NzError T)
    {rows : List (List V)} (hrows : srv.answer (batchSelect view targets fields) = .ok rows)
    {m : List ((Text × Text) × List T)}
    (hsame : ∀ r : CatalogRecord V, decode ((batchSelect view targets fields).row r) =
      decode' ((singleSelect view target singleFields).row r))
    (hgather : gather (Metadata.rowKey C)
      (fun held row => (decode row).map fun x => held.getD [] ++ [x]) rows [] = .ok m) :
    ∃ rs : List (CatalogRecord V), srv.answer (singleSelect view target singleFields) =
        .ok (rs.map (singleSelect view target singleFields).row) ∧
      (∀ r ∈ rs, r ∈ records view ∧ r.key = key) ∧
      (rs.map (singleSelect view target singleFields).row).mapM decode' =
        .ok ((get key m).getD []) := by
  obtain ⟨rs, hanswer, hmem, hfold⟩ := h.gathered hview hmeans hasked honly singleFields hrows
    hgather
  refine ⟨rs, hanswer, hmem, ?_⟩
  simp only [hsame] at hfold
  have hlist := foldlM_getD (f := fun held r =>
    (decode' ((singleSelect view target singleFields).row r)).map fun x => held ++ [x]) hfold
  obtain ⟨xs, hxs, hall⟩ := mapM_of_foldlM hlist
  rw [hall, Option.getD_none, List.nil_append, List.mapM_map]
  exact hxs

end Answers

/-! ## Names and texts -/

theorem mapM_cons_ok {α β ε : Type} {f : α → Except ε β} {a : α} {as : List α} {bs : List β}
    (h : (a :: as).mapM f = .ok bs) :
    ∃ b rest, f a = .ok b ∧ as.mapM f = .ok rest ∧ bs = b :: rest := by
  rw [List.mapM_cons] at h
  obtain ⟨b, hb, h⟩ := except_bind_ok h
  obtain ⟨rest, hrest, h⟩ := except_bind_ok h
  cases h
  exact ⟨b, rest, hb, hrest, rfl⟩

/-- A target whose name survives being quoted and normalised again. -/
def Target.Plain (target : Target) : Prop :=
  ¬ HasAdjacentQuotes target.2

theorem normalizeObjectName_quoted (U : Uppercase) {name : Text} (schema : Option Text)
    (h : ¬ HasAdjacentQuotes name) :
    normalizeObjectName U (quoteIdentifier name) (schema.map quoteIdentifier) =
      .ok (schema, name) := by
  have hname : undoubled name = name := undoubled_eq_iff.mpr h
  cases schema with
  | some schema =>
      rw [Option.map_some, normalizeObjectName_schema, hname]
  | none =>
      have hscan : NameScan.run {} (quoteIdentifier name) = { part := keptName name } := by
        have hrun := NameScan.run_quoteIdentifier {} rfl name [] (by intro h; cases h)
        rwa [List.append_nil, List.nil_append] at hrun
      rw [normalizeObjectName, hscan, if_neg (by simp), normalizeIdentifier_kept, hname]
      rfl

/-- Whether a text can be written as a literal. -/
def Writable (value : Text) : Prop :=
  ∃ text, literal value = .ok text

theorem ask_eq {V : Type} (srv : CatalogServer V) {q : Select} {text : Text}
    (h : q.sql = .ok text) : ask srv q = srv.answer q := by
  rw [ask, h]
  rfl

theorem filter_one_sql {schema : Option Text} {name : Text} (hname : Writable name)
    (hschema : ∀ s, schema = some s → Writable s) (nameColumn : String) :
    ∃ text, (Filter.one (schema, name)).sql nameColumn = .ok text := by
  obtain ⟨text, htext⟩ := hname
  cases schema with
  | none =>
      refine ⟨nameColumn.toList ++ " = ".toList ++ text ++ [], ?_⟩
      rw [Filter.sql, htext]
      rfl
  | some schema =>
      obtain ⟨other, hother⟩ := hschema schema rfl
      refine ⟨nameColumn.toList ++ " = ".toList ++ text ++ (" AND schema = ".toList ++ other), ?_⟩
      rw [Filter.sql, htext]
      simp only [optionalFilter, hother]
      rfl

theorem Select.sql_ok {q : Select} (h : ∃ text, q.filter.sql q.view.nameColumn = .ok text) :
    ∃ text, q.sql = .ok text := by
  obtain ⟨text, htext⟩ := h
  rw [Select.sql, htext]
  exact ⟨_, rfl⟩

theorem targetClause_writable {schemaColumn nameColumn : String} {target : Target} {text : Text}
    (h : targetClause schemaColumn nameColumn target = .ok text) :
    Writable target.2 ∧ ∀ s, target.1 = some s → Writable s := by
  obtain ⟨schema, name⟩ := target
  obtain ⟨value, hname, h⟩ := except_bind_ok h
  refine ⟨⟨value, hname⟩, ?_⟩
  rintro s rfl
  obtain ⟨other, hother, -⟩ := except_bind_ok h
  exact ⟨other, hother⟩

/-- What the batch has written can be written one by one. -/
theorem targetFilter_writable {targets : List Target} {schemaColumn nameColumn : String}
    {text : Text} (h : targetFilter targets schemaColumn nameColumn = .ok text) :
    ∀ target ∈ targets, Writable target.2 ∧ ∀ s, target.1 = some s → Writable s := by
  obtain ⟨clauses, hclauses, -⟩ := except_bind_ok h
  clear h
  induction targets generalizing clauses with
  | nil =>
      intro target htarget
      cases htarget
  | cons first rest ih =>
      obtain ⟨clause, others, hclause, hothers, -⟩ := mapM_cons_ok hclauses
      intro target htarget
      rcases List.mem_cons.mp htarget with rfl | hmem
      · exact targetClause_writable hclause
      · exact ih others hothers target hmem

/-! ## One schema or several -/

section Schemas

variable {V : Type} {C : Cells V} (name : Text)

theorem uniqueSchemaLoop_ok {rows : List (List V)} {schema : Text}
    (hrows : ∀ row ∈ rows, (cell row 0 >>= C.text) = .ok schema) {held : Option Text}
    (hheld : ∀ s, held = some s → s = schema) : uniqueSchemaLoop C name held rows = .ok () := by
  induction rows generalizing held with
  | nil => rfl
  | cons row rows ih =>
      rw [uniqueSchemaLoop, hrows row List.mem_cons_self, ok_bind]
      have hnone : held.any (· != schema) = false := by
        cases held with
        | none => rfl
        | some s => simp [hheld s rfl]
      rw [if_neg (by rw [hnone]; exact Bool.false_ne_true)]
      refine ih (fun row hrow => hrows row (List.mem_cons_of_mem _ hrow)) ?_
      intro s hs
      exact (Option.some.inj hs).symm

theorem uniqueSchemaLoop_other {rows : List (List V)}
    (hrows : ∀ row ∈ rows, ∃ s, (cell row 0 >>= C.text) = .ok s) {held : Text}
    (hother : ∃ row ∈ rows, ∃ s, (cell row 0 >>= C.text) = .ok s ∧ s ≠ held) :
    uniqueSchemaLoop C name (some held) rows = fail (severalSchemas name) := by
  induction rows with
  | nil =>
      obtain ⟨row, hrow, -⟩ := hother
      cases hrow
  | cons row rows ih =>
      obtain ⟨s, hs⟩ := hrows row List.mem_cons_self
      rw [uniqueSchemaLoop, hs, ok_bind]
      by_cases hsame : s = held
      · subst hsame
        rw [if_neg (by simp)]
        refine ih (fun row hrow => hrows row (List.mem_cons_of_mem _ hrow)) ?_
        obtain ⟨other, hmem, s', hs', hne⟩ := hother
        rcases List.mem_cons.mp hmem with rfl | hmem
        · rw [hs] at hs'
          exact absurd (Except.ok.inj hs').symm hne
        · exact ⟨other, hmem, s', hs', hne⟩
      · rw [if_pos (by simpa using fun h => hsame h.symm)]

/-- Rows of two schemas are refused, wherever they stand. -/
theorem uniqueSchemaLoop_several {rows : List (List V)}
    (hrows : ∀ row ∈ rows, ∃ s, (cell row 0 >>= C.text) = .ok s) {row row' : List V}
    (hrow : row ∈ rows) (hrow' : row' ∈ rows) {s s' : Text}
    (hs : (cell row 0 >>= C.text) = .ok s) (hs' : (cell row' 0 >>= C.text) = .ok s')
    (hne : s ≠ s') : requireUniqueSchema C rows name = fail (severalSchemas name) := by
  cases rows with
  | nil => cases hrow
  | cons first rows =>
      obtain ⟨t, ht⟩ := hrows first List.mem_cons_self
      rw [requireUniqueSchema, uniqueSchemaLoop, ht, ok_bind]
      show uniqueSchemaLoop C name (some t) rows = _
      have hrest : ∀ row ∈ rows, ∃ s, (cell row 0 >>= C.text) = .ok s :=
        fun row hrow => hrows row (List.mem_cons_of_mem _ hrow)
      refine uniqueSchemaLoop_other name hrest ?_
      -- one of the two schemas is not the first row's
      by_cases hfirst : s = t
      · rcases List.mem_cons.mp hrow' with rfl | hmem
        · rw [ht] at hs'
          exact absurd (hfirst.trans (Except.ok.inj hs')) hne
        · exact ⟨row', hmem, s', hs', fun h => hne (hfirst.trans h.symm)⟩
      · rcases List.mem_cons.mp hrow with rfl | hmem
        · rw [ht] at hs
          exact absurd (Except.ok.inj hs).symm hfirst
        · exact ⟨row, hmem, s, hs, hfirst⟩

theorem detailedColumn_schema {base : Nat} {row : List V} {column : NzDetailedColumnInfo}
    {schema : Text} (h : detailedColumn C base row = .ok column)
    (hschema : (cell row 0 >>= C.text) = .ok schema) : column.schema = schema := by
  obtain ⟨first, hfirst, h⟩ := bind_ok h
  obtain ⟨name, -, h⟩ := bind_ok h
  obtain ⟨ordinal, -, h⟩ := bind_ok h
  obtain ⟨typeName, -, h⟩ := bind_ok h
  obtain ⟨notNull, -, h⟩ := bind_ok h
  obtain ⟨defaultValue, -, h⟩ := bind_ok h
  obtain ⟨description, -, h⟩ := bind_ok h
  cases h
  exact Except.ok.inj (hfirst.symm.trans hschema)

end Schemas

end NzRust.Metadata
