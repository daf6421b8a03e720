import NzRust.Core.Error
import NzRust.Sql.Fragments

/-!
# Catalog queries

The queries of the metadata API that names are written into. Each of them is put
together from fragments, so it is one statement without placeholders whatever the
names are, and the names do not show in its code.
-/

namespace NzRust.Metadata

open Checked Sql

/-- `escape_literal` of a text, with its error as the API reports it. -/
def literal (value : Text) : Except NzError Text :=
  (writeTextLiteral value).mapError .config

/-- A filter that is there when its value is. -/
def optionalFilter (code : String) : Option Text → Except NzError Text
  | none => .ok []
  | some value => do
      let literal ← literal value
      return code.toList ++ literal

def tablesColumns : String :=
  "SELECT schema, tablename, owner, objtype, objid, reltuples"

def tablesFrom : String :=
  " FROM _v_table WHERE tablename IS NOT NULL"

def tablesNotIn : String :=
  " AND schema NOT IN ('DEFINITION_SCHEMA', 'INZA', 'NZ_QUERY_HISTORY')"

def tablesOrder : String :=
  " AND objtype <> 'SYSTEM_TABLE' ORDER BY schema, tablename"

def tablesSql (schema pattern : Option Text) : Except NzError Text := do
  let schema ← optionalFilter " AND schema = " schema
  let pattern ← optionalFilter " AND tablename LIKE " pattern
  return tablesColumns.toList ++ tablesFrom.toList ++ schema ++ pattern ++ tablesNotIn.toList ++
    tablesOrder.toList

def columnsSelect : String :=
  "SELECT attname, attnum, format_type, CASE WHEN attnotnull THEN 'N' ELSE 'Y' END, objid,"

def columnsFrom : String :=
  " description FROM _v_relation_column WHERE name = "

def columnsSql (table : Text) (schema : Option Text) : Except NzError Text := do
  let table ← literal table
  let schema ← optionalFilter " AND schema = " schema
  return columnsSelect.toList ++ columnsFrom.toList ++ table ++ schema ++
    " ORDER BY attnum".toList

def viewsSelect : String :=
  "SELECT schema, viewname, owner, objid, definition FROM _v_view WHERE viewname IS NOT NULL"

def viewsSql (schema : Option Text) : Except NzError Text := do
  let schema ← optionalFilter " AND schema = " schema
  return viewsSelect.toList ++ schema ++ " ORDER BY schema, viewname".toList

def proceduresSelect : String :=
  "SELECT schema, procedure, owner, objid, proceduresignature, returns, builtin, proceduresource,"

def proceduresFrom : String :=
  " executedasowner, arguments, description FROM _v_procedure WHERE procedure IS NOT NULL"

def proceduresSql (schema : Option Text) : Except NzError Text := do
  let schema ← optionalFilter " AND schema = " schema
  return proceduresSelect.toList ++ proceduresFrom.toList ++ schema ++
    " ORDER BY schema, procedure".toList

/-- The clause of one target. -/
def targetClause (schemaColumn nameColumn : String) (target : Option Text × Text) :
    Except NzError Text := do
  let name ← literal target.2
  let name := nameColumn.toList ++ " = ".toList ++ name
  match target.1 with
  | some schema => do
      let schema ← literal schema
      return "(".toList ++ name ++ " AND ".toList ++ schemaColumn.toList ++ " = ".toList ++ schema ++
        ")".toList
  | none => return "(".toList ++ name ++ ")".toList

def targetFilter (targets : List (Option Text × Text)) (schemaColumn nameColumn : String) :
    Except NzError Text := do
  let clauses ← targets.mapM (targetClause schemaColumn nameColumn)
  return "(".toList ++ " OR ".toList.intercalate clauses ++ ")".toList

/-! ## The queries and their names -/

/-- The columns that targets are looked up in. -/
inductive TargetColumn where
  | name
  | tablename
  | relation
  | objname
  | viewname
  deriving DecidableEq, Repr

def TargetColumn.text : TargetColumn → String
  | .name => "name"
  | .tablename => "tablename"
  | .relation => "relation"
  | .objname => "objname"
  | .viewname => "viewname"

/-- A query with what is written into it. -/
inductive CatalogQuery (α : Type) where
  | tables (schema pattern : Option α)
  | columns (table : α) (schema : Option α)
  | views (schema : Option α)
  | procedures (schema : Option α)
  | targets (targets : List (Option α × α)) (column : TargetColumn)
  deriving DecidableEq, Repr

namespace CatalogQuery

variable {α β : Type}

def map (f : α → β) : CatalogQuery α → CatalogQuery β
  | tables schema pattern => tables (schema.map f) (pattern.map f)
  | columns table schema => columns (f table) (schema.map f)
  | views schema => views (schema.map f)
  | procedures schema => procedures (schema.map f)
  | targets ts column => targets (ts.map fun t => (t.1.map f, f t.2)) column

def sql : CatalogQuery Text → Except NzError Text
  | tables schema pattern => tablesSql schema pattern
  | columns table schema => columnsSql table schema
  | views schema => viewsSql schema
  | procedures schema => proceduresSql schema
  | targets ts column => targetFilter ts "schema" column.text

/-! ## Their fragments -/

def schemaNotIn : String :=
  " AND schema NOT IN ("

def objtypeNot : String :=
  " AND objtype <> "

def orderByTable : String :=
  " ORDER BY schema, tablename"

def selectColumns : String :=
  "SELECT attname, attnum, format_type, CASE WHEN attnotnull THEN "

def optionalFragments (code : String) : Option α → List (Fragment α)
  | none => []
  | some value => [.code code.toList, .literal value]

def tablesNotInFragments : List (Fragment α) :=
  [.code schemaNotIn.toList, .fixed "DEFINITION_SCHEMA".toList, .code ", ".toList,
    .fixed "INZA".toList, .code ", ".toList, .fixed "NZ_QUERY_HISTORY".toList, .code ")".toList]

def tablesOrderFragments : List (Fragment α) :=
  [.code objtypeNot.toList, .fixed "SYSTEM_TABLE".toList, .code orderByTable.toList]

def columnsSelectFragments : List (Fragment α) :=
  [.code selectColumns.toList, .fixed ['N'], .code " ELSE ".toList, .fixed ['Y'],
    .code " END, objid,".toList]

def clauseFragments (schemaColumn nameColumn : String) (target : Option α × α) :
    List (Fragment α) :=
  .code ("(".toList ++ nameColumn.toList ++ " = ".toList) :: .literal target.2 ::
    (optionalFragments (" AND " ++ schemaColumn ++ " = ") target.1 ++ [.code ")".toList])

def fragments : CatalogQuery α → List (Fragment α)
  | tables schema pattern =>
      .code tablesColumns.toList :: .code tablesFrom.toList ::
        (optionalFragments " AND schema = " schema ++
          (optionalFragments " AND tablename LIKE " pattern ++
            (tablesNotInFragments ++ tablesOrderFragments)))
  | columns table schema =>
      columnsSelectFragments ++ .code columnsFrom.toList :: .literal table ::
        (optionalFragments " AND schema = " schema ++ [.code " ORDER BY attnum".toList])
  | views schema =>
      .code viewsSelect.toList :: (optionalFragments " AND schema = " schema ++
        [.code " ORDER BY schema, viewname".toList])
  | procedures schema =>
      .code proceduresSelect.toList :: .code proceduresFrom.toList ::
        (optionalFragments " AND schema = " schema ++
          [.code " ORDER BY schema, procedure".toList])
  | targets ts column =>
      .code "(".toList :: ([Fragment.code " OR ".toList].intercalate
        (ts.map (clauseFragments "schema" column.text)) ++ [.code ")".toList])

theorem optionalFragments_map (f : α → β) (code : String) (value : Option α) :
    (optionalFragments code value).map (Fragment.map f) =
      optionalFragments code (value.map f) := by
  cases value <;> rfl

theorem clauseFragments_map (f : α → β) (schemaColumn nameColumn : String)
    (target : Option α × α) :
    (clauseFragments schemaColumn nameColumn target).map (Fragment.map f) =
      clauseFragments schemaColumn nameColumn (target.1.map f, f target.2) := by
  rw [clauseFragments, List.map_cons, List.map_cons, List.map_append, optionalFragments_map]
  rfl

theorem intercalate_map {γ δ : Type} (f : γ → δ) (sep : List γ) (xss : List (List γ)) :
    (sep.intercalate xss).map f = (sep.map f).intercalate (xss.map (List.map f)) := by
  induction xss with
  | nil => rfl
  | cons xs xss ih =>
      cases xss with
      | nil => simp
      | cons ys xss =>
          rw [List.intercalate_cons_cons, List.map_append, List.map_append, ih]
          exact List.intercalate_cons_cons.symm

/-- A query's fragments follow what is written into it. -/
theorem fragments_map (f : α → β) (q : CatalogQuery α) :
    (q.map f).fragments = q.fragments.map (Fragment.map f) := by
  cases q with
  | tables schema pattern =>
      simp only [map, fragments, List.map_cons, List.map_append, optionalFragments_map]
      rfl
  | columns table schema =>
      simp only [map, fragments, List.map_cons, List.map_append, optionalFragments_map]
      rfl
  | views schema =>
      simp only [map, fragments, List.map_cons, List.map_append, optionalFragments_map]
      rfl
  | procedures schema =>
      simp only [map, fragments, List.map_cons, List.map_append, optionalFragments_map]
      rfl
  | targets ts column =>
      simp only [map, fragments, List.map_cons, List.map_append, List.map_map, intercalate_map,
        Function.comp_def, clauseFragments_map]
      rfl

/-! ## What is sent -/

theorem literal_ok {value text : Text} (h : literal value = .ok text) :
    writeTextLiteral value = .ok text := by
  rw [literal] at h
  cases hwrite : writeTextLiteral value with
  | error e =>
      rw [hwrite] at h
      cases h
  | ok written =>
      rw [hwrite] at h
      exact congrArg _ (Except.ok.inj h)

theorem writeAll_code (text : Text) : writeAll [.code text] = .ok text := by
  rw [writeAll, writeAll]
  exact congrArg Except.ok (List.append_nil text)

theorem writeAll_literal {value text : Text} (h : literal value = .ok text) :
    writeAll [.literal value] = .ok text := by
  have hwrite : (Fragment.literal value).write = .ok text := literal_ok h
  rw [writeAll, writeAll, hwrite]
  exact congrArg Except.ok (List.append_nil text)

theorem optionalFilter_ok {code : String} {value : Option Text} {text : Text}
    (h : optionalFilter code value = .ok text) :
    writeAll (optionalFragments code value) = .ok text := by
  cases value with
  | none =>
      cases h
      rfl
  | some value =>
      obtain ⟨written, hwritten, h⟩ := except_bind_ok h
      cases h
      exact writeAll_append (writeAll_code _) (writeAll_literal hwritten)

theorem targetClause_ok {schemaColumn nameColumn : String} {target : Option Text × Text}
    {clause : Text} (h : targetClause schemaColumn nameColumn target = .ok clause) :
    writeAll (clauseFragments schemaColumn nameColumn target) = .ok clause := by
  obtain ⟨schema, name⟩ := target
  obtain ⟨written, hwritten, h⟩ := except_bind_ok h
  have hname := writeAll_append (writeAll_code ("(".toList ++ nameColumn.toList ++ " = ".toList))
    (writeAll_literal hwritten)
  cases schema with
  | none =>
      cases h
      have hclause := writeAll_append hname (writeAll_code ")".toList)
      simp only [List.append_assoc] at hclause ⊢
      exact hclause
  | some schema =>
      obtain ⟨other, hother, h⟩ := except_bind_ok h
      cases h
      have hschema : optionalFilter (" AND " ++ schemaColumn ++ " = ") (some schema) =
          .ok ((" AND " ++ schemaColumn ++ " = ").toList ++ other) := by
        rw [optionalFilter, hother]
        rfl
      have hclause := writeAll_append (writeAll_append hname (optionalFilter_ok hschema))
        (writeAll_code ")".toList)
      simp only [String.toList_append, List.append_assoc] at hclause ⊢
      exact hclause

theorem mapM_targetClause_ok {schemaColumn nameColumn : String}
    {targets : List (Option Text × Text)} {clauses : List Text}
    (h : targets.mapM (targetClause schemaColumn nameColumn) = .ok clauses) :
    List.Forall₂ (fun block text => writeAll block = .ok text)
      (targets.map (clauseFragments schemaColumn nameColumn)) clauses := by
  induction targets generalizing clauses with
  | nil =>
      cases h
      exact .nil
  | cons target targets ih =>
      rw [List.mapM_cons] at h
      obtain ⟨clause, hclause, h⟩ := except_bind_ok h
      obtain ⟨rest, hrest, h⟩ := except_bind_ok h
      cases h
      exact .cons (targetClause_ok hclause) (ih hrest)

theorem tablesNotIn_written : writeAll tablesNotInFragments = .ok tablesNotIn.toList := by
  rw [tablesNotInFragments, toList_of_eq (s := tablesNotIn) rfl]
  decide

theorem tablesOrder_written : writeAll tablesOrderFragments = .ok tablesOrder.toList := by
  rw [tablesOrderFragments, toList_of_eq (s := tablesOrder) rfl]
  decide

theorem columnsSelect_written : writeAll columnsSelectFragments = .ok columnsSelect.toList := by
  rw [columnsSelectFragments, toList_of_eq (s := columnsSelect) rfl,
    toList_of_eq (s := selectColumns) rfl]
  decide

/-- A query is what its fragments make when they are written. -/
theorem sql_written {q : CatalogQuery Text} {text : Text} (h : q.sql = .ok text) :
    writeAll q.fragments = .ok text := by
  cases q with
  | tables schema pattern =>
      obtain ⟨bySchema, hschema, h⟩ := except_bind_ok h
      obtain ⟨byPattern, hpattern, h⟩ := except_bind_ok h
      have htext := Except.ok.inj h
      subst htext
      have hfilters := writeAll_append (optionalFilter_ok hschema) (optionalFilter_ok hpattern)
      have hselect := writeAll_append (writeAll_code tablesColumns.toList)
        (writeAll_code tablesFrom.toList)
      have hwritten := writeAll_append hselect (writeAll_append hfilters
        (writeAll_append tablesNotIn_written tablesOrder_written))
      simp only [List.append_assoc] at hwritten ⊢
      exact hwritten
  | columns table schema =>
      obtain ⟨name, hname, h⟩ := except_bind_ok h
      obtain ⟨bySchema, hschema, h⟩ := except_bind_ok h
      have htext := Except.ok.inj h
      subst htext
      have hfilters := writeAll_append (optionalFilter_ok hschema)
        (writeAll_code " ORDER BY attnum".toList)
      have hselect := writeAll_append columnsSelect_written (writeAll_code columnsFrom.toList)
      have hwritten := writeAll_append hselect (writeAll_append (writeAll_literal hname) hfilters)
      simp only [List.append_assoc] at hwritten ⊢
      exact hwritten
  | views schema =>
      obtain ⟨bySchema, hschema, h⟩ := except_bind_ok h
      have htext := Except.ok.inj h
      subst htext
      have hwritten := writeAll_append (writeAll_code viewsSelect.toList)
        (writeAll_append (optionalFilter_ok hschema)
          (writeAll_code " ORDER BY schema, viewname".toList))
      simp only [List.append_assoc] at hwritten ⊢
      exact hwritten
  | procedures schema =>
      obtain ⟨bySchema, hschema, h⟩ := except_bind_ok h
      have htext := Except.ok.inj h
      subst htext
      have hselect := writeAll_append (writeAll_code proceduresSelect.toList)
        (writeAll_code proceduresFrom.toList)
      have hwritten := writeAll_append hselect (writeAll_append (optionalFilter_ok hschema)
          (writeAll_code " ORDER BY schema, procedure".toList))
      simp only [List.append_assoc] at hwritten ⊢
      exact hwritten
  | targets ts column =>
      obtain ⟨clauses, hclauses, h⟩ := except_bind_ok h
      have htext := Except.ok.inj h
      subst htext
      have hfilter := writeAll_intercalate (writeAll_code " OR ".toList)
        (mapM_targetClause_ok hclauses)
      have hwritten := writeAll_append (writeAll_code "(".toList)
        (writeAll_append hfilter (writeAll_code ")".toList))
      simp only [List.append_assoc] at hwritten ⊢
      exact hwritten

/-! ## What the lexers see -/

theorem optionalFragments_block {code : String} {text : Text} (hcode : code = String.ofList text)
    (h : (Fragment.code text : Fragment Unit).isSound = true) (value : Option α)
    {rest : List (Fragment α)} (hrest : IsBlock rest) :
    IsBlock (optionalFragments code value ++ rest) := by
  cases value with
  | none => exact hrest
  | some value => exact (IsBlock.code hcode h).literal value hrest

theorem schemaFragments_block (schema : Option α) {rest : List (Fragment α)}
    (hrest : IsBlock rest) : IsBlock (optionalFragments " AND schema = " schema ++ rest) :=
  optionalFragments_block rfl (by decide) schema hrest

theorem clauseFragments_block (column : TargetColumn) (target : Option α × α) :
    IsBlock (clauseFragments "schema" column.text target) := by
  have hclose : IsBlock ([.code ")".toList] : List (Fragment α)) := .code rfl (by decide)
  have hschema : " AND " ++ "schema" ++ " = " = " AND schema = " := by decide
  have hsound : (Fragment.code ("(".toList ++ column.text.toList ++ " = ".toList) :
      Fragment Unit).isSound = true := by
    cases column <;> decide
  have hname : IsBlock
      ([.code ("(".toList ++ column.text.toList ++ " = ".toList)] : List (Fragment α)) := by
    constructor
    · rw [List.all_cons, List.all_nil, Bool.and_true]
      exact hsound
    · exact fun _ _ hrest => hrest
  rw [clauseFragments, hschema]
  exact hname.literal target.2 (schemaFragments_block target.1 hclose)

theorem tablesNotInFragments_block : IsBlock (tablesNotInFragments : List (Fragment α)) := by
  have hcomma : IsBlock ([.code ", ".toList] : List (Fragment α)) := .code rfl (by decide)
  have hnotIn : IsBlock ([.code schemaNotIn.toList] : List (Fragment α)) :=
    .code rfl (by decide)
  have hclose : IsBlock ([.code ")".toList] : List (Fragment α)) := .code rfl (by decide)
  have hlast : IsBlock ([.code ", ".toList, .fixed "NZ_QUERY_HISTORY".toList, .code ")".toList] :
      List (Fragment α)) := hcomma.fixed (by decide) hclose
  have hrest : IsBlock ([.code ", ".toList, .fixed "INZA".toList, .code ", ".toList,
      .fixed "NZ_QUERY_HISTORY".toList, .code ")".toList] : List (Fragment α)) :=
    hcomma.fixed (by decide) hlast
  exact hnotIn.fixed (by decide) hrest

theorem tablesOrderFragments_block : IsBlock (tablesOrderFragments : List (Fragment α)) := by
  have hobjtype : IsBlock ([.code objtypeNot.toList] : List (Fragment α)) :=
    .code rfl (by decide)
  have horder : IsBlock ([.code orderByTable.toList] : List (Fragment α)) :=
    .code rfl (by decide)
  exact hobjtype.fixed (by decide) horder

theorem columnsSelectFragments_block :
    IsBlock (columnsSelectFragments : List (Fragment α)) := by
  have helse : IsBlock ([.code " ELSE ".toList] : List (Fragment α)) :=
    .code rfl (by decide)
  have hselect : IsBlock ([.code selectColumns.toList] : List (Fragment α)) :=
    .code rfl (by decide)
  have hend : IsBlock ([.code " END, objid,".toList] : List (Fragment α)) :=
    .code rfl (by decide)
  exact (hselect.fixed (by decide) helse).fixed (by decide) hend

/-- The fragments of a query are a block, whatever is written into them. -/
theorem fragments_block (q : CatalogQuery α) : IsBlock q.fragments := by
  cases q with
  | tables schema pattern =>
      have hselect : IsBlock ([.code tablesColumns.toList] : List (Fragment α)) :=
        .code rfl (by decide)
      have hfrom : IsBlock ([.code tablesFrom.toList] : List (Fragment α)) :=
        .code rfl (by decide)
      have hlast := tablesNotInFragments_block.append (α := α) tablesOrderFragments_block
      have hpattern := optionalFragments_block (rfl : " AND tablename LIKE " = _)
        (by decide) pattern hlast
      exact hselect.append (hfrom.append (schemaFragments_block schema hpattern))
  | columns table schema =>
      have horder : IsBlock ([.code " ORDER BY attnum".toList] : List (Fragment α)) :=
        .code rfl (by decide)
      have hfrom : IsBlock ([.code columnsFrom.toList] : List (Fragment α)) :=
        .code rfl (by decide)
      exact columnsSelectFragments_block.append
        (hfrom.literal table (schemaFragments_block schema horder))
  | views schema =>
      have hselect : IsBlock ([.code viewsSelect.toList] : List (Fragment α)) :=
        .code rfl (by decide)
      have horder : IsBlock ([.code " ORDER BY schema, viewname".toList] : List (Fragment α)) :=
        .code rfl (by decide)
      exact hselect.append (schemaFragments_block schema horder)
  | procedures schema =>
      have hselect : IsBlock ([.code proceduresSelect.toList] : List (Fragment α)) :=
        .code rfl (by decide)
      have horder : IsBlock ([.code " ORDER BY schema, procedure".toList] : List (Fragment α)) :=
        .code rfl (by decide)
      have hfrom : IsBlock ([.code proceduresFrom.toList] : List (Fragment α)) :=
        .code rfl (by decide)
      exact hselect.append (hfrom.append (schemaFragments_block schema horder))
  | targets ts column =>
      have hopen : IsBlock ([.code "(".toList] : List (Fragment α)) := .code rfl (by decide)
      have hor : IsBlock ([.code " OR ".toList] : List (Fragment α)) :=
        .code rfl (by decide)
      have hclose : IsBlock ([.code ")".toList] : List (Fragment α)) :=
        .code rfl (by decide)
      have hclauses : ∀ block ∈ ts.map (clauseFragments "schema" column.text), IsBlock block := by
        intro block hmem
        obtain ⟨target, -, rfl⟩ := List.mem_map.mp hmem
        exact clauseFragments_block column target
      exact hopen.append (hor.intercalate hclauses hclose)

end CatalogQuery

/-- What is sent is one statement without placeholders, and its code is the same for all names that
leave the query its filters, its targets and the joins in its literals. -/
theorem catalog_query_contained {q : CatalogQuery Text} {sql : Text} (h : q.sql = .ok sql) :
    Contained sql ∧ ∀ (q' : CatalogQuery Text) (sql' : Text), q'.sql = .ok sql' →
      q'.map joins = q.map joins → codeText sql' = codeText sql := by
  have hcode : ∀ {q : CatalogQuery Text} {sql : Text}, q.sql = .ok sql → Contained sql ∧
      codeText sql = (q.map joins).fragments.flatMap Fragment.codeSeen := by
    intro q sql h
    rw [CatalogQuery.fragments_map]
    exact writeAll_contained q.fragments_block (CatalogQuery.sql_written h)
  refine ⟨(hcode h).1, ?_⟩
  intro q' sql' h' hshape
  rw [(hcode h').2, (hcode h).2, hshape]

def hostileTargets : CatalogQuery Text :=
  .targets [(some "S".toList, "T'; -- $1\\/* BEGIN_PROC".toList)] .name

def hostileFilter : Text :=
  "((name = ('T''; -- $1' || chr(92) || '/* BEGIN_PROC') AND schema = 'S'))".toList

theorem hostileTargets_contained : hostileTargets.sql = .ok hostileFilter ∧
    Contained hostileFilter ∧ ∀ (q' : CatalogQuery Text) (sql' : Text), q'.sql = .ok sql' →
      q'.map joins = hostileTargets.map joins → codeText sql' = codeText hostileFilter := by
  have hsql : hostileTargets.sql = .ok hostileFilter := by decide
  exact ⟨hsql, catalog_query_contained hsql⟩

end NzRust.Metadata
