import NzRust.Lib.Gathering
import NzRust.Metadata.Catalog
import NzRust.Metadata.Ddl

/-!
# Table DDL, one by one and in a batch

The blocking API asks the catalog six questions for each table. The native one
asks six for all tables at once and gathers the rows by table. The catalog is a
server that answers the queries of both.
-/

namespace NzRust.Metadata

open Checked Sql

abbrev Target := Option Text × Text

/-! ## The queries -/

inductive CatalogView where
  | relationColumn
  | tableDistMap
  | tableOrganizeColumn
  | relationKeydata
  | objectData
  deriving DecidableEq, Repr

def CatalogView.text : CatalogView → String
  | .relationColumn => "_v_relation_column"
  | .tableDistMap => "_v_table_dist_map"
  | .tableOrganizeColumn => "_v_table_organize_column"
  | .relationKeydata => "_v_relation_keydata"
  | .objectData => "_v_object_data"

/-- The column that an object is looked up in. -/
def CatalogView.nameColumn : CatalogView → String
  | .relationColumn => "name"
  | .tableDistMap => "tablename"
  | .tableOrganizeColumn => "tablename"
  | .relationKeydata => "relation"
  | .objectData => "objname"

inductive Filter where
  | one (target : Target)
  | any (targets : List Target)

structure Select where
  columns : List String
  view : CatalogView
  filter : Filter
  tablesOnly : Bool := false
  orderBy : List String := []

def Filter.sql (nameColumn : String) : Filter → Except NzError Text
  | .one (schema, name) => do
      let name ← literal name
      let schema ← optionalFilter " AND schema = " schema
      return nameColumn.toList ++ " = ".toList ++ name ++ schema
  | .any targets => targetFilter targets "schema" nameColumn

def Select.sql (q : Select) : Except NzError Text := do
  let filter ← q.filter.sql q.view.nameColumn
  return "SELECT ".toList ++ joinWith ", " (q.columns.map String.toList) ++ " FROM ".toList ++
    q.view.text.toList ++ " WHERE ".toList ++ filter ++
    (if q.tablesOnly then " AND objtype = 'TABLE'".toList else []) ++
    if q.orderBy = [] then [] else
      " ORDER BY ".toList ++ joinWith ", " (q.orderBy.map String.toList)

/-- What a session asks of the catalog. -/
structure CatalogServer (V : Type) where
  answer : Select → Exec NzError (List (List V))
  answerBatch : List Select → Exec NzError (List (List (List V)))
  currentCatalog : Exec NzError (List (List V))
  listTables : Option Text → Option Text → Exec NzError (List (List V))

variable {V : Type} (srv : CatalogServer V) (C : Cells V) (U : Uppercase)

/-- A query that is sent has been written first. -/
def ask (q : Select) : Exec NzError (List (List V)) := do
  let _ ← lift q.sql
  srv.answer q

/-! ## One table at a time -/

def missingRelation : NzError → Bool
  | .database e => e.code == some "42P01".toList
  | _ => false

/-- The rows of a view that an appliance may lack. -/
def orMissing (rows : Exec NzError (List (List V))) : Exec NzError (Option (List (List V))) :=
  match rows with
  | .ok rows => .ok (some rows)
  | .error (.error e) => if missingRelation e then .ok none else fail e
  | .error .panic => panics

def severalSchemas (name : Text) : NzError :=
  .config (String.ofList name ++ " exists in multiple schemas; pass schema explicitly")

def uniqueSchemaLoop (name : Text) : Option Text → List (List V) → Exec NzError Unit
  | _, [] => .ok ()
  | schema, row :: rows => do
      let current ← cell row 0 >>= C.text
      if schema.any (· != current) then fail (severalSchemas name)
      else uniqueSchemaLoop name (some current) rows

def requireUniqueSchema (rows : List (List V)) (name : Text) : Exec NzError Unit :=
  uniqueSchemaLoop C name none rows

def columnFields : List String :=
  ["attname", "attnum", "format_type", "attnotnull", "coldefault", "description"]

def keyFields : List String :=
  ["constraintname", "contype", "attname", "pkdatabase", "pkschema", "pkrelation", "pkattname",
    "updt_type", "del_type"]

def detailedColumns (table : Text) (schema : Option Text) :
    Exec NzError (List NzDetailedColumnInfo) := do
  let target ← normalizeObjectName U table schema
  let rows ← ask srv {
    columns := "schema" :: columnFields, view := .relationColumn, filter := .one target,
    orderBy := ["attnum"] }
  if target.1.isNone then requireUniqueSchema C rows target.2
  rows.mapM (detailedColumn C 1)

def distributionKey (table : Text) (schema : Option Text) : Exec NzError (List Text) := do
  let rows ← ask srv {
    columns := ["attname"], view := .tableDistMap, filter := .one (schema, table),
    orderBy := ["distattnum"] }
  rows.mapM fun row => cell row 0 >>= C.text

def organizeColumns (table : Text) (schema : Option Text) : Exec NzError (List Text) := do
  let target ← normalizeObjectName U table schema
  match ← orMissing (ask srv {
    columns := ["attname"], view := .tableOrganizeColumn, filter := .one target,
    orderBy := ["orgseqno"] }) with
  | none => return []
  | some rows => rows.mapM fun row => cell row 0 >>= C.text

def tableKeys (table : Text) (schema : Option Text) : Exec NzError (List NzTableKeyInfo) := do
  let target ← normalizeObjectName U table schema
  match ← orMissing (ask srv {
    columns := keyFields, view := .relationKeydata, filter := .one target,
    orderBy := ["constraintname", "conseq"] }) with
  | none => return []
  | some rows => rows.foldlM (keyStep C 0) []

/-- The first comment that is not blank. -/
def firstComment : List (List V) → Exec NzError (Option Text)
  | [] => .ok none
  | row :: rows => do
      match ← cell row 0 >>= C.optionalText with
      | some comment => if (trim comment).isEmpty then firstComment rows else return some comment
      | none => firstComment rows

/-- The comments of the table, then those of anything of its name. -/
def tableComment (table : Text) (schema : Option Text) : Exec NzError (Option Text) := do
  let target ← normalizeObjectName U table schema
  match ← orMissing (ask srv {
    columns := ["description"], view := .objectData, filter := .one target,
    tablesOnly := true }) with
  | none => return none
  | some rows =>
      match ← firstComment C rows with
      | some comment => return some comment
      | none =>
          match ← orMissing (ask srv {
            columns := ["description"], view := .objectData, filter := .one target }) with
          | none => return none
          | some rows => firstComment C rows

/-- The database of the first row of `SELECT current_catalog`. -/
def catalogName (rows : List (List V)) : Exec NzError Text :=
  match rows.head? with
  | none => .ok "UNKNOWN".toList
  | some row => do
      let name ← cell row 0 >>= C.optionalText
      return name.getD "UNKNOWN".toList

def tableNotFound (table : Text) : NzError :=
  .config ("table " ++ String.ofList table ++ " not found")

def tableDdl (table : Text) (schema database : Option Text) : Exec NzError Text := do
  let (schema, table) ← normalizeObjectName U table schema
  let quotedTable := quoteIdentifier table
  let columns ← detailedColumns srv C U quotedTable (schema.map quoteIdentifier)
  match columns with
  | [] => fail (tableNotFound table)
  | first :: _ => do
      let schema := schema.getD first.schema
      let database ←
        match database with
        | some database => pure database
        | none => srv.currentCatalog >>= catalogName C
      let distribution ← distributionKey srv C table (some schema)
      let quotedSchema := some (quoteIdentifier schema)
      let organize ← organizeColumns srv C U quotedTable quotedSchema
      let keys ← tableKeys srv C U quotedTable quotedSchema
      let comment ← tableComment srv C U quotedTable quotedSchema
      return buildTableDdl database schema table columns distribution organize keys comment

/-! ## Batches -/

structure NzDdlBatchResult where
  schema : Text
  name : Text
  ddl : Text
  error : Option String
  deriving DecidableEq, Repr

/-- The objects that a batch is about: the names it was given, or those that the catalog lists. -/
def ddlTargets (schema pattern : Option Text) (names : Option (List Text)) :
    Exec NzError (List Target) :=
  match names with
  | some names => names.mapM fun name => normalizeObjectName U name schema
  | none => do
      let rows ← srv.listTables schema pattern
      rows.mapM fun row => do
        let schema ← cell row 0 >>= C.text
        let name ← cell row 1 >>= C.text
        return (some schema, name)

/-- The entry of one object; its error does not end the batch. -/
def batchResult (target : Target) (ddl : Exec NzError Text) : Exec NzError NzDdlBatchResult :=
  match ddl with
  | .ok ddl => .ok ⟨target.1.getD "UNKNOWN".toList, target.2, ddl, none⟩
  | .error (.error e) => .ok ⟨target.1.getD "UNKNOWN".toList, target.2, [], some e.display⟩
  | .error .panic => panics

/-- `tables_ddl` of the blocking API. -/
def batchDdl (schema pattern : Option Text) (names : Option (List Text)) :
    Exec NzError (List NzDdlBatchResult) := do
  let targets ← ddlTargets srv C U schema pattern names
  targets.mapM fun target =>
    batchResult target (tableDdl srv C U (quoteIdentifier target.2) (target.1.map quoteIdentifier)
      none)

/-! ## One request for all tables -/

def rowKey (row : List V) : Exec NzError (Option (Text × Text)) := do
  let schema ← cell row 0 >>= C.text
  let name ← cell row 1 >>= C.text
  return some (schema, name)

/-- A row without a comment is passed over. -/
def commentKey (row : List V) : Exec NzError (Option (Text × Text)) := do
  match ← cell row 2 >>= C.optionalText with
  | none => return none
  | some comment => if (trim comment).isEmpty then return none else rowKey C row

/-- What the batch has gathered of the catalog. -/
structure Gathered where
  database : Text
  columns : List ((Text × Text) × List NzDetailedColumnInfo)
  distribution : List ((Text × Text) × List Text)
  organize : List ((Text × Text) × List Text)
  keys : List ((Text × Text) × List NzTableKeyInfo)
  comments : List ((Text × Text) × Text)

def pushName (names : Option (List Text)) (row : List V) : Exec NzError (List Text) :=
  (cell row 2 >>= C.text).map fun name => names.getD [] ++ [name]

def gatherCatalog (database : Option Text) (catalog columns dist organize keys comments :
    List (List V)) : Exec NzError Gathered := do
  let current ← catalogName C catalog
  let database := database.getD current
  let columns ← Gathering.gather (rowKey C) (fun held row =>
    (detailedColumn C 2 row).map fun column => held.getD [] ++ [column]) columns []
  let distribution ← Gathering.gather (rowKey C) (pushName C) dist []
  let organize ← Gathering.gather (rowKey C) (pushName C) organize []
  let keys ← Gathering.gather (rowKey C) (fun held row => keyStep C 2 (held.getD []) row) keys []
  let comments ← Gathering.gather (commentKey C) (fun held row =>
    (cell row 2 >>= C.optionalText).map fun comment => held.getD (comment.getD [])) comments []
  return { database, columns, distribution, organize, keys, comments }

/-- Whether a key of the map is one that the target means. -/
def Target.means (target : Target) (key : Text × Text) : Bool :=
  key.2 == target.2 && target.1.all (· == key.1)

/-- The DDL of a target from what was gathered, with the schema it was found in. -/
def Gathered.build (g : Gathered) (target : Target) : Except NzError (Text × Text) :=
  match (g.columns.map Prod.fst).filter target.means with
  | [] => .error (tableNotFound target.2)
  | [key] => .ok (key.1, buildTableDdl g.database key.1 target.2
      ((Gathering.get key g.columns).getD []) ((Gathering.get key g.distribution).getD [])
      ((Gathering.get key g.organize).getD []) ((Gathering.get key g.keys).getD [])
      (Gathering.get key g.comments))
  | _ => .error (severalSchemas target.2)

def Gathered.result (g : Gathered) (target : Target) : NzDdlBatchResult :=
  match g.build target with
  | .ok (schema, ddl) => ⟨schema, target.2, ddl, none⟩
  | .error e => ⟨target.1.getD "UNKNOWN".toList, target.2, [], some e.display⟩

/-- The five queries of the batch. -/
def batchSelects (targets : List Target) : List Select :=
  [{ columns := "schema" :: "name" :: columnFields, view := .relationColumn,
     filter := .any targets, orderBy := ["schema", "name", "attnum"] },
   { columns := ["schema", "tablename", "attname"], view := .tableDistMap,
     filter := .any targets, orderBy := ["schema", "tablename", "distattnum"] },
   { columns := ["schema", "tablename", "attname"], view := .tableOrganizeColumn,
     filter := .any targets, orderBy := ["schema", "tablename", "orgseqno"] },
   { columns := "schema" :: "relation" :: keyFields, view := .relationKeydata,
     filter := .any targets, orderBy := ["schema", "relation", "constraintname", "conseq"] },
   { columns := ["schema", "objname", "description"], view := .objectData,
     filter := .any targets, tablesOnly := true }]

/-- `table_ddl_batch` of the native API. -/
def tableDdlBatch (schema pattern : Option Text) (names : Option (List Text))
    (database : Option Text) : Exec NzError (List NzDdlBatchResult) := do
  let targets ← ddlTargets srv C U schema pattern names
  if targets = [] then return []
  let selects := batchSelects targets
  let _ ← selects.mapM fun q => lift q.sql
  match ← srv.answerBatch selects with
  | [catalog, columns, dist, organize, keys, comments] => do
      let g ← gatherCatalog C database catalog columns dist organize keys comments
      return targets.map g.result
  | sets =>
      fail (.protocol ("table DDL catalog batch expected 6 result sets, got " ++
        toString sets.length))

end NzRust.Metadata
