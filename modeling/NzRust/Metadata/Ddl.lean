import NzRust.Metadata.Identifiers
import NzRust.Sql.Literals

/-!
# DDL texts

The texts that the metadata API puts together from catalog rows, and the rows of
key columns that it gathers into constraints. Cells are read through the decoders
of the row they are in.
-/

namespace NzRust.Metadata

open Checked Sql

/-! ## Catalog rows -/

/-- How the cells of a catalog row are decoded. -/
structure Cells (V : Type) where
  text : V → Exec NzError Text
  optionalText : V → Exec NzError (Option Text)
  boolValue : V → Exec NzError Bool
  ordinal : V → Exec NzError Int
  isNull : V → Exec NzError Bool

def cell {V : Type} (row : List V) (i : Nat) : Exec NzError V :=
  orFail (.config ("row index out of range: ordinal " ++ toString i)) row[i]?

structure NzDetailedColumnInfo where
  schema : Text
  name : Text
  ordinal : Int
  typeName : Text
  notNull : Bool
  defaultValue : Option Text
  description : Option Text
  deriving DecidableEq, Repr

structure NzTableKeyInfo where
  name : Text
  keyType : String
  typeChar : Char
  columns : List Text := []
  pkDatabase : Option Text
  pkSchema : Option Text
  pkRelation : Option Text
  pkColumns : List Text := []
  updateType : Text
  deleteType : Text
  deriving DecidableEq, Repr

section Rows

variable {V : Type} (C : Cells V)

/-- A column definition; its own fields begin at `base`. -/
def detailedColumn (base : Nat) (row : List V) : Exec NzError NzDetailedColumnInfo := do
  let schema ← cell row 0 >>= C.text
  let name ← cell row base >>= C.text
  let ordinal ← cell row (base + 1) >>= C.ordinal
  let typeName ← cell row (base + 2) >>= C.text
  let notNull ← cell row (base + 3) >>= C.boolValue
  let defaultValue ← cell row (base + 4) >>= C.optionalText
  let description ← cell row (base + 5) >>= C.optionalText
  return { schema, name, ordinal, typeName, notNull, defaultValue, description }

def keyTypeOf (typeChar : Char) : String :=
  if typeChar = 'p' then "PRIMARY KEY"
  else if typeChar = 'f' then "FOREIGN KEY"
  else if typeChar = 'u' then "UNIQUE"
  else "UNKNOWN"

/-- A constraint without columns, from its first row. -/
def newKey (base : Nat) (name : Text) (row : List V) : Exec NzError NzTableKeyInfo := do
  let contype ← cell row (base + 1) >>= C.text
  let typeChar := contype.head?.getD '?'
  let pkDatabase ← cell row (base + 3) >>= C.optionalText
  let pkSchema ← cell row (base + 4) >>= C.optionalText
  let pkRelation ← cell row (base + 5) >>= C.optionalText
  let updateType ← cell row (base + 7) >>= C.optionalText
  let deleteType ← cell row (base + 8) >>= C.optionalText
  return {
    name, keyType := keyTypeOf typeChar, typeChar, pkDatabase, pkSchema, pkRelation,
    updateType := updateType.getD "NO ACTION".toList
    deleteType := deleteType.getD "NO ACTION".toList }

/-- A row of key columns joins the last constraint, or begins the next one. -/
def keyStep (base : Nat) (keys : List NzTableKeyInfo) (row : List V) :
    Exec NzError (List NzTableKeyInfo) := do
  let name ← cell row base >>= C.text
  let (front, key) ←
    match keys.getLast? with
    | some key =>
        if key.name = name then pure (keys.dropLast, key)
        else (newKey C base name row).map fun key => (keys, key)
    | none => (newKey C base name row).map fun key => (keys, key)
  let column ← cell row (base + 2) >>= C.optionalText
  let pkColumn ← cell row (base + 6) >>= C.optionalText
  return front ++ [{ key with
    columns := key.columns ++ column.toList
    pkColumns := key.pkColumns ++ pkColumn.toList }]

end Rows

/-! ## Names and strings -/

def joinWith (separator : String) (parts : List Text) : Text :=
  separator.toList.intercalate parts

def qualified (database schema name : Text) : Text :=
  joinWith "." [quoteIdentifier database, quoteIdentifier schema, quoteIdentifier name]

def quotedList (names : List Text) : Text :=
  joinWith ", " (names.map quoteIdentifier)

/-- A comment on an object. -/
def commentOn (kind : String) (name comment : Text) : Text :=
  "COMMENT ON ".toList ++ kind.toList ++ " ".toList ++ name ++ " IS ".toList ++
    appendQuotedText comment ++ ";".toList

/-! ## Tables -/

def columnLine (column : NzDetailedColumnInfo) : Text :=
  "    ".toList ++ quoteIdentifier column.name ++ " ".toList ++ column.typeName ++
    (if column.notNull then " NOT NULL".toList else []) ++
    match column.defaultValue with
    | some default => " DEFAULT ".toList ++ default
    | none => []

/-- The statement that adds a constraint, for the kinds that can be rebuilt. -/
def keyLine (name : Text) (key : NzTableKeyInfo) : List Text :=
  let front := "ALTER TABLE ".toList ++ name ++ " ADD CONSTRAINT ".toList ++
    quoteIdentifier key.name ++ " ".toList ++ key.keyType.toList ++ " (".toList ++
    quotedList key.columns ++ ")".toList
  if key.typeChar = 'p' ∨ key.typeChar = 'u' then [front ++ ";".toList]
  else if key.typeChar = 'f' ∧ key.pkColumns ≠ [] then
    match key.pkDatabase, key.pkSchema, key.pkRelation with
    | some db, some schema, some relation =>
        [front ++ " REFERENCES ".toList ++ qualified db schema relation ++ " (".toList ++
          quotedList key.pkColumns ++ ") ON DELETE ".toList ++ key.deleteType ++
          " ON UPDATE ".toList ++ key.updateType ++ ";".toList]
    | _, _, _ => []
  else []

def columnComments (name : Text) (columns : List NzDetailedColumnInfo) : List Text :=
  columns.flatMap fun column =>
    match column.description with
    | some description =>
        if description = [] then []
        else [commentOn "COLUMN" (joinWith "." [name, quoteIdentifier column.name]) description]
    | none => []

def buildTableDdl (database schema table : Text) (columns : List NzDetailedColumnInfo)
    (distribution organize : List Text) (keys : List NzTableKeyInfo) (comment : Option Text) :
    Text :=
  let name := qualified database schema table
  joinWith "\n" (
    ["CREATE TABLE ".toList ++ name, "(".toList, joinWith ",\n" (columns.map columnLine)] ++
    (if distribution = [] then [")\nDISTRIBUTE ON RANDOM".toList]
      else [")\nDISTRIBUTE ON (".toList ++ quotedList distribution ++ ")".toList]) ++
    (if organize = [] then [] else ["ORGANIZE ON (".toList ++ quotedList organize ++ ")".toList]) ++
    [";".toList, []] ++ keys.flatMap (keyLine name) ++
    (match comment with
      | some comment => if comment = [] then [] else [[], commentOn "TABLE" name comment]
      | none => []) ++
    columnComments name columns)

/-! ## Views -/

/-- A comment that is not blank, trimmed. -/
def trimmedComment (comment : Option Text) : Option Text :=
  (comment.filter fun value => !(trim value).isEmpty).map trim

def buildViewDdl (database schema view definition : Text) (comment : Option Text)
    (columns : List NzDetailedColumnInfo) : Text :=
  let name := qualified database schema view
  joinWith "\n" (
    ["CREATE OR REPLACE VIEW ".toList ++ name ++ " AS".toList, definition] ++
    (match trimmedComment comment with
      | some comment => [[], commentOn "VIEW" name comment]
      | none => []) ++
    columns.flatMap fun column =>
      match trimmedComment column.description with
      | some description =>
          [commentOn "COLUMN" (joinWith "." [name, quoteIdentifier column.name]) description]
      | none => [])

/-! ## Procedures -/

section Procedures

variable {V : Type} (C : Cells V)

def fixedReturnType (U : Uppercase) (value : Text) : Text :=
  let upper := U.toUppercase (trim value)
  if ["CHARACTER VARYING".toList, "NATIONAL CHARACTER VARYING".toList,
      "NATIONAL CHARACTER".toList, "CHARACTER".toList].contains upper then
    upper ++ "(ANY)".toList
  else value

/-- The arguments in parentheses. -/
def argumentList (args : Text) : Text :=
  let args := trim args
  if args = [] then "()".toList
  else if args.head? = some '(' ∧ args.getLast? = some ')' then args
  else "(".toList ++ args ++ ")".toList

/-- A procedure executes as its owner where the catalog does not say. -/
def executesAsOwner (value : V) : Exec NzError Bool := do
  if ← C.isNull value then return true
  C.boolValue value

def renderProcedureDdl (U : Uppercase) (row : List V) (database : Text) : Exec NzError Text := do
  let schema ← cell row 0 >>= C.text
  let name ← cell row 1 >>= C.text
  let signature ← cell row 2 >>= C.optionalText
  let args ← cell row 3 >>= C.optionalText
  let returns ← cell row 4 >>= C.optionalText
  let executeAsOwner ← cell row 5 >>= executesAsOwner C
  let description ← cell row 6 >>= C.optionalText
  let source ← cell row 7 >>= C.optionalText
  let fullName := qualified database schema name
  let ddl := "CREATE OR REPLACE PROCEDURE ".toList ++ fullName ++ argumentList (args.getD []) ++
    "\nRETURNS ".toList ++ fixedReturnType U (returns.getD "INTEGER".toList) ++
    "\nEXECUTE AS ".toList ++ (if executeAsOwner then "OWNER".toList else "CALLER".toList) ++
    "\nLANGUAGE NZPLSQL AS\nBEGIN_PROC\n".toList ++ source.getD [] ++ "\nEND_PROC;".toList
  match description.filter fun value => !value.isEmpty with
  | none => return ddl
  | some description =>
      let signature := (signature.getD []).dropWhile (· != '(')
      if signature = [] then
        fail (.config ("procedure " ++ String.ofList name ++ " has a comment but no signature"))
      else return ddl ++ "\n".toList ++ commentOn "PROCEDURE" (fullName ++ signature) description

end Procedures

end NzRust.Metadata
