import NzRust.Connection.Transaction
import NzRust.Metadata.DdlAgreement
import NzRust.Sql.Scripts

/-!
# DDL scripts

The texts that the metadata API puts together are meant to be run. The driver's
splitter and the server's lexer find in them the statements that were put into
them, whatever the names, the comments and the procedure bodies are, and the
driver's transaction stays as it was.
-/

namespace NzRust.Metadata

open Checked Sql

/-- A text of the catalog that stands in a statement as it is. -/
def Piece (text : Text) : Prop :=
  ∀ rules : SplitRules, rules.Usual → IsPiece rules text

/-- A name that opens no procedure body where it stands without quotes. -/
def OpensNone (name : Text) : Prop :=
  isBare name = true → opensNoProc name = true

/-! ## Statements that are no boundary -/

theorem boundaryOf_blank {statement : Text} (h : trim statement = []) :
    boundaryOf statement = none := by
  rw [boundaryOf, h]
  rfl

theorem boundaryOf_trim {statement other : Text} (h : trim statement = trim other) :
    boundaryOf statement = boundaryOf other := by
  rw [boundaryOf, boundaryOf, h]

/-- Texts with the same statements have boundaries alike. -/
theorem boundaryOf_proper {statements others : List Text} (h : proper statements = proper others)
    (hnone : ∀ s ∈ others, boundaryOf s = none) : ∀ s ∈ statements, boundaryOf s = none := by
  intro s hs
  by_cases hblank : trim s = []
  · exact boundaryOf_blank hblank
  · have hmem : trim s ∈ proper statements :=
      List.mem_filter.mpr ⟨List.mem_map_of_mem hs, by simpa using hblank⟩
    rw [h] at hmem
    obtain ⟨other, hother, heq⟩ := List.mem_map.mp (List.mem_filter.mp hmem).1
    rw [boundaryOf_trim heq.symm]
    exact hnone other hother

/-- The words that DDL begins with. -/
def ddlWords : List Text :=
  ["CREATE".toList, "ALTER".toList, "COMMENT".toList]

/-- The end of a text is trimmed behind a word. -/
theorem trim_word {word rest : Text} (hne : word ≠ [])
    (hword : ∀ c ∈ word, isWhitespace c = false) :
    trim (word ++ rest) = word ++ trimEnd rest := by
  have hstart : trimStart (word ++ rest) = word ++ rest := by
    cases word with
    | nil => exact absurd rfl hne
    | cons c cs =>
        rw [trimStart, List.cons_append,
          List.dropWhile_cons_of_neg (by simp [hword c List.mem_cons_self])]
  have hback : word.reverse.dropWhile isWhitespace = word.reverse := by
    cases hreverse : word.reverse with
    | nil => rfl
    | cons c cs =>
        have hmem : c ∈ word := List.mem_reverse.mp (hreverse ▸ List.mem_cons_self)
        rw [List.dropWhile_cons_of_neg (by simp [hword c hmem])]
  rw [trim, hstart, trimEnd, List.reverse_append, List.dropWhile_append, trimEnd]
  split
  next hempty =>
    rw [hback, List.reverse_reverse, List.isEmpty_iff.mp hempty, List.reverse_nil, List.append_nil]
  next => rw [List.reverse_append, List.reverse_reverse]

theorem trimEnd_prefix (text : Text) : trimEnd text <+: text := by
  rw [trimEnd, ← List.reverse_suffix, List.reverse_reverse]
  exact List.dropWhile_suffix _

theorem firstWord_eq {word rest : Text} (hword : ∀ c ∈ word, (c.isAlphanum || c == '_') = true)
    (hrest : rest <+: ' ' :: (rest.drop 1)) : firstWordUpper (word ++ rest) = word := by
  rw [firstWordUpper, List.takeWhile_append_of_pos hword]
  cases rest with
  | nil => exact List.append_nil _
  | cons c cs =>
      cases (List.cons_prefix_cons.mp hrest).1
      exact List.append_nil _

theorem boundaryOf_ddl {word : Text} (hword : word ∈ ddlWords) (rest : Text) :
    boundaryOf (word ++ ' ' :: rest) = none := by
  have hfacts : ∀ w ∈ ddlWords, w ≠ [] ∧ w.all (fun c => !isWhitespace c) = true ∧
      w.all (fun c => c.isAlphanum || c == '_') = true ∧
      (w.map Char.toLower == "begin".toList || w.map Char.toLower == "start".toList ||
        (w.map Char.toLower == "commit".toList || w.map Char.toLower == "rollback".toList ||
          w.map Char.toLower == "end".toList || w.map Char.toLower == "abort".toList)) = false := by
    decide
  obtain ⟨hne, hwhite, hchars, hother⟩ := hfacts word hword
  have hblack : ∀ c ∈ word, isWhitespace c = false := by
    intro c hc
    simpa using List.all_eq_true.mp hwhite c hc
  have hletters := List.all_eq_true.mp hchars
  have hrest : trimEnd (' ' :: rest) <+: ' ' :: (trimEnd (' ' :: rest)).drop 1 := by
    have hopening := trimEnd_prefix (' ' :: rest)
    cases htrim : trimEnd (' ' :: rest) with
    | nil => exact List.nil_prefix
    | cons c cs =>
        rw [htrim] at hopening
        cases (List.cons_prefix_cons.mp hopening).1
        exact List.prefix_rfl
  rw [Bool.or_eq_false_iff] at hother
  have hstart : isTransactionStart (word ++ trimEnd (' ' :: rest)) = false := by
    rw [isTransactionStart, firstWord_eq hletters hrest]
    exact hother.1
  have hend : isTransactionEnd (word ++ trimEnd (' ' :: rest)) = false := by
    rw [isTransactionEnd, firstWord_eq hletters hrest]
    exact hother.2
  rw [boundaryOf, trim_word hne hblack]
  simp [hne, hstart, hend]

theorem boundaryOf_prefix {word statement : Text} (hword : word ∈ ddlWords)
    (h : word ++ [' '] <+: statement) : boundaryOf statement = none := by
  obtain ⟨rest, rfl⟩ := h
  rw [List.append_assoc]
  exact boundaryOf_ddl hword rest

/-- A line of a DDL script: its statement is no boundary of a transaction. -/
def IsDdlLine (rules : SplitRules) (line : Text) : Prop :=
  IsLine rules line ∧ boundaryOf line.dropLast = none

theorem isDdlLine_blank {rules : SplitRules} : IsDdlLine rules [] :=
  ⟨.inl rfl, rfl⟩

theorem isDdlLine_statement {rules : SplitRules} {word statement : Text} (hword : word ∈ ddlWords)
    (hopening : word ++ [' '] <+: statement) (h : IsPiece rules statement) :
    IsDdlLine rules (statement ++ [';']) := by
  refine ⟨.inr ⟨statement, rfl, h⟩, ?_⟩
  rw [List.dropLast_concat]
  exact boundaryOf_prefix hword hopening

/-! ## Names and comments -/

theorem quotedCut_doubled (name : Text) :
    quotedCut '"' (doubled name ++ ['"']) = (doubled name ++ ['"'], some []) := by
  induction name with
  | nil => rfl
  | cons c cs ih =>
      rw [doubled_cons]
      by_cases hc : c = '"'
      · subst hc
        simp [quotedCut, ih, Cut.push]
      · obtain ⟨d, ds, hds⟩ : ∃ d ds, doubled cs ++ ['"'] = d :: ds :=
          List.exists_cons_of_ne_nil (by simp)
        rw [hds] at ih
        simp [hds, quotedCut, hc, ih]

section Pieces

variable {rules : SplitRules} (hrules : rules.Usual)

include hrules

theorem isPiece_name {name : Text} (h : OpensNone name) : IsPiece rules (quoteIdentifier name) := by
  rw [quoteIdentifier]
  split_ifs with hbare
  · refine isPiece_code hrules ?_ (h hbare)
    rw [List.all_eq_true]
    intro c hc
    have hother : ∀ d ∈ ['-', '/', '\'', '"', '$', ';'], c ≠ d := by
      rintro d hd rfl
      have hrange := bare_char hbare hc
      have hsigns : ['-', '/', '\'', '"', '$', ';'].all
          (fun sign => sign.toNat < 48 || 57 < sign.toNat && sign.toNat < 65) = true := by
        decide
      have hsign := List.all_eq_true.mp hsigns _ hd
      simp only [Bool.or_eq_true, Bool.and_eq_true, decide_eq_true_eq] at hsign
      omega
    simp only [List.mem_cons, List.not_mem_nil, or_false, forall_eq_or_imp, forall_eq] at hother
    simp [isPlain, isInert, hother]
  · exact isPiece_quoted (.inr rfl) (quotedCut_doubled name)

theorem isPiece_qualified {database schema name : Text} (hdatabase : OpensNone database)
    (hschema : OpensNone schema) (hname : OpensNone name) :
    IsPiece rules (qualified database schema name) := by
  refine isPiece_intercalate hrules (by decide) ?_
  simp only [List.mem_cons, List.not_mem_nil, or_false, forall_eq_or_imp, forall_eq]
  exact ⟨isPiece_name hrules hdatabase, isPiece_name hrules hschema, isPiece_name hrules hname⟩

theorem isPiece_names {names : List Text} (h : ∀ name ∈ names, OpensNone name) :
    IsPiece rules (quotedList names) := by
  refine isPiece_intercalate hrules (by decide) ?_
  intro part hpart
  obtain ⟨name, hname, rfl⟩ := List.mem_map.mp hpart
  exact isPiece_name hrules (h name hname)

theorem isDdlLine_comment (kind : String)
    (hkind : isLeading ("COMMENT ON ".toList ++ kind.toList ++ " ".toList) = true) {name : Text}
    (hname : IsPiece rules name) (comment : Text) :
    IsDdlLine rules (commentOn kind name comment) := by
  have hcomment := (hname.lead hrules hkind).between hrules
    (show isBetween " IS ".toList = true by decide) (isPiece_text comment)
  refine isDdlLine_statement (show "COMMENT".toList ∈ ddlWords by decide) ?_ hcomment
  simp only [List.append_assoc]
  exact List.prefix_append_of_prefix (by decide)

end Pieces

/-! ## Tables -/

/-- A column whose texts are whole. -/
structure CalmColumn (column : NzDetailedColumnInfo) : Prop where
  name : OpensNone column.name
  typeName : Piece column.typeName
  defaultValue : ∀ value, column.defaultValue = some value → Piece value

/-- A constraint whose texts are whole and whose kind is that of its character. -/
structure CalmKey (key : NzTableKeyInfo) : Prop where
  keyType : key.keyType = keyTypeOf key.typeChar
  name : OpensNone key.name
  columns : ∀ name ∈ key.columns, OpensNone name
  pkColumns : ∀ name ∈ key.pkColumns, OpensNone name
  reference : ∀ name ∈ key.pkDatabase.toList ++ key.pkSchema.toList ++ key.pkRelation.toList,
    OpensNone name
  updateType : Piece key.updateType
  deleteType : Piece key.deleteType

/-- `CREATE TABLE` up to its semicolon. -/
def createTable (name : Text) (columns : List NzDetailedColumnInfo)
    (distribution organize : List Text) : List Text :=
  ["CREATE TABLE ".toList ++ name, "(".toList, joinWith ",\n" (columns.map columnLine)] ++
    (if distribution = [] then [")\nDISTRIBUTE ON RANDOM".toList]
      else [")\nDISTRIBUTE ON (".toList ++ quotedList distribution ++ ")".toList]) ++
    if organize = [] then [] else ["ORGANIZE ON (".toList ++ quotedList organize ++ ")".toList]

/-- The lines behind it. -/
def tableLines (name : Text) (columns : List NzDetailedColumnInfo) (keys : List NzTableKeyInfo)
    (comment : Option Text) : List Text :=
  keys.flatMap (keyLine name) ++
    (match comment with
      | some comment => if comment = [] then [] else [[], commentOn "TABLE" name comment]
      | none => []) ++
    columnComments name columns

section Tables

variable {rules : SplitRules} (hrules : rules.Usual) {name : Text}

include hrules

theorem isPiece_columnLine {column : NzDetailedColumnInfo} (h : CalmColumn column) :
    IsPiece rules (columnLine column) := by
  have hname := (isPiece_name hrules h.name).lead hrules
    (show isLeading "    ".toList = true by decide)
  have htype := hname.between hrules (show isBetween " ".toList = true by decide)
    (h.typeName rules hrules)
  have hnull : IsPiece rules ("    ".toList ++ quoteIdentifier column.name ++ " ".toList ++
      column.typeName ++ if column.notNull then " NOT NULL".toList else []) := by
    split
    · refine htype.append (isPiece_code hrules (by decide) (by decide)) fun rest _ => rfl
    · rwa [List.append_nil]
  unfold columnLine
  cases hvalue : column.defaultValue with
  | none => exact (List.append_nil _).symm ▸ hnull
  | some value =>
      have hdefault := hnull.between hrules (show isBetween " DEFAULT ".toList = true by decide)
        (h.defaultValue value hvalue rules hrules)
      exact (List.append_assoc _ _ value) ▸ hdefault

theorem isPiece_keyType (typeChar : Char) : IsPiece rules (keyTypeOf typeChar).toList := by
  unfold keyTypeOf
  split_ifs <;> exact isPiece_code hrules (by decide) (by decide)

theorem isDdlLine_key (hname : IsPiece rules name) {key : NzTableKeyInfo} (h : CalmKey key)
    {line : Text} (hline : line ∈ keyLine name key) : IsDdlLine rules line := by
  have hkey := (hname.lead hrules (show isLeading "ALTER TABLE ".toList = true by decide)).between
    hrules (show isBetween " ADD CONSTRAINT ".toList = true by decide) (isPiece_name hrules h.name)
  have htype := hkey.between hrules (show isBetween " ".toList = true by decide)
    (h.keyType ▸ isPiece_keyType hrules key.typeChar)
  have hcolumns := (htype.between hrules (show isBetween " (".toList = true by decide)
    (isPiece_names hrules h.columns)).behind hrules (show isBetween ")".toList = true by decide)
  rw [keyLine] at hline
  split at hline
  · rw [List.mem_singleton.mp hline]
    refine isDdlLine_statement (show "ALTER".toList ∈ ddlWords by decide) ?_ hcolumns
    simp only [List.append_assoc]
    exact List.prefix_append_of_prefix (by decide)
  · split at hline
    · split at hline
      next db schema relation hdb hschema hrelation =>
        have hreference : IsPiece rules (qualified db schema relation) := by
          refine isPiece_qualified hrules (h.reference db ?_) (h.reference schema ?_)
            (h.reference relation ?_) <;> simp [hdb, hschema, hrelation]
        have htarget := (hcolumns.between hrules
          (show isBetween " REFERENCES ".toList = true by decide) hreference).between hrules
          (show isBetween " (".toList = true by decide) (isPiece_names hrules h.pkColumns)
        have hactions := (htarget.between hrules
          (show isBetween ") ON DELETE ".toList = true by decide)
          (h.deleteType rules hrules)).between hrules
          (show isBetween " ON UPDATE ".toList = true by decide) (h.updateType rules hrules)
        rw [List.mem_singleton.mp hline]
        refine isDdlLine_statement (show "ALTER".toList ∈ ddlWords by decide) ?_ hactions
        simp only [List.append_assoc]
        exact List.prefix_append_of_prefix (by decide)
      next => cases hline
    · cases hline

theorem isPiece_createTable (hname : IsPiece rules name) {columns : List NzDetailedColumnInfo}
    (hcolumns : ∀ column ∈ columns, CalmColumn column) {distribution organize : List Text}
    (hdistribution : ∀ part ∈ distribution, OpensNone part)
    (horganize : ∀ part ∈ organize, OpensNone part) :
    IsPiece rules (joinWith "\n" (createTable name columns distribution organize)) := by
  refine isPiece_intercalate hrules (by decide) ?_
  have hlines : IsPiece rules (joinWith ",\n" (columns.map columnLine)) := by
    refine isPiece_intercalate hrules (by decide) ?_
    intro part hpart
    obtain ⟨column, hcolumn, rfl⟩ := List.mem_map.mp hpart
    exact isPiece_columnLine hrules (hcolumns column hcolumn)
  intro line hline
  simp only [createTable, List.mem_append, List.mem_cons, List.not_mem_nil, or_false] at hline
  rcases hline with ((rfl | rfl | rfl) | hline) | hline
  · exact hname.lead hrules (by decide)
  · exact isPiece_code hrules (by decide) (by decide)
  · exact hlines
  · split at hline
    · rw [List.mem_singleton.mp hline]
      exact isPiece_code hrules (by decide) (by decide)
    · rw [List.mem_singleton.mp hline]
      exact ((isPiece_names hrules hdistribution).lead hrules (by decide)).behind hrules (by decide)
  · split at hline
    · cases hline
    · rw [List.mem_singleton.mp hline]
      exact ((isPiece_names hrules horganize).lead hrules (by decide)).behind hrules (by decide)

theorem isPiece_columnName (hname : IsPiece rules name) {column : Text} (h : OpensNone column) :
    IsPiece rules (joinWith "." [name, quoteIdentifier column]) := by
  refine isPiece_intercalate hrules (by decide) ?_
  simp only [List.mem_cons, List.not_mem_nil, or_false, forall_eq_or_imp, forall_eq]
  exact ⟨hname, isPiece_name hrules h⟩

theorem isDdlLine_columnComment (hname : IsPiece rules name) {columns : List NzDetailedColumnInfo}
    (hcolumns : ∀ column ∈ columns, CalmColumn column) :
    ∀ line ∈ columnComments name columns, IsDdlLine rules line := by
  intro line hline
  obtain ⟨column, hcolumn, hline⟩ := List.mem_flatMap.mp hline
  have hqualified := isPiece_columnName hrules hname (hcolumns column hcolumn).name
  split at hline
  · split at hline
    · cases hline
    · rw [List.mem_singleton.mp hline]
      exact isDdlLine_comment hrules "COLUMN" (by decide) hqualified _
  · cases hline

theorem isDdlLine_table (hname : IsPiece rules name) {columns : List NzDetailedColumnInfo}
    (hcolumns : ∀ column ∈ columns, CalmColumn column) {keys : List NzTableKeyInfo}
    (hkeys : ∀ key ∈ keys, CalmKey key) (comment : Option Text) :
    ∀ line ∈ tableLines name columns keys comment, IsDdlLine rules line := by
  intro line hline
  rcases List.mem_append.mp hline with hline | hline
  · rcases List.mem_append.mp hline with hline | hline
    · obtain ⟨key, hkey, hline⟩ := List.mem_flatMap.mp hline
      exact isDdlLine_key hrules hname (hkeys key hkey) hline
    · split at hline
      · split at hline
        · cases hline
        · rcases List.mem_cons.mp hline with rfl | hline
          · exact isDdlLine_blank
          · rw [List.mem_singleton.mp hline]
            exact isDdlLine_comment hrules "TABLE" (by decide) hname _
      · cases hline
  · exact isDdlLine_columnComment hrules hname hcolumns line hline

end Tables

/-! ## What a script runs as -/

/-- The driver and the server find these statements in a text, and no boundary of a transaction
among them. -/
structure RunsAs (sql : Text) (statements : List Text) : Prop where
  driver : proper (splitStatements sql) = proper statements
  server : proper (serverStatements sql) = proper statements
  flag : transactionStateOf sql = (none, false)
  session : ∀ isOpen, runStatements isOpen (serverStatements sql) = isOpen

theorem boundaryLoop_none {statements : List Text} (h : ∀ s ∈ statements, boundaryOf s = none)
    (state : Option Bool) (hadStart : Bool) :
    boundaryLoop statements state hadStart = (state, hadStart) := by
  induction statements with
  | nil => rfl
  | cons s ss ih =>
      rw [boundaryLoop, h s List.mem_cons_self]
      exact ih fun s hs => h s (List.mem_cons_of_mem _ hs)

theorem runsAs_of_lines {front : Text} (seen : Text)
    (hfront : ∀ rules : SplitRules, rules.Usual → IsFront rules front seen)
    (hboundary : boundaryOf seen = none) {lines : List Text}
    (h : ∀ rules : SplitRules, rules.Usual → ∀ line ∈ lines, IsDdlLine rules line)
    {statements : List Text}
    (hstatements : proper statements = proper (seen :: lines.map List.dropLast)) :
    RunsAs (front ++ ';' :: lines.flatMap ('\n' :: ·)) statements := by
  have hsplit : ∀ rules : SplitRules, rules.Usual →
      proper ((splitPushes rules (front ++ ';' :: lines.flatMap ('\n' :: ·))).map statementText) =
        proper (seen :: lines.map List.dropLast) := fun rules hrules =>
    script_statements hrules (hfront rules hrules) fun line hline => (h rules hrules line hline).1
  have hnone : ∀ s ∈ seen :: lines.map List.dropLast, boundaryOf s = none := by
    intro s hs
    rcases List.mem_cons.mp hs with rfl | hs
    · exact hboundary
    · obtain ⟨line, hline, rfl⟩ := List.mem_map.mp hs
      exact (h splitterRules splitterRules_usual line hline).2
  have hdriver := hsplit splitterRules splitterRules_usual
  have hserver := hsplit lexerRules lexerRules_usual
  exact ⟨hdriver.trans hstatements.symm, hserver.trans hstatements.symm,
    boundaryLoop_none (boundaryOf_proper hdriver hnone) none false,
    fun isOpen => runStatements_unchanged isOpen (boundaryOf_proper hserver hnone)⟩

theorem joinWith_cons (line : Text) (more : List Text) :
    joinWith "\n" (line :: more) = line ++ more.flatMap ('\n' :: ·) := by
  induction more generalizing line with
  | nil => exact List.intercalate_singleton.trans (List.append_nil line).symm
  | cons next more ih =>
      have hrest := ih next
      rw [joinWith] at hrest ⊢
      rw [List.intercalate_cons_cons, hrest, List.flatMap_cons, List.append_assoc]
      rfl

theorem joinWith_lines {lines : List Text} (hne : lines ≠ []) (more : List Text) :
    joinWith "\n" (lines ++ more) = joinWith "\n" lines ++ more.flatMap ('\n' :: ·) := by
  cases lines with
  | nil => exact absurd rfl hne
  | cons line lines =>
      rw [List.cons_append, joinWith_cons, joinWith_cons, List.flatMap_append, List.append_assoc]

/-- The statements of a table's DDL. -/
def tableStatements (database schema table : Text) (columns : List NzDetailedColumnInfo)
    (distribution organize : List Text) (keys : List NzTableKeyInfo) (comment : Option Text) :
    List Text :=
  let name := qualified database schema table
  joinWith "\n" (createTable name columns distribution organize) ::
    (tableLines name columns keys comment).map List.dropLast

/-- A column whose name, default and comment look like SQL. -/
def hostileColumn : NzDetailedColumnInfo where
  schema := "ADMIN".toList
  name := "id; COMMIT".toList
  ordinal := 1
  typeName := "CHARACTER VARYING(8)".toList
  notNull := true
  defaultValue := some (appendQuotedText "x'; ROLLBACK; --".toList)
  description := some "/* ' $$ BEGIN_PROC".toList

def hostileKey : NzTableKeyInfo where
  name := "PK; \"".toList
  keyType := "PRIMARY KEY"
  typeChar := 'p'
  columns := ["id; COMMIT".toList]
  pkDatabase := none
  pkSchema := none
  pkRelation := none
  updateType := "NO ACTION".toList
  deleteType := "NO ACTION".toList

theorem hostileColumn_calm : CalmColumn hostileColumn where
  name := fun _ => by decide
  typeName := fun _ hrules => isPiece_code hrules (by decide) (by decide)
  defaultValue := by
    intro value hvalue
    rw [← Option.some.inj hvalue]
    exact fun _ _ => isPiece_text _

theorem hostileKey_calm : CalmKey hostileKey where
  keyType := by decide
  name := fun _ => by decide
  columns := by
    intro name hname
    rw [List.mem_singleton.mp hname]
    exact fun _ => by decide
  pkColumns := fun _ hname => absurd hname List.not_mem_nil
  reference := fun _ hname => absurd hname List.not_mem_nil
  updateType := fun _ hrules => isPiece_code hrules (by decide) (by decide)
  deleteType := fun _ hrules => isPiece_code hrules (by decide) (by decide)

/-- The lines behind the definition of a view. -/
def viewLines (name : Text) (comment : Option Text) (columns : List NzDetailedColumnInfo) :
    List Text :=
  (match trimmedComment comment with
    | some comment => [[], commentOn "VIEW" name comment]
    | none => []) ++
    columns.flatMap fun column =>
      match trimmedComment column.description with
      | some description =>
          [commentOn "COLUMN" (joinWith "." [name, quoteIdentifier column.name]) description]
      | none => []

theorem isDdlLine_view {rules : SplitRules} (hrules : rules.Usual) {name : Text}
    (hname : IsPiece rules name) {columns : List NzDetailedColumnInfo}
    (hcolumns : ∀ column ∈ columns, OpensNone column.name) (comment : Option Text) :
    ∀ line ∈ viewLines name comment columns, IsDdlLine rules line := by
  intro line hline
  rcases List.mem_append.mp hline with hline | hline
  · split at hline
    · rcases List.mem_cons.mp hline with rfl | hline
      · exact isDdlLine_blank
      · rw [List.mem_singleton.mp hline]
        exact isDdlLine_comment hrules "VIEW" (by decide) hname _
    · cases hline
  · obtain ⟨column, hcolumn, hline⟩ := List.mem_flatMap.mp hline
    split at hline
    · rw [List.mem_singleton.mp hline]
      exact isDdlLine_comment hrules "COLUMN" (by decide)
        (isPiece_columnName hrules hname (hcolumns column hcolumn)) _
    · cases hline

/-- The DDL of a view runs as its definition and its comments, where the definition ends itself with
a semicolon. -/
theorem viewDdl_runs {database schema view definition : Text} (hdatabase : OpensNone database)
    (hschema : OpensNone schema) (hview : OpensNone view) (hdefinition : Piece definition)
    {columns : List NzDetailedColumnInfo} (hcolumns : ∀ column ∈ columns, OpensNone column.name)
    (comment : Option Text) :
    RunsAs (buildViewDdl database schema view (definition ++ [';']) comment columns)
      (("CREATE OR REPLACE VIEW ".toList ++ qualified database schema view ++ " AS\n".toList ++
        definition) ::
        (viewLines (qualified database schema view) comment columns).map List.dropLast) := by
  have hname : Piece (qualified database schema view) := fun rules hrules =>
    isPiece_qualified hrules hdatabase hschema hview
  have htext : buildViewDdl database schema view (definition ++ [';']) comment columns =
      ("CREATE OR REPLACE VIEW ".toList ++ qualified database schema view ++ " AS\n".toList ++
        definition) ++ ';' ::
        (viewLines (qualified database schema view) comment columns).flatMap ('\n' :: ·) := by
    have hall : buildViewDdl database schema view (definition ++ [';']) comment columns =
        joinWith "\n" (("CREATE OR REPLACE VIEW ".toList ++ qualified database schema view ++
          " AS".toList) :: (definition ++ [';']) ::
            viewLines (qualified database schema view) comment columns) := rfl
    rw [hall, joinWith_cons, List.flatMap_cons]
    simp
  rw [htext]
  refine runsAs_of_lines _ (fun rules hrules => ?_) ?_
    (fun rules hrules => isDdlLine_view hrules (hname rules hrules) hcolumns comment) rfl
  · exact ((((hname rules hrules).lead hrules (by decide)).between hrules (by decide)
      (hdefinition rules hrules))).isFront hrules
  · refine boundaryOf_prefix (show "CREATE".toList ∈ ddlWords by decide) ?_
    simp only [List.append_assoc]
    exact List.prefix_append_of_prefix (by decide)

/-! ## Procedures -/

/-- A procedure whose texts are whole and whose source does not end its body. -/
structure CalmProcedure {V : Type} (C : Cells V) (U : Uppercase) (row : List V) (database : Text) :
    Prop where
  database : OpensNone database
  schema : ∀ value, (cell row 0 >>= C.text) = .ok value → OpensNone value
  name : ∀ value, (cell row 1 >>= C.text) = .ok value → OpensNone value
  signature : ∀ value, (cell row 2 >>= C.optionalText) = .ok value →
    Piece ((value.getD []).dropWhile (· != '('))
  args : ∀ value, (cell row 3 >>= C.optionalText) = .ok value → Piece (argumentList (value.getD []))
  returns : ∀ value, (cell row 4 >>= C.optionalText) = .ok value →
    Piece (fixedReturnType U (value.getD "INTEGER".toList))
  source : ∀ value, (cell row 7 >>= C.optionalText) = .ok value →
    findWordCi endProc none (value.getD []) = none

theorem argumentList_head (args : Text) : ∃ rest, argumentList args = '(' :: rest := by
  unfold argumentList
  dsimp only
  split
  · exact ⟨[')'], rfl⟩
  · split
    next hends =>
      cases hargs : trim args with
      | nil =>
          rw [hargs] at hends
          cases hends.1
      | cons c cs =>
          rw [hargs] at hends
          cases hends.1
          exact ⟨cs, rfl⟩
    next => exact ⟨_, rfl⟩

theorem isFront_procedure {rules : SplitRules} (hrules : rules.Usual) {front source : Text}
    (hfront : IsPiece rules front) (hsource : findWordCi endProc none source = none) :
    IsFront rules (front ++ "\nBEGIN_PROC\n".toList ++ source ++ "\nEND_PROC".toList)
      (front ++ "\n ".toList) := by
  intro rest ss hsplits
  have hbody := (hsplits.semicolon hrules).procBody hrules hsource (by rfl)
  have hall := hfront _ _ _ (by rfl) hbody
  simpa using hall

theorem procedureText_runs {front source : Text} (hfront : Piece front)
    (hcreate : "CREATE".toList ++ [' '] <+: front) (hsource : findWordCi endProc none source = none)
    {lines : List Text} (hlines : ∀ rules : SplitRules, rules.Usual → ∀ line ∈ lines,
      IsDdlLine rules line) :
    RunsAs (front ++ "\nBEGIN_PROC\n".toList ++ source ++ "\nEND_PROC".toList ++
      ';' :: lines.flatMap ('\n' :: ·)) (front :: lines.map List.dropLast) := by
  have hseen : front ++ "\n ".toList = (front ++ ['\n']) ++ [' '] :=
    (List.append_assoc front ['\n'] [' ']).symm
  refine runsAs_of_lines (front ++ "\n ".toList)
    (fun rules hrules => isFront_procedure hrules (hfront rules hrules) hsource) ?_ hlines ?_
  · exact boundaryOf_prefix (by decide) (List.prefix_append_of_prefix hcreate)
  · rw [hseen, proper_concat _ (by decide), proper_concat _ (by decide)]

/-- `CREATE OR REPLACE PROCEDURE` up to its body. -/
def procedureFront (fullName args returns : Text) (executeAsOwner : Bool) : Text :=
  "CREATE OR REPLACE PROCEDURE ".toList ++ fullName ++ args ++ "\nRETURNS ".toList ++ returns ++
    "\nEXECUTE AS ".toList ++ (if executeAsOwner then "OWNER".toList else "CALLER".toList) ++
    "\nLANGUAGE NZPLSQL AS".toList

theorem isPiece_procedureFront {rules : SplitRules} (hrules : rules.Usual) {fullName args : Text}
    (hname : IsPiece rules fullName) (hargs : IsPiece rules (argumentList args)) {returns : Text}
    (hreturns : IsPiece rules returns) (executeAsOwner : Bool) :
    IsPiece rules (procedureFront fullName (argumentList args) returns executeAsOwner) := by
  obtain ⟨rest, hrest⟩ := argumentList_head args
  have hfull : IsPiece rules ("CREATE OR REPLACE PROCEDURE ".toList ++ fullName ++
      argumentList args) := by
    refine (hname.lead hrules (by decide)).append hargs fun more _ => ?_
    rw [hrest]
    rfl
  have howner : IsPiece rules (if executeAsOwner then "OWNER".toList else "CALLER".toList) := by
    split <;> exact isPiece_code hrules (by decide) (by decide)
  have hall := (hfull.between hrules (show isBetween "\nRETURNS ".toList = true by decide)
    hreturns).between hrules (show isBetween "\nEXECUTE AS ".toList = true by decide) howner
  exact hall.append (isPiece_code hrules (by decide) (by decide)) fun _ _ => rfl

theorem procedureFront_create (fullName args returns : Text) (executeAsOwner : Bool) :
    "CREATE".toList ++ [' '] <+: procedureFront fullName args returns executeAsOwner := by
  have hstart : "CREATE".toList ++ [' '] <+: "CREATE OR REPLACE PROCEDURE ".toList := by decide
  unfold procedureFront
  simp only [List.append_assoc]
  exact List.prefix_append_of_prefix hstart

theorem procedureText_eq (fullName args returns source more : Text) (executeAsOwner : Bool) :
    "CREATE OR REPLACE PROCEDURE ".toList ++ fullName ++ args ++ "\nRETURNS ".toList ++ returns ++
        "\nEXECUTE AS ".toList ++ (if executeAsOwner then "OWNER".toList else "CALLER".toList) ++
        "\nLANGUAGE NZPLSQL AS\nBEGIN_PROC\n".toList ++ source ++ "\nEND_PROC;".toList ++ more =
      procedureFront fullName args returns executeAsOwner ++ "\nBEGIN_PROC\n".toList ++ source ++
        "\nEND_PROC".toList ++ ';' :: more := by
  have hbegin : "\nLANGUAGE NZPLSQL AS\nBEGIN_PROC\n" =
      "\nLANGUAGE NZPLSQL AS" ++ "\nBEGIN_PROC\n" := by decide
  have hend : "\nEND_PROC;" = "\nEND_PROC" ++ ";" := by decide
  have hsemicolon : ";".toList = [';'] := rfl
  unfold procedureFront
  simp only [hbegin, hend, String.toList_append, hsemicolon, List.append_assoc,
    List.singleton_append]

theorem procedureComment {fullName signature : Text} (hname : Piece fullName)
    (hsignature : Piece (signature.dropWhile (· != '(')))
    (hne : signature.dropWhile (· != '(') ≠ []) (description : Text) :
    ∀ rules : SplitRules, rules.Usual →
      ∀ line ∈ [commentOn "PROCEDURE" (fullName ++ signature.dropWhile (· != '(')) description],
        IsDdlLine rules line := by
  intro rules hrules line hline
  rw [List.mem_singleton.mp hline]
  refine isDdlLine_comment hrules "PROCEDURE" (by decide) ?_ description
  refine (hname rules hrules).append (hsignature rules hrules) fun rest _ => ?_
  obtain ⟨c, cs, hcons⟩ := List.exists_cons_of_ne_nil hne
  have hhead := List.head?_dropWhile_not (· != '(') signature
  rw [hcons] at hhead ⊢
  have hc : c = '(' := by simpa using hhead
  rw [hc]
  rfl

/-- A procedure whose name, comment and source look like SQL. -/
def hostileProcedure : List Text :=
  ["ADMIN".toList, "P; COMMIT".toList, "P(INTEGER)".toList, "(INTEGER)".toList, "INTEGER".toList,
    "t".toList, "it's; --".toList, "BEGIN; COMMIT; -- ' $$\nEND;".toList]

theorem hostileProcedure_calm :
    CalmProcedure textCells asciiUppercase hostileProcedure "DB".toList where
  database := fun _ => by decide
  schema := by
    intro value h
    rw [← Except.ok.inj (show Except.ok "ADMIN".toList = _ from h)]
    exact fun _ => by decide
  name := by
    intro value h
    rw [← Except.ok.inj (show Except.ok "P; COMMIT".toList = _ from h)]
    exact fun _ => by decide
  signature := by
    intro value h
    rw [← Except.ok.inj (show Except.ok (some "P(INTEGER)".toList) = _ from h)]
    exact fun _ hrules => isPiece_code hrules (by decide) (by decide)
  args := by
    intro value h
    rw [← Except.ok.inj (show Except.ok (some "(INTEGER)".toList) = _ from h)]
    exact fun _ hrules => isPiece_code hrules (by decide) (by decide)
  returns := by
    intro value h
    rw [← Except.ok.inj (show Except.ok (some "INTEGER".toList) = _ from h)]
    exact fun _ hrules => isPiece_code hrules (by decide) (by decide)
  source := by
    intro value h
    rw [← Except.ok.inj (show Except.ok (some "BEGIN; COMMIT; -- ' $$\nEND;".toList) = _ from h)]
    decide

end NzRust.Metadata
