import NzRust.Sql.ByteScan
import NzRust.Core.Digits
import NzRust.Core.Error

/-!
# SQL identifiers

How names are quoted for a statement, and the two readers of quoted names: the
one of qualified object names and the one of identifier paths. Each of them
handles a doubled quote while it looks for the points and once more when it
strips the quotes.
-/

namespace NzRust.Metadata

open Checked Sql

/-! ## Quoting -/

def reservedWords : Text :=
  "ABORT ALL ALLOCATE ANALYSE ANALYZE AND ANY AS ASC AUTOMAINT AWSS3 AZUREBLOB ".toList ++
    "BETWEEN BINARY BIT BOTH CASE CAST CHAR CHARACTER CHECK CLUSTER COALESCE COLLATE ".toList ++
    "COLLATION COLUMN CONSTRAINT COPY CROSS CURRENT CURRENT_CATALOG CURRENT_DATE ".toList ++
    "CURRENT_DB CURRENT_SCHEMA CURRENT_SID CURRENT_TIME CURRENT_TIMESTAMP ".toList ++
    "CURRENT_USER CURRENT_USERID CURRENT_USEROID DAYSPERROW DEALLOCATE DEC DECIMAL ".toList ++
    "DECODE DEFAULT DEREGISTER DESC DISTINCT DISTRIBUTE DO ELSE END EXCEPT EXCLUDE ".toList ++
    "EXISTS EXPLAIN EXPRESS EXTEND EXTERNAL EXTRACT FALSE FIRST FLOAT FOLLOWING FOR ".toList ++
    "FOREIGN FROM FULL FUNCTION GENSTATS GLOBAL GROUP HAVING HISTOGRAM ".toList ++
    "IDENTIFIER_CASE ILIKE IN INDEX INITIALLY INNER INOUT INTERSECT INTERVAL INTO ".toList ++
    "JOURNAL LEADING LEFT LIKE LIMIT LOAD LOCAL LOCK MINUS MOVE NATURAL NCHAR NEW ".toList ++
    "NOCASCADE NOT NOTNULL NULL NULLS NUMERIC NVL NVL2 OFFSET OFF OLD ON ONLINE ONLY ".toList ++
    "OR ORDER OTHERS OUT OUTER OVER OVERLAPS PAUSESTEPS PAUSETIME PARTITION POSITION ".toList ++
    "PRECEDING PRECISION PRESERVE PRIMARY REGISTER RESET REUSE RIGHT ROWS SELECT ".toList ++
    "SESSION_USER SETOF SHOW SOME TABLE TEMPORAL THEN TIES TIME TIME_TRAVEL_ENABLE ".toList ++
    "TIMESTAMP TO TRAILING TRANSACTION TRIGGER TRIM TRUE UNBOUNDED UNION UNIQUE USER ".toList ++
    "USING VACUUM VARCHAR VERBOSE VERSION VIEW WHEN WHERE WITH WRITE CTID OID XMIN ".toList ++
    "CMIN XMAX CMAX TABLEOID ROWID DATASLICEID CREATEXID DELETEXID".toList

/-- `name.replace('"', "\"\"")`. -/
def doubled (name : Text) : Text :=
  name.flatMap fun c => if c = '"' then ['"', '"'] else [c]

def isAsciiUppercase (c : Char) : Bool :=
  'A' ≤ c && c ≤ 'Z'

/-- A name that needs no quotes. -/
def isBare (name : Text) : Bool :=
  name.head?.any isAsciiUppercase &&
    name.all (fun c => isAsciiUppercase c || c.isDigit || c == '_') &&
    !(splitWhitespace reservedWords).contains name

def quoteIdentifier (name : Text) : Text :=
  if isBare name then name else '"' :: (doubled name ++ ['"'])

/-! ## Qualified object names -/

structure NameScan where
  parts : List Text := []
  part : Text := []
  inQuotes : Bool := false
  parentheses : Nat := 0
  deriving DecidableEq, Repr

namespace NameScan

def push (st : NameScan) (c : Char) : NameScan :=
  { st with part := st.part ++ [c] }

/-- A character that does not begin a doubled quote. -/
def step (st : NameScan) (c : Char) : NameScan :=
  if c = '"' then { st.push c with inQuotes := !st.inQuotes }
  else if !st.inQuotes ∧ c = '(' then { st.push c with parentheses := st.parentheses + 1 }
  else if !st.inQuotes ∧ c = ')' then { st.push c with parentheses := st.parentheses - 1 }
  else if !st.inQuotes ∧ st.parentheses = 0 ∧ c = '.' then
    { st with parts := st.parts ++ [st.part], part := [] }
  else st.push c

/-- The scan; a doubled quote inside quotes leaves one of its two. -/
def run (st : NameScan) : Text → NameScan
  | [] => st
  | [c] => st.step c
  | c :: next :: chars =>
      if c = '"' ∧ st.inQuotes ∧ next = '"' then (st.push '"').run chars
      else (st.step c).run (next :: chars)

end NameScan

/-- `replace("\"\"", "\"")`. -/
def undoubled : Text → Text
  | [] => []
  | [c] => [c]
  | c :: next :: chars =>
      if c = '"' ∧ next = '"' then '"' :: undoubled chars else c :: undoubled (next :: chars)

/-- `str::to_uppercase`, as far as it is relied on: Unicode maps ASCII to ASCII. -/
structure Uppercase where
  toUppercase : Text → Text
  ascii : ∀ text, (∀ c ∈ text, c.toNat < 128) → toUppercase text = text.map Char.toUpper

/-- `&text[1..text.len() - 1]`. -/
def inside (text : Text) : Exec NzError Text :=
  match strRange text 1 (byteLen text - 1) with
  | .ok inner => .ok inner
  | .error _ => panics

def normalizeIdentifier (U : Uppercase) (part : Text) : Exec NzError Text :=
  let trimmed := trim part
  if trimmed = [] then fail (.config "empty SQL identifier")
  else if trimmed.head? = some '"' then
    if byteLen trimmed < 2 ∨ trimmed.getLast? ≠ some '"' then
      fail (.config ("invalid quoted SQL identifier: " ++ String.ofList trimmed))
    else (inside trimmed).map undoubled
  else .ok (U.toUppercase trimmed)

def normalizeObjectName (U : Uppercase) (name : Text) (schema : Option Text) :
    Exec NzError (Option Text × Text) :=
  let scan := NameScan.run {} name
  let parts := scan.parts ++ [scan.part]
  if scan.inQuotes ∨ scan.parentheses ≠ 0 ∨ 2 < parts.length then
    fail (.config ("invalid qualified object name (expected [schema.]object): " ++
      String.ofList name))
  else do
    let object ← normalizeIdentifier U scan.part
    let schema ←
      match scan.parts.getLast?, schema with
      | some part, _ => (normalizeIdentifier U part).map some
      | none, some schema => (normalizeIdentifier U schema).map some
      | none, none => .ok none
    return (schema, object)

/-! ## Identifier paths -/

structure PathScan where
  rawParts : List Text := []
  current : Text := []
  quoted : Bool := false
  deriving DecidableEq, Repr

namespace PathScan

def push (st : PathScan) (text : Text) : PathScan :=
  { st with current := st.current ++ text }

def step (st : PathScan) (c : Char) : PathScan :=
  if c = '"' then { st.push [c] with quoted := !st.quoted }
  else if c = '.' ∧ !st.quoted then
    { st with rawParts := st.rawParts ++ [st.current], current := [] }
  else st.push [c]

/-- The first pass; a doubled quote inside quotes is kept as it is. -/
def run (st : PathScan) : Text → PathScan
  | [] => st
  | [c] => st.step c
  | c :: next :: chars =>
      if c = '"' ∧ st.quoted ∧ next = '"' then (st.push ['"', '"']).run chars
      else (st.step c).run (next :: chars)

end PathScan

def invalidSynonymTarget : NzError :=
  .config "invalid synonym target"

/-- The inside of a quoted part: every quote in it has to be doubled. -/
def identifierLoop : Text → Exec NzError Text
  | [] => .ok []
  | [c] => if c = '"' then fail invalidSynonymTarget else .ok [c]
  | c :: next :: chars =>
      if c = '"' then
        if next ≠ '"' then fail invalidSynonymTarget
        else do
          let rest ← identifierLoop chars
          return '"' :: rest
      else do
        let rest ← identifierLoop (next :: chars)
        return c :: rest

def parsePart (rawPart : Text) : Exec NzError Text :=
  let part := trim rawPart
  if part.head? ≠ some '"' then
    if part.contains '"' then fail invalidSynonymTarget else .ok part
  else if byteLen part < 2 ∨ part.getLast? ≠ some '"' then fail invalidSynonymTarget
  else do
    let inner ← inside part
    identifierLoop inner

/-- Three parts of which the middle one is left out. -/
def hasOmittedSchema : List Text → Bool
  | [first, middle, last] => first ≠ [] && middle = [] && last ≠ []
  | _ => false

def splitIdentifierPath (value : Text) : Exec NzError (List Text) :=
  let scan := PathScan.run {} value
  if scan.quoted then fail invalidSynonymTarget
  else do
    let parts ← (scan.rawParts ++ [scan.current]).mapM parsePart
    if 3 < parts.length ∨ (parts.any List.isEmpty && !hasOmittedSchema parts) then fail invalidSynonymTarget
    else return parts

/-! ## What a quoted name is made of -/

/-- A text between quotes. -/
def enclosed (text : Text) : Text :=
  '"' :: (text ++ ['"'])

theorem quoteIdentifier_eq (name : Text) :
    quoteIdentifier name = if isBare name then name else enclosed (doubled name) :=
  rfl

theorem trim_enclosed (text : Text) : trim (enclosed text) = enclosed text := by
  apply trim_eq
  · intro c hc
    cases hc
    rfl
  · intro c hc
    rw [enclosed, ← List.cons_append, List.getLast?_concat] at hc
    cases hc
    rfl

theorem byteLen_enclosed (text : Text) : byteLen (enclosed text) = 1 + (byteLen text + 1) := by
  rw [enclosed, byteLen_cons, byteLen_append]
  rfl

theorem getLast_enclosed (text : Text) : (enclosed text).getLast? = some '"' := by
  rw [enclosed, ← List.cons_append, List.getLast?_concat]

theorem inside_enclosed (text : Text) : inside (enclosed text) = .ok text := by
  have hrange := strRange_append ['"'] text ['"']
  have hlen : byteLen (enclosed text) - 1 = byteLen ['"'] + byteLen text := by
    rw [byteLen_enclosed, byteLen_cons, byteLen_nil]
    have hquote : '"'.utf8Size = 1 := rfl
    omega
  have hslice : strRange (enclosed text) 1 (byteLen ['"'] + byteLen text) = .ok text := hrange
  rw [inside, hlen, hslice]

/-- The characters of a name that needs no quotes. -/
theorem bare_char {name : Text} (h : isBare name = true) {c : Char} (hc : c ∈ name) :
    48 ≤ c.toNat ∧ c.toNat ≤ 57 ∨ 65 ≤ c.toNat ∧ c.toNat ≤ 90 ∨ c.toNat = 95 := by
  simp only [isBare, Bool.and_eq_true] at h
  have hchar := List.all_eq_true.mp h.1.2 c hc
  simp only [Bool.or_eq_true, isAsciiUppercase, Bool.and_eq_true, decide_eq_true_eq,
    beq_iff_eq] at hchar
  rcases hchar with (hupper | hdigit) | rfl
  · have hlow : 65 ≤ c.toNat := hupper.1
    have hhigh : c.toNat ≤ 90 := hupper.2
    omega
  · rw [Char.isDigit_iff_toNat] at hdigit
    have hzero : '0'.toNat = 48 := rfl
    have hnine : '9'.toNat = 57 := rfl
    omega
  · exact .inr (.inr rfl)

theorem bare_ne {name : Text} (h : isBare name = true) {c d : Char} (hc : c ∈ name)
    (hd : d.toNat < 48) : c ≠ d := by
  rintro rfl
  have hrange := bare_char h hc
  omega

theorem bare_ne_nil {name : Text} (h : isBare name = true) : name ≠ [] := by
  rintro rfl
  cases h

theorem bare_not_whitespace {name : Text} (h : isBare name = true) {c : Char} (hc : c ∈ name) :
    isWhitespace c = false := by
  have hrange := bare_char h hc
  rw [isWhitespace, Bool.eq_false_iff]
  simp only [ne_eq, Bool.or_eq_true, Bool.and_eq_true, decide_eq_true_eq, beq_iff_eq]
  omega

theorem trim_bare {name : Text} (h : isBare name = true) : trim name = name := by
  apply trim_eq
  · exact fun c hc => bare_not_whitespace h (List.mem_of_mem_head? hc)
  · exact fun c hc => bare_not_whitespace h (List.mem_of_getLast? hc)

theorem head_bare {name : Text} (h : isBare name = true) : name.head? ≠ some '"' := by
  intro hhead
  exact bare_ne h (List.mem_of_mem_head? hhead) (by decide) rfl

theorem toUpper_bare {name : Text} (h : isBare name = true) : name.map Char.toUpper = name := by
  have hsame : ∀ c ∈ name, c.toUpper = id c := by
    intro c hc
    have hrange := bare_char h hc
    apply dif_neg
    rintro ⟨hlow, -⟩
    have hlow' : 97 ≤ c.toNat := hlow
    omega
  rw [List.map_congr_left hsame, List.map_id]

theorem doubled_cons (c : Char) (name : Text) :
    doubled (c :: name) = (if c = '"' then ['"', '"'] else [c]) ++ doubled name :=
  List.flatMap_cons

theorem undoubled_other {c : Char} (hc : c ≠ '"') (rest : Text) :
    undoubled (c :: rest) = c :: undoubled rest := by
  cases rest with
  | nil => rfl
  | cons d ds => rw [undoubled, if_neg fun h => hc h.1]

theorem undoubled_doubled (name : Text) : undoubled (doubled name) = name := by
  induction name with
  | nil => rfl
  | cons c cs ih =>
      rw [doubled_cons]
      split_ifs with hc
      · rw [List.cons_append, List.singleton_append, undoubled, if_pos ⟨rfl, rfl⟩, ih, hc]
      · rw [List.singleton_append, undoubled_other hc, ih]

theorem undoubled_length (text : Text) : (undoubled text).length ≤ text.length := by
  fun_induction undoubled text with
  | case1 => exact Nat.le_refl 0
  | case2 => exact Nat.le_refl 1
  | case3 c next chars h ih =>
      simp only [List.length_cons]
      omega
  | case4 c next chars h ih =>
      simp only [List.length_cons] at ih ⊢
      omega

/-- A text with two quotes next to each other loses one of them. -/
theorem undoubled_eq_iff {text : Text} : undoubled text = text ↔ ¬ ['"', '"'] <:+: text := by
  fun_induction undoubled text with
  | case1 => simp
  | case2 c => simp [List.infix_cons_iff]
  | case3 c next chars h ih =>
      obtain ⟨rfl, rfl⟩ := h
      refine iff_of_false ?_ (fun hnone => hnone ⟨[], chars, rfl⟩)
      intro heq
      have hlen := congrArg List.length heq
      have hshort := undoubled_length chars
      simp only [List.length_cons] at hlen
      omega
  | case4 c next chars h ih =>
      rw [List.cons.injEq, List.infix_cons_iff, not_or, ih]
      have hstart : ¬ ['"', '"'] <+: c :: next :: chars := by
        rintro ⟨tail, htail⟩
        simp only [List.cons_append, List.cons.injEq] at htail
        exact h ⟨htail.1.symm, htail.2.1.symm⟩
      simp [hstart]

/-! ## Reading a quoted object name -/

namespace NameScan

theorem run_cons (st : NameScan) (c : Char) (cs : Text) :
    st.run (c :: cs) =
      if c = '"' ∧ st.inQuotes ∧ cs.head? = some '"' then (st.push '"').run cs.tail
      else (st.step c).run cs := by
  cases cs with
  | nil => simp [run]
  | cons d ds => simp [run]

/-- Inside quotes every character is kept, of a doubled quote one. -/
theorem run_inside (st : NameScan) (hquotes : st.inQuotes = true) (name : Text) {rest : Text}
    (hrest : rest.head? ≠ some '"') :
    st.run (doubled name ++ '"' :: rest) =
      ({ st with part := st.part ++ (name ++ ['"']), inQuotes := false } : NameScan).run rest := by
  induction name generalizing st with
  | nil =>
      rw [doubled, List.flatMap_nil, List.nil_append, run_cons, if_neg fun h => hrest h.2.2, step,
        if_pos rfl, hquotes]
      rfl
  | cons c cs ih =>
      rw [doubled_cons]
      have hstep := ih (st.push c) hquotes
      rw [push] at hstep
      dsimp only at hstep
      rw [List.append_assoc, List.singleton_append] at hstep
      split_ifs with hc
      · subst hc
        rw [List.cons_append, List.singleton_append, List.cons_append, List.cons_append, run_cons,
          if_pos ⟨rfl, hquotes, rfl⟩]
        exact hstep
      · rw [List.singleton_append, List.cons_append, run_cons, if_neg fun h => hc h.1, step,
          if_neg hc, hquotes]
        exact hstep

theorem run_bare (st : NameScan) {name : Text}
    (h : ∀ c ∈ name, c ≠ '"' ∧ c ≠ '(' ∧ c ≠ ')' ∧ c ≠ '.') (rest : Text) :
    st.run (name ++ rest) = ({ st with part := st.part ++ name } : NameScan).run rest := by
  induction name generalizing st with
  | nil => rw [List.nil_append, List.append_nil]
  | cons c cs ih =>
      obtain ⟨hquote, hopen, hclose, hpoint⟩ := h c List.mem_cons_self
      have hstep : st.step c = st.push c := by
        rw [step, if_neg hquote, if_neg fun h => hopen h.2, if_neg fun h => hclose h.2,
          if_neg fun h => hpoint h.2.2]
      have htail := ih (st.push c) fun d hd => h d (List.mem_cons_of_mem c hd)
      rw [push] at htail
      dsimp only at htail
      rw [List.append_assoc, List.singleton_append] at htail
      rw [List.cons_append, run_cons, if_neg fun h => hquote h.1, hstep]
      exact htail

end NameScan

/-- What the scan of an object name leaves of a quoted name. -/
def keptName (name : Text) : Text :=
  if isBare name then name else enclosed name

theorem NameScan.run_quoteIdentifier (st : NameScan) (hquotes : st.inQuotes = false) (name : Text)
    (rest : Text) (hrest : rest.head? ≠ some '"') :
    st.run (quoteIdentifier name ++ rest) =
      ({ st with part := st.part ++ keptName name } : NameScan).run rest := by
  rw [quoteIdentifier_eq, keptName]
  split_ifs with hbare
  · apply run_bare
    intro c hc
    exact ⟨bare_ne hbare hc (by decide), bare_ne hbare hc (by decide),
      bare_ne hbare hc (by decide), bare_ne hbare hc (by decide)⟩
  · rw [enclosed, List.cons_append, run_cons, if_neg (by simp [hquotes]), step, if_pos rfl, hquotes,
      List.append_assoc, List.singleton_append]
    have hinside := run_inside { st.push '"' with inQuotes := true } rfl name hrest
    rw [push] at hinside
    dsimp only at hinside
    rw [List.append_assoc, List.singleton_append] at hinside
    cases st
    subst hquotes
    exact hinside

theorem normalizeIdentifier_enclosed (U : Uppercase) (text : Text) :
    normalizeIdentifier U (enclosed text) = .ok (undoubled text) := by
  have hlen : ¬ (byteLen (enclosed text) < 2 ∨ (enclosed text).getLast? ≠ some '"') := by
    rw [byteLen_enclosed, getLast_enclosed, not_or, not_not]
    exact ⟨by omega, rfl⟩
  have hhead : (enclosed text).head? = some '"' := rfl
  rw [normalizeIdentifier, trim_enclosed, if_neg nofun, if_pos hhead, if_neg hlen,
    inside_enclosed]
  rfl

theorem normalizeIdentifier_bare (U : Uppercase) {name : Text} (h : isBare name = true) :
    normalizeIdentifier U name = .ok name := by
  have hascii : ∀ c ∈ name, c.toNat < 128 := by
    intro c hc
    have hrange := bare_char h hc
    omega
  rw [normalizeIdentifier, trim_bare h, if_neg (bare_ne_nil h), if_neg (head_bare h),
    U.ascii name hascii, toUpper_bare h]

/-- A quoted name is normalised to itself. -/
theorem normalizeIdentifier_quote (U : Uppercase) (name : Text) :
    normalizeIdentifier U (quoteIdentifier name) = .ok name := by
  rw [quoteIdentifier_eq]
  split_ifs with hbare
  · exact normalizeIdentifier_bare U hbare
  · rw [normalizeIdentifier_enclosed, undoubled_doubled]

/-- Of a name that the scan has read already, doubled quotes are reduced once more. -/
theorem normalizeIdentifier_kept (U : Uppercase) (name : Text) :
    normalizeIdentifier U (keptName name) = .ok (undoubled name) := by
  rw [keptName]
  split_ifs with hbare
  · have hnone : ¬ ['"', '"'] <:+: name := by
      intro hquotes
      exact bare_ne hbare (hquotes.subset List.mem_cons_self) (by decide) rfl
    rw [normalizeIdentifier_bare U hbare, undoubled_eq_iff.mpr hnone]
  · exact normalizeIdentifier_enclosed U name

theorem normalizeObjectName_schema (U : Uppercase) (name schema : Text) :
    normalizeObjectName U (quoteIdentifier name) (some (quoteIdentifier schema)) =
      .ok (some schema, undoubled name) := by
  have hscan : NameScan.run {} (quoteIdentifier name) = { part := keptName name } := by
    have hrun := NameScan.run_quoteIdentifier {} rfl name [] nofun
    rwa [List.append_nil, List.nil_append] at hrun
  rw [normalizeObjectName, hscan, if_neg (by simp), normalizeIdentifier_kept, ok_bind,
    List.getLast?_nil]
  dsimp only
  rw [normalizeIdentifier_quote]
  rfl

theorem normalizeObjectName_qualified (U : Uppercase) (name schema : Text) (other : Option Text) :
    normalizeObjectName U (quoteIdentifier schema ++ '.' :: quoteIdentifier name) other =
      .ok (some (undoubled schema), undoubled name) := by
  have hscan : NameScan.run {} (quoteIdentifier schema ++ '.' :: quoteIdentifier name) =
      { parts := [keptName schema], part := keptName name } := by
    have hschema := NameScan.run_quoteIdentifier {} rfl schema ('.' :: quoteIdentifier name)
      (by simp)
    have hname := NameScan.run_quoteIdentifier { parts := [keptName schema] } rfl name [] nofun
    have hstep : ({ part := keptName schema } : NameScan).step '.' =
        { parts := [keptName schema] } := by
      simp [NameScan.step]
    rw [List.append_nil, List.nil_append] at hname
    rw [hschema, NameScan.run_cons, if_neg (by simp), List.nil_append, hstep, hname]
    rfl
  rw [normalizeObjectName, hscan, if_neg (by simp), normalizeIdentifier_kept, ok_bind,
    List.getLast?_singleton]
  dsimp only
  rw [normalizeIdentifier_kept]
  rfl

/-- Two quotes next to each other. -/
def HasAdjacentQuotes (name : Text) : Prop :=
  ['"', '"'] <:+: name

/-- A quoted name survives the normalisation where it has no two quotes next to each other; the
schema too, where it is read as a part of the name and not given apart from it. -/
theorem quoted_names_survive_iff (U : Uppercase) (name schema : Text) :
    ((normalizeObjectName U (quoteIdentifier name) (some (quoteIdentifier schema)) =
          .ok (some schema, name) ∧
        normalizeObjectName U (quoteIdentifier schema ++ '.' :: quoteIdentifier name) none =
          .ok (some schema, name)) ↔
      ¬ HasAdjacentQuotes name ∧ ¬ HasAdjacentQuotes schema) ∧
    (normalizeObjectName U (quoteIdentifier name) (some (quoteIdentifier schema)) =
        .ok (some schema, name) ↔ ¬ HasAdjacentQuotes name) := by
  rw [normalizeObjectName_schema, normalizeObjectName_qualified, HasAdjacentQuotes,
    HasAdjacentQuotes, ← undoubled_eq_iff, ← undoubled_eq_iff]
  simp only [Except.ok.injEq, Prod.mk.injEq, Option.some.injEq, true_and, and_true]
  exact ⟨fun h => ⟨h.1, h.2.1⟩, fun h => ⟨h.1, h.2, h.1⟩⟩

/-- Uppercase letters of ASCII only. -/
def asciiUppercase : Uppercase :=
  ⟨List.map Char.toUpper, fun _ _ => rfl⟩

/-- Of the name `a""b` one quote is left. -/
theorem adjacent_quotes_lost :
    ¬ ∀ (U : Uppercase) (name schema : Text), name ≠ [] → '\x00' ∉ name → schema ≠ [] →
      '\x00' ∉ schema →
      normalizeObjectName U (quoteIdentifier name) (some (quoteIdentifier schema)) =
          .ok (some schema, name) ∧
        normalizeObjectName U (quoteIdentifier schema ++ '.' :: quoteIdentifier name) none =
          .ok (some schema, name) := by
  intro h
  have hname := (h asciiUppercase "a\"\"b".toList "S".toList (by decide) (by decide) (by decide)
    (by decide)).1
  rw [normalizeObjectName_schema] at hname
  simp only [Except.ok.injEq, Prod.mk.injEq, true_and] at hname
  exact absurd hname (by decide)

/-! ## Reading an identifier path -/

namespace PathScan

theorem run_cons (st : PathScan) (c : Char) (cs : Text) :
    st.run (c :: cs) =
      if c = '"' ∧ st.quoted ∧ cs.head? = some '"' then (st.push ['"', '"']).run cs.tail
      else (st.step c).run cs := by
  cases cs with
  | nil => simp [run]
  | cons d ds => simp [run]

theorem push_push (st : PathScan) (t u : Text) : (st.push t).push u = st.push (t ++ u) := by
  simp [push]

/-- Inside quotes everything is kept. -/
theorem run_inside (st : PathScan) (hquoted : st.quoted = true) (name : Text) {rest : Text}
    (hrest : rest.head? ≠ some '"') :
    st.run (doubled name ++ '"' :: rest) =
      ({ rawParts := st.rawParts, current := st.current ++ (doubled name ++ ['"']),
         quoted := false } : PathScan).run rest := by
  induction name generalizing st with
  | nil =>
      rw [doubled, List.flatMap_nil, List.nil_append, run_cons, if_neg fun h => hrest h.2.2, step,
        if_pos rfl, hquoted]
      rfl
  | cons c cs ih =>
      rw [doubled_cons]
      split_ifs with hc
      · subst hc
        have htail := ih (st.push ['"', '"']) hquoted
        rw [push] at htail
        dsimp only at htail
        rw [List.append_assoc, ← List.append_assoc ['"', '"']] at htail
        rw [List.append_assoc, List.cons_append, List.singleton_append, run_cons,
          if_pos ⟨rfl, hquoted, rfl⟩]
        exact htail
      · have htail := ih (st.push [c]) hquoted
        rw [push] at htail
        dsimp only at htail
        rw [List.append_assoc, ← List.append_assoc [c]] at htail
        rw [List.append_assoc, List.singleton_append, run_cons, if_neg fun h => hc h.1, step,
          if_neg hc, if_neg (by simp [hquoted])]
        exact htail

theorem run_bare (st : PathScan) {name : Text} (h : ∀ c ∈ name, c ≠ '"' ∧ c ≠ '.') (rest : Text) :
    st.run (name ++ rest) = (st.push name).run rest := by
  induction name generalizing st with
  | nil => simp [push]
  | cons c cs ih =>
      obtain ⟨hquote, hpoint⟩ := h c List.mem_cons_self
      have hstep : st.step c = st.push [c] := by
        rw [step, if_neg hquote, if_neg fun h => hpoint h.1]
      rw [List.cons_append, run_cons, if_neg fun h => hquote h.1, hstep,
        ih _ fun d hd => h d (List.mem_cons_of_mem c hd), push_push, List.singleton_append]

theorem run_quoteIdentifier (st : PathScan) (hquoted : st.quoted = false) (name rest : Text)
    (hrest : rest.head? ≠ some '"') :
    st.run (quoteIdentifier name ++ rest) = (st.push (quoteIdentifier name)).run rest := by
  rw [quoteIdentifier_eq]
  split_ifs with hbare
  · apply run_bare
    intro c hc
    exact ⟨bare_ne hbare hc (by decide), bare_ne hbare hc (by decide)⟩
  · rw [enclosed, List.cons_append, run_cons, if_neg (by simp [hquoted]), step, if_pos rfl,
      List.append_assoc, List.singleton_append, run_inside _ (by simp [hquoted]) name hrest]
    congr 1
    simp [push, hquoted]

end PathScan

/-- Names joined by points. -/
def joinPoints : List Text → Text
  | [] => []
  | [name] => name
  | name :: names => name ++ '.' :: joinPoints names

theorem joinPoints_cons (name next : Text) (names : List Text) :
    joinPoints (name :: next :: names) = name ++ '.' :: joinPoints (next :: names) :=
  rfl

theorem run_path (name : Text) (names before : List Text) :
    PathScan.run { rawParts := before } (joinPoints ((name :: names).map quoteIdentifier)) =
      { rawParts := before ++ ((name :: names).map quoteIdentifier).dropLast,
        current := quoteIdentifier ((name :: names).getLast nofun) } := by
  induction names generalizing name before with
  | nil =>
      have hrun := PathScan.run_quoteIdentifier { rawParts := before } rfl name [] nofun
      rw [List.append_nil] at hrun
      simp only [List.map_cons, List.map_nil, joinPoints]
      rw [hrun]
      simp [PathScan.run, PathScan.push]
  | cons next names ih =>
      have hstep : (({ rawParts := before } : PathScan).push (quoteIdentifier name)).step '.' =
          { rawParts := before ++ [quoteIdentifier name] } := by
        simp [PathScan.step, PathScan.push]
      have htail := ih next (before ++ [quoteIdentifier name])
      rw [List.map_cons, List.map_cons, joinPoints_cons, ← List.map_cons,
        PathScan.run_quoteIdentifier _ rfl _ _ (by simp), PathScan.run_cons,
        if_neg (by simp), hstep, htail]
      simp

theorem identifierLoop_doubled (name : Text) : identifierLoop (doubled name) = .ok name := by
  induction name with
  | nil => rfl
  | cons c cs ih =>
      rw [doubled_cons]
      split_ifs with hc
      · rw [List.cons_append, List.singleton_append, identifierLoop, if_pos rfl,
          if_neg (not_not.mpr rfl), ih, hc]
        rfl
      · rw [List.singleton_append]
        cases hrest : doubled cs with
        | nil =>
            rw [hrest] at ih
            cases ih
            rw [identifierLoop, if_neg hc]
        | cons d ds =>
            rw [identifierLoop, if_neg hc, ← hrest, ih]
            rfl

/-- A quoted name is read as itself. -/
theorem parsePart_quoteIdentifier (name : Text) : parsePart (quoteIdentifier name) = .ok name := by
  rw [quoteIdentifier_eq]
  split_ifs with hbare
  · have hquote : name.contains '"' = false := by
      rw [Bool.eq_false_iff, ne_eq, List.contains_iff_mem]
      exact fun hmem => bare_ne hbare hmem (by decide) rfl
    rw [parsePart, trim_bare hbare, if_pos (head_bare hbare), hquote]
    rfl
  · have hlen : ¬ (byteLen (enclosed (doubled name)) < 2 ∨
        (enclosed (doubled name)).getLast? ≠ some '"') := by
      rw [byteLen_enclosed, getLast_enclosed, not_or, not_not]
      exact ⟨by omega, rfl⟩
    have hhead : ¬ (enclosed (doubled name)).head? ≠ some '"' := not_not.mpr rfl
    rw [parsePart, trim_enclosed, if_neg hhead, if_neg hlen, inside_enclosed]
    exact identifierLoop_doubled name

theorem mapM_parsePart (names : List Text) :
    (names.map quoteIdentifier).mapM parsePart = .ok names := by
  induction names with
  | nil => rfl
  | cons name names ih =>
      rw [List.map_cons, List.mapM_cons, parsePart_quoteIdentifier, ih]
      rfl

theorem any_isEmpty {names : List Text} : names.any List.isEmpty = true ↔ [] ∈ names := by
  simp [List.any_eq_true, List.isEmpty_iff]

theorem splitIdentifierPath_joined {names : List Text} (hsome : names ≠ [])
    (hthree : names.length ≤ 3) (hempty : [] ∉ names) :
    splitIdentifierPath (joinPoints (names.map quoteIdentifier)) = .ok names := by
  obtain ⟨name, others, rfl⟩ := List.exists_cons_of_ne_nil hsome
  have hrun := run_path name others []
  rw [List.nil_append] at hrun
  have hparts : ((name :: others).map quoteIdentifier).dropLast ++
      [quoteIdentifier ((name :: others).getLast nofun)] = (name :: others).map quoteIdentifier := by
    have hlast := List.getLast_map (f := quoteIdentifier) (l := name :: others) (by simp)
    rw [← hlast]
    exact List.dropLast_append_getLast (by simp)
  have hnone : (name :: others).any List.isEmpty = false := by
    rwa [Bool.eq_false_iff, ne_eq, any_isEmpty]
  have hbad : ¬ (3 < (name :: others).length ∨
      ((name :: others).any List.isEmpty && !hasOmittedSchema (name :: others)) = true) := by
    rw [not_or, hnone]
    exact ⟨by omega, Bool.false_ne_true⟩
  rw [splitIdentifierPath, hrun]
  dsimp only
  rw [if_neg nofun, hparts, mapM_parsePart, ok_bind, if_neg hbad]
  rfl

/-- What begins and ends with a quote can be cut inside them. -/
theorem inside_returns {text : Text} (hhead : text.head? = some '"')
    (hlast : text.getLast? = some '"') (hlen : 2 ≤ byteLen text) :
    ∃ inner, inside text = .ok inner := by
  cases text with
  | nil => cases hhead
  | cons c cs =>
      cases hhead
      obtain ⟨inner, rfl⟩ : ∃ inner, cs = inner ++ ['"'] := by
        cases cs using List.reverseRecOn with
        | nil =>
            have hone : byteLen ['"'] = 1 := rfl
            omega
        | append_singleton inner d =>
            rw [← List.cons_append, List.getLast?_concat] at hlast
            cases hlast
            exact ⟨inner, rfl⟩
      exact ⟨inner, inside_enclosed inner⟩

theorem identifierLoop_safe (text : Text) : Safe (identifierLoop text) fun _ => True := by
  fun_induction identifierLoop text with
  | case1 => trivial
  | case2 => trivial
  | case3 => trivial
  | case4 => trivial
  | case5 next chars hnext ih => exact ih.bind fun _ _ => trivial
  | case6 c next chars hc ih => exact ih.bind fun _ _ => trivial

theorem parsePart_safe (rawPart : Text) : Safe (parsePart rawPart) fun _ => True := by
  apply Safe.ite
  · intro _
    exact .guard fun _ => trivial
  · intro hhead
    apply Safe.guard
    intro hquotes
    rw [not_or, not_not] at hquotes
    obtain ⟨inner, hinner⟩ := inside_returns (not_not.mp hhead) hquotes.2 (by omega)
    rw [hinner]
    exact identifierLoop_safe inner

theorem mapM_safe {α β : Type} {f : α → Exec NzError β} (hf : ∀ a, Safe (f a) fun _ => True)
    (xs : List α) : Safe (xs.mapM f) fun _ => True := by
  induction xs with
  | nil => trivial
  | cons x xs ih =>
      rw [List.mapM_cons]
      exact (hf x).bind fun _ _ => ih.bind fun _ _ => trivial

/-- At most three parts, none of them empty but for a schema left out between two others. -/
def WellFormedPath (parts : List Text) : Prop :=
  parts.length ≤ 3 ∧
    ([] ∈ parts → ∃ database object, database ≠ [] ∧ object ≠ [] ∧ parts = [database, [], object])

theorem hasOmittedSchema_eq_true {parts : List Text} (h : hasOmittedSchema parts = true) :
    ∃ database object, database ≠ [] ∧ object ≠ [] ∧ parts = [database, [], object] := by
  unfold hasOmittedSchema at h
  split at h
  · next database middle object =>
      simp only [Bool.and_eq_true, decide_eq_true_eq] at h
      obtain ⟨⟨hdatabase, rfl⟩, hobject⟩ := h
      exact ⟨database, object, hdatabase, hobject, rfl⟩
  · cases h

theorem splitIdentifierPath_safe (value : Text) :
    Safe (splitIdentifierPath value) WellFormedPath := by
  apply Safe.guard
  intro _
  apply (mapM_safe parsePart_safe _).bind
  intro parts _
  apply Safe.guard
  intro hparts
  rw [not_or, Bool.and_eq_true, any_isEmpty, not_and, Bool.not_eq_true'] at hparts
  refine ⟨by omega, fun hempty => hasOmittedSchema_eq_true ?_⟩
  exact Bool.eq_true_of_not_eq_false (hparts.2 hempty)

/-- The path of one to three quoted names reads as these names; no text makes the split panic,
and what it accepts has at most three parts and no empty one but a schema that is left out. -/
theorem split_identifier_path_quoted :
    (∀ names : List Text, 1 ≤ names.length → names.length ≤ 3 →
      (∀ name ∈ names, name ≠ [] ∧ '\x00' ∉ name) →
      splitIdentifierPath (joinPoints (names.map quoteIdentifier)) = .ok names) ∧
    ∀ value, splitIdentifierPath value ≠ panics ∧
      ∀ parts, splitIdentifierPath value = .ok parts → WellFormedPath parts := by
  constructor
  · intro names hsome hthree hnames
    apply splitIdentifierPath_joined (List.length_pos_iff.mp hsome) hthree
    exact fun hempty => (hnames [] hempty).1 rfl
  · intro value
    have hsafe := splitIdentifierPath_safe value
    exact ⟨hsafe.no_panic, fun parts hparts => hsafe.value hparts⟩

end NzRust.Metadata
