import NzRust.Core.Digits
import NzRust.Row.Columns

/-!
# Column metadata

`ColumnDesc` names its own declared type, and `NzDataReader` resolves the same
column a second time with names of its own. Both read a declared length or a
precision off the type modifier; they name a column alike exactly where their
two tables spell its base type alike.
-/

namespace NzRust

/-- `TYPE_MOD_OFFSET`. -/
def typeModOffset : Int := 16

/-! ## The names of a column -/

namespace ColumnDesc

def typeName (c : ColumnDesc) : Text :=
  match c.typeOid with
  | 15 | 18 | 1042 => "CHAR".toList
  | 16 => "BOOL".toList
  | 17 => "BYTEA".toList
  | 19 => "NAME".toList
  | 20 => "BIGINT".toList
  | 21 => "SMALLINT".toList
  | 23 => "INTEGER".toList
  | 25 => "TEXT".toList
  | 26 => "OID".toList
  | 700 => "REAL".toList
  | 701 => "DOUBLE".toList
  | 702 => "ABSTIME".toList
  | 1043 => "VARCHAR".toList
  | 1082 => "DATE".toList
  | 1083 => "TIME".toList
  | 1114 => "TIMESTAMP".toList
  | 1184 => "TIMESTAMPTZ".toList
  | 1186 => "INTERVAL".toList
  | 1266 => "TIMETZ".toList
  | 1700 => "NUMERIC".toList
  | 2500 => "BYTEINT".toList
  | 2522 => "NCHAR".toList
  | 2530 => "NVARCHAR".toList
  | other => "OID(".toList ++ displayInt other ++ [')']

/-- The size in brackets behind a base name. -/
def sized (base : Text) (length : Int) : Text :=
  base ++ '(' :: displayInt length ++ [')']

def numericName (precision scale : Int) : Text :=
  "NUMERIC(".toList ++ displayInt precision ++ ',' :: displayInt scale ++ [')']

def declaredTypeName (c : ColumnDesc) : Text :=
  let base := c.typeName
  if c.typeMod ≤ typeModOffset then base
  else
    let normalized := c.typeMod - typeModOffset
    if c.typeOid = 1700 then
      let precision := normalized / 2 ^ 16
      let scale := normalized % 2 ^ 16
      if 0 < precision then numericName precision scale else base
    else if c.typeOid = 1042 ∨ c.typeOid = 1043 ∨ c.typeOid = 2522 ∨ c.typeOid = 2530 then
      sized base normalized
    else base

end ColumnDesc

/-! ## The metadata of the reader -/

inductive ColumnDataType where
  | bool
  | number
  | bigInt
  | date
  | object
  | string
  deriving DecidableEq, Repr

structure ColumnMetadata where
  index : Nat
  name : Text
  providerType : Int
  typeModifier : Int
  typeLength : Int
  typeName : Text
  declaredTypeName : Text
  declaredLength : Option Int
  numericPrecision : Int
  numericScale : Int
  dataType : ColumnDataType
  columnSize : Int
  isLong : Bool
  deriving DecidableEq, Repr

namespace Oid

def BOOL : Int := 16
def BYTEA : Int := 17
def CHAR : Int := 18
def NAME : Int := 19
def INT8 : Int := 20
def INT2 : Int := 21
def INT4 : Int := 23
def TEXT : Int := 25
def OID : Int := 26
def ABS_TIME : Int := 702
def BYTEINT : Int := 2500
def NCHAR : Int := 2522
def NVARCHAR : Int := 2530
def BPCHAR : Int := 1042
def VARCHAR : Int := 1043
def DATE : Int := 1082
def TIME : Int := 1083
def TIMESTAMP : Int := 1114
def TIMESTAMPTZ : Int := 1184
def INTERVAL : Int := 1186
def TIMETZ : Int := 1266
def NUMERIC : Int := 1700
def FLOAT4 : Int := 700
def FLOAT8 : Int := 701
def NZ_CHAR : Int := 15

/-- The names of `type_name_from_oid`. -/
def names : List (Int × Text) :=
  [(BOOL, "BOOL".toList), (BYTEA, "BYTEA".toList), (BYTEINT, "BYTEINT".toList),
    (CHAR, "CHAR".toList), (NAME, "NAME".toList), (INT8, "INT8".toList), (INT2, "INT2".toList),
    (INT4, "INT4".toList), (OID, "OID".toList), (TEXT, "TEXT".toList), (NCHAR, "NCHAR".toList),
    (BPCHAR, "CHAR".toList), (VARCHAR, "VARCHAR".toList), (NVARCHAR, "NVARCHAR".toList),
    (ABS_TIME, "ABSTIME".toList), (DATE, "DATE".toList), (TIME, "TIME".toList),
    (TIMESTAMP, "TIMESTAMP".toList), (TIMESTAMPTZ, "TIMESTAMPTZ".toList),
    (INTERVAL, "INTERVAL".toList), (TIMETZ, "TIMETZ".toList), (NUMERIC, "NUMERIC".toList),
    (FLOAT4, "FLOAT4".toList), (FLOAT8, "FLOAT8".toList), (NZ_CHAR, "CHAR".toList)]

end Oid

def typeNameFromOid (oid : Int) : Text :=
  match Oid.names.lookup oid with
  | some name => name
  | none => "UNKNOWN(".toList ++ displayInt oid ++ [')']

def isCharacterType (oid : Int) : Bool :=
  oid == Oid.NZ_CHAR || oid == Oid.CHAR || oid == Oid.NAME || oid == Oid.TEXT ||
    oid == Oid.BPCHAR || oid == Oid.VARCHAR || oid == Oid.NCHAR || oid == Oid.NVARCHAR

def numericPrecisionScale (typeMod : Int) : Int × Int :=
  if typeModOffset < typeMod then
    let normalized := typeMod - typeModOffset
    (normalized / 2 ^ 16, normalized % 2 ^ 16)
  else (0, 0)

def characterDeclaredLength (col : ColumnDesc) : Option Int :=
  if ¬ isCharacterType col.typeOid then none
  else if typeModOffset < col.typeMod then some (col.typeMod - typeModOffset)
  else none

def formatDeclaredTypeName (oid : Int) (typeName : Text) (declaredLength : Option Int)
    (precision scale : Int) : Text :=
  if oid = Oid.BPCHAR ∨ oid = Oid.VARCHAR ∨ oid = Oid.NCHAR ∨ oid = Oid.NVARCHAR then
    match declaredLength with
    | some len => ColumnDesc.sized typeName len
    | none => typeName
  else if oid = Oid.NUMERIC then
    if 0 < precision then ColumnDesc.numericName precision scale else typeName
  else typeName

/-- A declared length, or that nothing is known of it. -/
def orUnsized (typeLen : Int) : Int :=
  if 0 < typeLen then typeLen else -1

/-- The precision and the scale of a column, its data type and its size. -/
def resolveSize (col : ColumnDesc) : (Int × Int) × ColumnDataType × Int :=
  let oid := col.typeOid
  let declared := numericPrecisionScale col.typeMod
  if oid = Oid.BOOL then (declared, .bool, 1)
  else if oid = Oid.BYTEINT then (declared, .number, 1)
  else if oid = Oid.INT2 then (declared, .number, 2)
  else if oid = Oid.INT4 then (declared, .number, 4)
  else if oid = Oid.INT8 then (declared, .bigInt, 8)
  else if oid = Oid.OID then (declared, .number, if 0 < col.typeLen then col.typeLen else 4)
  else if oid = Oid.FLOAT4 ∨ oid = Oid.FLOAT8 then
    if oid = Oid.FLOAT8 then ((53, 0), .number, 8) else ((24, 0), .number, 4)
  else if oid = Oid.NUMERIC then
    let size :=
      if 0 < declared.1 then
        let base := declared.1 / 2 + 1
        if base < col.typeLen ∧ 0 < col.typeLen then col.typeLen else base
      else orUnsized col.typeLen
    (declared, .number, size)
  else if oid = Oid.DATE ∨ oid = Oid.ABS_TIME ∨ oid = Oid.TIMESTAMP ∨ oid = Oid.TIMESTAMPTZ ∨
      oid = Oid.TIME ∨ oid = Oid.TIMETZ then
    let size :=
      if 0 < col.typeLen then col.typeLen
      else if oid = Oid.ABS_TIME then 4
      else -1
    (declared, if oid = Oid.TIME ∨ oid = Oid.TIMETZ then .object else .date, size)
  else if isCharacterType oid then
    (declared, .string, (characterDeclaredLength col).getD (orUnsized col.typeLen))
  else (declared, .string, orUnsized col.typeLen)

def resolveColumnMetadata (col : ColumnDesc) (index : Nat) : ColumnMetadata :=
  let typeName := typeNameFromOid col.typeOid
  let declaredLength := characterDeclaredLength col
  let ((numericPrecision, numericScale), dataType, columnSize) := resolveSize col
  { index
    name := col.name
    providerType := col.typeOid
    typeModifier := col.typeMod
    typeLength := col.typeLen
    typeName
    declaredTypeName :=
      formatDeclaredTypeName col.typeOid typeName declaredLength numericPrecision numericScale
    declaredLength
    numericPrecision
    numericScale
    dataType
    columnSize
    isLong := decide (8000 < columnSize) }

/-! ## The two declared names -/

/-- The types whose declared names carry a size. -/
def IsSized (oid : Int) : Prop :=
  oid = Oid.BPCHAR ∨ oid = Oid.VARCHAR ∨ oid = Oid.NCHAR ∨ oid = Oid.NVARCHAR ∨ oid = Oid.NUMERIC

/-- The types that the two tables spell in two ways. -/
def respelled : List Int :=
  [Oid.INT8, Oid.INT2, Oid.INT4, Oid.FLOAT4, Oid.FLOAT8]

variable {c : ColumnDesc} {oid : Int}

theorem mem_of_lookup {α β : Type} [BEq α] [LawfulBEq α] {a : α} {b : β} {l : List (α × β)}
    (h : l.lookup a = some b) : (a, b) ∈ l := by
  obtain ⟨before, after, hsplit, -⟩ := List.lookup_eq_some_iff.mp h
  rw [hsplit]
  exact List.mem_append_right before List.mem_cons_self

/-- A type without a name in the reader's table has none in the other either. -/
theorem typeName_unknown (h : Oid.names.lookup c.typeOid = none) :
    c.typeName = "OID(".toList ++ displayInt c.typeOid ++ [')'] := by
  unfold ColumnDesc.typeName
  split
  all_goals first | rfl | (rename_i heq; rw [heq] at h; cases h)

/-- A column of a type, with nothing else to it. -/
def ofOid (oid : Int) : ColumnDesc where
  name := []
  typeOid := oid
  typeLen := 0
  typeMod := 0
  format := 0

theorem tables_spell : ∀ entry ∈ Oid.names,
    (entry.2 = (ofOid entry.1).typeName ↔ entry.1 ∉ respelled) := by
  decide

/-- The base names agree on the types that both tables know and spell alike. -/
theorem baseName_eq_iff :
    typeNameFromOid c.typeOid = c.typeName ↔
      (Oid.names.lookup c.typeOid).isSome = true ∧ c.typeOid ∉ respelled := by
  unfold typeNameFromOid
  cases hlookup : Oid.names.lookup c.typeOid with
  | none =>
      rw [typeName_unknown hlookup]
      refine iff_of_false (fun h => ?_) (fun h => ?_)
      · have hhead : some 'U' = some 'O' := congrArg List.head? h
        exact absurd hhead (by decide)
      · cases h.1
  | some name =>
      have hspell := tables_spell _ (mem_of_lookup hlookup)
      simp only [Option.isSome_some, true_and]
      exact hspell

theorem baseName_of_sized (h : IsSized c.typeOid) : typeNameFromOid c.typeOid = c.typeName := by
  rw [baseName_eq_iff]
  rcases h with h | h | h | h | h <;> rw [h] <;> decide

theorem declaredTypeName_of_not_sized (h : ¬ IsSized c.typeOid) :
    c.declaredTypeName = c.typeName := by
  simp only [IsSized, not_or] at h
  unfold ColumnDesc.declaredTypeName
  dsimp only
  rw [if_neg (show ¬ c.typeOid = 1700 from h.2.2.2.2),
    if_neg (show ¬ (c.typeOid = 1042 ∨ _) from fun hor => by
      rcases hor with hor | hor | hor | hor
      · exact h.1 hor
      · exact h.2.1 hor
      · exact h.2.2.1 hor
      · exact h.2.2.2.1 hor), ite_self]

theorem formatDeclaredTypeName_of_not_sized (h : ¬ IsSized oid) (typeName : Text)
    (declaredLength : Option Int) (precision scale : Int) :
    formatDeclaredTypeName oid typeName declaredLength precision scale = typeName := by
  simp only [IsSized, not_or] at h
  unfold formatDeclaredTypeName
  rw [if_neg (fun hor => by
      rcases hor with hor | hor | hor | hor
      · exact h.1 hor
      · exact h.2.1 hor
      · exact h.2.2.1 hor
      · exact h.2.2.2.1 hor), if_neg h.2.2.2.2]

theorem resolveSize_numeric (h : c.typeOid = Oid.NUMERIC) :
    (resolveSize c).1 = numericPrecisionScale c.typeMod := by
  unfold resolveSize
  rw [h]
  rfl

theorem characterDeclaredLength_of_character (h : isCharacterType c.typeOid = true) :
    characterDeclaredLength c =
      if typeModOffset < c.typeMod then some (c.typeMod - typeModOffset) else none := by
  unfold characterDeclaredLength
  rw [if_neg (not_not_intro h)]

/-- Over base names that agree, the sizes of the declared names do. -/
theorem declaredTypeName_of_sized (h : IsSized c.typeOid) (index : Nat) :
    (resolveColumnMetadata c index).declaredTypeName = c.declaredTypeName := by
  have hbase := baseName_of_sized h
  show formatDeclaredTypeName c.typeOid (typeNameFromOid c.typeOid) (characterDeclaredLength c)
    (resolveSize c).1.1 (resolveSize c).1.2 = _
  rw [hbase]
  unfold formatDeclaredTypeName ColumnDesc.declaredTypeName
  dsimp only
  by_cases hnumeric : c.typeOid = Oid.NUMERIC
  · rw [resolveSize_numeric hnumeric, numericPrecisionScale, if_pos hnumeric,
      if_pos (show c.typeOid = 1700 from hnumeric), if_neg (by rw [hnumeric]; decide)]
    by_cases hmod : c.typeMod ≤ typeModOffset
    · rw [if_pos hmod, if_neg (Int.not_lt.mpr hmod), if_neg (Int.lt_irrefl 0)]
    · rw [if_neg hmod, if_pos (Int.not_le.mp hmod)]
  · have hcharacter : c.typeOid = Oid.BPCHAR ∨ c.typeOid = Oid.VARCHAR ∨ c.typeOid = Oid.NCHAR ∨
        c.typeOid = Oid.NVARCHAR := by
      rcases h with h | h | h | h | h
      · exact .inl h
      · exact .inr (.inl h)
      · exact .inr (.inr (.inl h))
      · exact .inr (.inr (.inr h))
      · exact absurd h hnumeric
    have htype : isCharacterType c.typeOid = true := by
      rcases hcharacter with h | h | h | h <;> rw [h] <;> rfl
    rw [if_pos hcharacter, characterDeclaredLength_of_character htype,
      if_neg (show ¬ c.typeOid = 1700 from hnumeric),
      if_pos (show c.typeOid = 1042 ∨ c.typeOid = 1043 ∨ c.typeOid = 2522 ∨ c.typeOid = 2530 from
        hcharacter)]
    by_cases hmod : c.typeMod ≤ typeModOffset
    · rw [if_pos hmod, if_neg (Int.not_lt.mpr hmod)]
    · rw [if_neg hmod, if_pos (Int.not_le.mp hmod)]

/-- The declared name that the reader resolves is the one that the column gives itself, exactly for
the types that both tables know and spell alike. -/
theorem declaredTypeName_eq_iff (c : ColumnDesc) (index : Nat) :
    (resolveColumnMetadata c index).declaredTypeName = c.declaredTypeName ↔
      (Oid.names.lookup c.typeOid).isSome = true ∧ c.typeOid ∉ respelled := by
  rw [← baseName_eq_iff]
  by_cases hsized : IsSized c.typeOid
  · exact iff_of_true (declaredTypeName_of_sized hsized index) (baseName_of_sized hsized)
  · rw [declaredTypeName_of_not_sized hsized]
    show formatDeclaredTypeName c.typeOid _ _ _ _ = _ ↔ _
    rw [formatDeclaredTypeName_of_not_sized hsized]

/-! ## What the modifier declares -/

/-- The modifier of a `NUMERIC(precision, scale)`. -/
def numericTypeMod (precision scale : Nat) : Int :=
  (precision * 2 ^ 16 + scale : Nat) + typeModOffset

theorem numericTypeMod_sub (precision scale : Nat) :
    numericTypeMod precision scale - typeModOffset = (precision * 2 ^ 16 + scale : Nat) := by
  unfold numericTypeMod
  omega

/-- A declared precision and scale come back from the modifier, in the numbers and in both names. -/
theorem numeric_declared {precision scale : Nat} (hprecision : 0 < precision)
    (hscale : scale < 2 ^ 16) (hoid : c.typeOid = Oid.NUMERIC)
    (hmod : c.typeMod = numericTypeMod precision scale) (index : Nat) :
    let m := resolveColumnMetadata c index
    m.numericPrecision = precision ∧ m.numericScale = scale ∧
      m.declaredTypeName = ColumnDesc.numericName precision scale ∧
      c.declaredTypeName = ColumnDesc.numericName precision scale := by
  have hlarge : typeModOffset < c.typeMod := by
    rw [hmod, numericTypeMod]
    omega
  have hpair : numericPrecisionScale c.typeMod = ((precision : Int), (scale : Int)) := by
    rw [numericPrecisionScale, if_pos hlarge, hmod, numericTypeMod_sub]
    refine Prod.ext ?_ ?_
    · show ((precision * 2 ^ 16 + scale : Nat) : Int) / 2 ^ 16 = precision
      omega
    · show ((precision * 2 ^ 16 + scale : Nat) : Int) % 2 ^ 16 = scale
      omega
  have hsize : (resolveSize c).1 = ((precision : Int), (scale : Int)) :=
    (resolveSize_numeric hoid).trans hpair
  have hname : (resolveColumnMetadata c index).declaredTypeName =
      ColumnDesc.numericName precision scale := by
    show formatDeclaredTypeName c.typeOid _ _ (resolveSize c).1.1 (resolveSize c).1.2 = _
    rw [hsize, hoid]
    unfold formatDeclaredTypeName
    rw [if_neg (by decide), if_pos rfl, if_pos (Int.natCast_pos.mpr hprecision)]
  refine ⟨congrArg Prod.fst hsize, congrArg Prod.snd hsize, hname, ?_⟩
  rw [← declaredTypeName_of_sized (.inr (.inr (.inr (.inr hoid)))) index, hname]

end NzRust
