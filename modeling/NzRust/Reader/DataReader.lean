import NzRust.Reader.ColumnMetadata
import NzRust.Response.Message
import NzRust.Sql.Params

/-!
# The data reader

`NzDataReader` walks the rows of a buffered result by indices and keeps the
resolved metadata of the current set in a cache.
-/

namespace NzRust

structure SchemaRow where
  columnName : Text
  columnOrdinal : Int
  columnSize : Int
  numericPrecision : Int
  numericScale : Int
  dataType : ColumnDataType
  providerType : Int
  allowDbNull : Bool
  isReadOnly : Bool
  isLong : Bool
  deriving DecidableEq, Repr

structure SchemaTable where
  rows : List SchemaRow
  columnsCount : Nat
  deriving DecidableEq, Repr

/-! ## Columns and rows -/

/-- `NzDataReader::column` over the columns of the set. -/
def columnAt (columns : List ColumnDesc) (i : Nat) : NzResult ColumnDesc :=
  match columns[i]? with
  | some c => .ok c
  | none => .error (.config s!"Column ordinal {i} is out of range")

def ordinalOf (columns : List ColumnDesc) (name : Text) : NzResult Nat :=
  match columns.findIdx? fun c => Sql.eqIgnoreAsciiCase c.name name with
  | some i => .ok i
  | none => .error (.config s!"Column '{String.ofList name}' not found")

/-- A text result says nothing about nulls. -/
def allowsNull (nullability : Option (List Bool)) (i : Nat) : Bool :=
  (nullability.bind (·[i]?)).getD true

/-- A row of the schema table. -/
def schemaRow (m : ColumnMetadata) (i : Nat) (allowDbNull : Bool) : SchemaRow where
  columnName := m.name
  columnOrdinal := ByteString.signed 32 ((i + 1) % 2 ^ 32)
  columnSize := m.columnSize
  numericPrecision := m.numericPrecision
  numericScale := m.numericScale
  dataType := m.dataType
  providerType := m.providerType
  allowDbNull
  isReadOnly := true
  isLong := m.isLong

namespace Row

variable {V : Type}

def tryGetValue (row : Row V) (i : Nat) : NzResult V :=
  if i < row.columns.length then
    match row.values[i]? with
    | some v => .ok v
    | none => .error (.config "row values do not match columns")
  else .error (.config s!"row index out of range: ordinal {i}")

def asMap (row : Row V) : List (Text × V) :=
  (row.columns.zip row.values).map fun cell => (cell.1.name, cell.2)

end Row

def orNoRow {V : Type} : Option (Row V) → NzResult (Row V)
  | some row => .ok row
  | none => .error (.config "No current row. Did you call read()?")

structure NzDataReader (V : Type) where
  result : QueryResult V
  setIdx : Nat := 0
  rowIdx : Option Nat := none
  resultComplete : Bool := false
  closed : Bool := false
  metadataCache : Option (Nat × List ColumnMetadata) := none

namespace NzDataReader

variable {V : Type}

/-- A statement without a result set still makes one. -/
def fromResult (result : QueryResult V) : NzDataReader V where
  result :=
    if result.resultSets.isEmpty then { result with resultSets := [⟨[], [], none⟩] } else result

def currentSet (r : NzDataReader V) : Option (ResultSet V) :=
  r.result.resultSets[r.setIdx]?

def columns (r : NzDataReader V) : List ColumnDesc :=
  (r.currentSet.map (·.columns)).getD []

def nullability (r : NzDataReader V) : Option (List Bool) :=
  r.currentSet.bind (·.nullability)

def hasRows (r : NzDataReader V) : Bool :=
  (r.currentSet.map fun set => !set.rows.isEmpty).getD false

def currentRow (r : NzDataReader V) : Option (Row V) := do
  let set ← r.currentSet
  let i ← r.rowIdx
  set.rows[i]?

def requireRow (r : NzDataReader V) : NzResult (Row V) :=
  orNoRow r.currentRow

/-! ## Walking -/

/-- The row that `read` goes to. -/
def nextRow (r : NzDataReader V) : Nat :=
  match r.rowIdx with
  | none => 0
  | some i => i + 1

def read (r : NzDataReader V) : NzResult Bool × NzDataReader V :=
  if r.closed || r.resultComplete then (.ok false, r)
  else
    match r.currentSet with
    | none => (.ok false, r)
    | some set =>
        if r.nextRow < set.rows.length then (.ok true, { r with rowIdx := some r.nextRow })
        else (.ok false, { r with rowIdx := none, resultComplete := true })

def nextResult (r : NzDataReader V) : NzResult Bool × NzDataReader V :=
  if r.closed then (.ok false, r)
  else if r.result.resultSets.length ≤ r.setIdx + 1 then (.ok false, r)
  else
    (.ok true, { r with
      setIdx := r.setIdx + 1
      rowIdx := none
      resultComplete := false
      metadataCache := none })

def close (r : NzDataReader V) : NzDataReader V :=
  { r with closed := true }

/-- `Iterator::next`. -/
def next (r : NzDataReader V) : Option (NzResult (Row V)) × NzDataReader V :=
  match r.read with
  | (.ok true, r) => (r.currentRow.map .ok, r)
  | (.ok false, r) => (none, r)
  | (.error e, r) => (some (.error e), r)

/-- The rows of the current set that have not been read. -/
def rowsLeft (r : NzDataReader V) : Nat :=
  ((r.currentSet.map (·.rows.length)).getD 0) - r.nextRow

theorem read_rowsLeft {r r' : NzDataReader V} (h : r.read = (.ok true, r')) :
    r'.result = r.result ∧ r'.setIdx = r.setIdx ∧ r'.rowsLeft < r.rowsLeft := by
  unfold read at h
  split at h
  · cases h
  split at h
  · cases h
  next set hset =>
    split at h
    next hlt =>
      cases h
      refine ⟨rfl, rfl, ?_⟩
      have hset' : { r with rowIdx := some r.nextRow }.currentSet = some set := hset
      rw [rowsLeft, rowsLeft, hset', hset]
      show set.rows.length - (r.nextRow + 1) < set.rows.length - r.nextRow
      omega
    · cases h

theorem read_false {r r' : NzDataReader V} (h : r.read = (.ok false, r')) :
    r'.result = r.result ∧ r'.setIdx = r.setIdx := by
  unfold read at h
  split at h
  · cases h
    exact ⟨rfl, rfl⟩
  split at h
  · cases h
    exact ⟨rfl, rfl⟩
  · split at h
    · cases h
    · cases h
      exact ⟨rfl, rfl⟩

theorem nextResult_true {r r' : NzDataReader V} (h : r.nextResult = (.ok true, r')) :
    r.setIdx + 1 < r.result.resultSets.length ∧ r'.result = r.result ∧
      r'.setIdx = r.setIdx + 1 := by
  unfold nextResult at h
  split at h
  · cases h
  split at h
  · cases h
  next hlt =>
    cases h
    exact ⟨Nat.not_le.mp hlt, rfl, rfl⟩

/-- The loops of `drain_rows`. -/
def drainLoop (r : NzDataReader V) (out : List (Row V)) :
    NzResult (List (Row V)) × NzDataReader V :=
  match _hread : r.read with
  | (.error e, r') => (.error e, r')
  | (.ok true, r') =>
      match r'.requireRow with
      | .error e => (.error e, r')
      | .ok row => drainLoop r' (out ++ [row])
  | (.ok false, r') =>
      match _hnext : r'.nextResult with
      | (.error e, r'') => (.error e, r'')
      | (.ok true, r'') => drainLoop r'' out
      | (.ok false, r'') => (.ok out, r'')
termination_by (r.result.resultSets.length - r.setIdx, r.rowsLeft)
decreasing_by
  · obtain ⟨hresult, hset, hleft⟩ := read_rowsLeft _hread
    rw [hresult, hset]
    exact .right _ hleft
  · obtain ⟨hresult, hset⟩ := read_false _hread
    obtain ⟨hlt, hresult', hset'⟩ := nextResult_true _hnext
    rw [hresult', hset', hset, hresult]
    rw [hset, hresult] at hlt
    exact .left _ _ (by omega)

def drainRows (r : NzDataReader V) : NzResult (List (Row V)) × NzDataReader V :=
  r.drainLoop []

/-! ## Metadata -/

/-- The fast path of `get_column_metadata`. -/
def cachedMetadata (r : NzDataReader V) (i : Nat) : Option ColumnMetadata :=
  match r.metadataCache with
  | some (set, built) => if set = r.setIdx then built[i]? else none
  | none => none

def getColumnMetadata (r : NzDataReader V) (i : Nat) :
    NzResult ColumnMetadata × NzDataReader V :=
  match r.cachedMetadata i with
  | some m => (.ok m, r)
  | none =>
      match columnAt r.columns i with
      | .error e => (.error e, r)
      | .ok col =>
          let first := resolveColumnMetadata col i
          let built := r.columns.mapIdx fun index column =>
            if index = i then first else resolveColumnMetadata column index
          (.ok first, { r with metadataCache := some (r.setIdx, built) })

/-- The rows of the schema table for `count` columns from `i` on. -/
def schemaLoop : (count i : Nat) → NzDataReader V → NzResult (List SchemaRow) × NzDataReader V
  | 0, _, r => (.ok [], r)
  | count + 1, i, r =>
      match r.getColumnMetadata i with
      | (.error e, r) => (.error e, r)
      | (.ok m, r) =>
          let row := schemaRow m i (allowsNull r.nullability i)
          match schemaLoop count (i + 1) r with
          | (.error e, r) => (.error e, r)
          | (.ok rows, r) => (.ok (row :: rows), r)

def getSchemaTable (r : NzDataReader V) : NzResult SchemaTable × NzDataReader V :=
  match schemaLoop r.columns.length 0 r with
  | (.error e, r') => (.error e, r')
  | (.ok rows, r') => (.ok ⟨rows, r.columns.length⟩, r')

/-! ## Values -/

def value (r : NzDataReader V) (i : Nat) : NzResult V := do
  (← r.requireRow).tryGetValue i

def getValueByName (r : NzDataReader V) (name : Text) : NzResult V := do
  r.value (← ordinalOf r.columns name)

def getRowMap (r : NzDataReader V) : NzResult (List (Text × V)) := do
  return (← r.requireRow).asMap

end NzDataReader

end NzRust
