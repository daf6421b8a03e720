import NzRust.Lib.Object
import NzRust.Reader.DataReader

/-!
# The reader as a cursor

A forward cursor over the result sets: the current row, the rows behind it and
the sets behind its own. The reader answers every sequence of calls as the
cursor does, which has no indices, resolves metadata anew each time and drains
by taking all that is left. So the rows that a reader hands out are rows of the
result in their order and none of them twice, and none is left out but by moving
to the next result or by closing.
-/

namespace NzRust

open Object

/-! ## Calls -/

inductive ReaderCall where
  | read
  | next
  | nextResult
  | close
  | drainRows
  | hasRows
  | isClosed
  | getName (i : Nat)
  | getOrdinal (name : Text)
  | getFormat (i : Nat)
  | getColumnAllowsNull (i : Nat)
  | getColumnMetadata (i : Nat)
  | getSchemaTable
  | getValue (i : Nat)
  | getValueByName (name : Text)
  | getRowMap
  deriving DecidableEq, Repr

inductive ReaderReply (V : Type) where
  | moved (result : NzResult Bool)
  | item (row : Option (NzResult (Row V)))
  | done
  | rows (result : NzResult (List (Row V)))
  | flag (value : Bool)
  | name (result : NzResult Text)
  | ordinal (result : NzResult Nat)
  | format (result : NzResult UInt8)
  | metadata (result : NzResult ColumnMetadata)
  | schema (result : NzResult SchemaTable)
  | value (result : NzResult V)
  | rowMap (result : NzResult (List (Text × V)))

variable {V : Type}

def NzDataReader.call (r : NzDataReader V) : ReaderCall → ReaderReply V × NzDataReader V
  | .read => (.moved r.read.1, r.read.2)
  | .next => (.item r.next.1, r.next.2)
  | .nextResult => (.moved r.nextResult.1, r.nextResult.2)
  | .close => (.done, r.close)
  | .drainRows => (.rows r.drainRows.1, r.drainRows.2)
  | .hasRows => (.flag r.hasRows, r)
  | .isClosed => (.flag r.closed, r)
  | .getName i => (.name ((columnAt r.columns i).map (·.name)), r)
  | .getOrdinal name => (.ordinal (ordinalOf r.columns name), r)
  | .getFormat i => (.format ((columnAt r.columns i).map (·.format)), r)
  | .getColumnAllowsNull i => (.flag (allowsNull r.nullability i), r)
  | .getColumnMetadata i => (.metadata (r.getColumnMetadata i).1, (r.getColumnMetadata i).2)
  | .getSchemaTable => (.schema r.getSchemaTable.1, r.getSchemaTable.2)
  | .getValue i => (.value (r.value i), r)
  | .getValueByName name => (.value (r.getValueByName name), r)
  | .getRowMap => (.rowMap r.getRowMap, r)

/-- The reader, with the current row beside each answer. -/
def NzDataReader.machine : Machine (NzDataReader V) ReaderCall (ReaderReply V × Option (Row V)) where
  call r c := (((r.call c).1, (r.call c).2.currentRow), (r.call c).2)

/-! ## The cursor -/

structure Cursor (V : Type) where
  set : ResultSet V
  current : Option (Row V) := none
  behind : List (Row V)
  later : List (ResultSet V)
  closed : Bool := false

namespace Cursor

/-- All rows that a cursor can still come to. -/
def pending (c : Cursor V) : List (Row V) :=
  if c.closed then [] else c.behind ++ c.later.flatMap (·.rows)

def read (c : Cursor V) : Bool × Cursor V :=
  if c.closed then (false, c)
  else
    match c.behind with
    | row :: rows => (true, { c with current := some row, behind := rows })
    | [] => (false, { c with current := none })

def nextResult (c : Cursor V) : Bool × Cursor V :=
  if c.closed then (false, c)
  else
    match c.later with
    | set :: sets => (true, { c with set, current := none, behind := set.rows, later := sets })
    | [] => (false, c)

/-- Behind a drain the cursor stands at the end of the last set. -/
def drained (c : Cursor V) : Cursor V :=
  if c.closed then c
  else { c with set := c.later.getLastD c.set, current := none, behind := [], later := [] }

def schema (set : ResultSet V) : SchemaTable where
  rows := set.columns.mapIdx fun i col =>
    schemaRow (resolveColumnMetadata col i) i (allowsNull set.nullability i)
  columnsCount := set.columns.length

def value (c : Cursor V) (i : Nat) : NzResult V := do
  (← orNoRow c.current).tryGetValue i

def call (c : Cursor V) : ReaderCall → ReaderReply V × Cursor V
  | .read => (.moved (.ok c.read.1), c.read.2)
  | .next => (.item (if c.read.1 then c.read.2.current.map .ok else none), c.read.2)
  | .nextResult => (.moved (.ok c.nextResult.1), c.nextResult.2)
  | .close => (.done, { c with closed := true })
  | .drainRows => (.rows (.ok c.pending), c.drained)
  | .hasRows => (.flag (!c.set.rows.isEmpty), c)
  | .isClosed => (.flag c.closed, c)
  | .getName i => (.name ((columnAt c.set.columns i).map (·.name)), c)
  | .getOrdinal name => (.ordinal (ordinalOf c.set.columns name), c)
  | .getFormat i => (.format ((columnAt c.set.columns i).map (·.format)), c)
  | .getColumnAllowsNull i => (.flag (allowsNull c.set.nullability i), c)
  | .getColumnMetadata i =>
      (.metadata ((columnAt c.set.columns i).map (resolveColumnMetadata · i)), c)
  | .getSchemaTable => (.schema (.ok (schema c.set)), c)
  | .getValue i => (.value (c.value i), c)
  | .getValueByName name => (.value (do c.value (← ordinalOf c.set.columns name)), c)
  | .getRowMap => (.rowMap (do return (← orNoRow c.current).asMap), c)

def machine : Machine (Cursor V) ReaderCall (ReaderReply V × Option (Row V)) where
  call c k := (((c.call k).1, (c.call k).2.current), (c.call k).2)

/-- A cursor in front of the first row of a result. -/
def start (sets : List (ResultSet V)) : Cursor V :=
  match sets with
  | [] => { set := ⟨[], [], none⟩, behind := [], later := [] }
  | set :: sets => { set, behind := set.rows, later := sets }

/-- The calls that pass rows over. -/
def Passes : ReaderCall → Prop
  | .nextResult | .close => True
  | _ => False

/-! ## What a cursor hands out -/

variable {c : Cursor V}

theorem read_closed (h : c.closed = true) : c.read = (false, c) := by
  rw [read, if_pos h]

theorem read_nil (hopen : c.closed = false) (h : c.behind = []) :
    c.read = (false, { c with current := none }) := by
  rw [read, hopen, if_neg nofun, h]

theorem read_cons (hopen : c.closed = false) {row : Row V} {rows : List (Row V)}
    (h : c.behind = row :: rows) :
    c.read = (true, { c with current := some row, behind := rows }) := by
  rw [read, hopen, if_neg nofun, h]

/-- A read that moves takes the first pending row. -/
theorem read_true (h : c.read.1 = true) :
    ∃ row, c.read.2.current = some row ∧ c.pending = row :: c.read.2.pending ∧
      c.drained = c.read.2.drained := by
  obtain ⟨set, current, behind, later, closed⟩ := c
  cases closed with
  | true => cases h
  | false =>
      cases behind with
      | nil => cases h
      | cons row rows => exact ⟨row, rfl, rfl, rfl⟩

/-- The next result of a cursor whose set is read holds all that is pending. -/
theorem nextResult_true (h : c.read.1 = false) (hnext : c.read.2.nextResult.1 = true) :
    c.pending = c.read.2.nextResult.2.pending ∧ c.drained = c.read.2.nextResult.2.drained := by
  obtain ⟨set, current, behind, later, closed⟩ := c
  cases closed with
  | true => cases hnext
  | false =>
      cases behind with
      | cons row rows => cases h
      | nil =>
          cases later with
          | nil => cases hnext
          | cons set' sets =>
              refine ⟨rfl, ?_⟩
              show Cursor.mk ((set' :: sets).getLastD set) none [] [] false =
                Cursor.mk (sets.getLastD set') none [] [] false
              rw [List.getLastD_cons]

/-- Without one nothing is pending. -/
theorem nextResult_false (h : c.read.1 = false) (hnext : c.read.2.nextResult.1 = false) :
    c.pending = [] ∧ c.drained = c.read.2.nextResult.2 := by
  obtain ⟨set, current, behind, later, closed⟩ := c
  cases closed with
  | true => exact ⟨rfl, rfl⟩
  | false =>
      cases behind with
      | cons row rows => cases h
      | nil =>
          cases later with
          | nil => exact ⟨rfl, rfl⟩
          | cons set' sets => cases hnext

end Cursor

/-- The rows that a caller gets with an answer. -/
def handedOut : ReaderReply V × Option (Row V) → List (Row V)
  | (.moved (.ok true), row) => row.toList
  | (.item (some (.ok row)), _) => [row]
  | (.rows (.ok rows), _) => rows
  | _ => []

namespace Cursor

theorem read_handed (c : Cursor V) :
    (if c.read.1 then c.read.2.current.toList else []) ++ c.read.2.pending = c.pending := by
  cases hclosed : c.closed with
  | true =>
      rw [read_closed hclosed]
      rfl
  | false =>
      cases hbehind : c.behind with
      | nil =>
          rw [read_nil hclosed hbehind]
          simp [pending]
      | cons row rows =>
          rw [read_cons hclosed hbehind]
          simp [pending, hclosed, hbehind]

theorem pending_drained (c : Cursor V) : c.drained.pending = [] := by
  unfold drained pending
  cases hclosed : c.closed with
  | true => simp [hclosed]
  | false => simp

/-- A call that passes nothing over takes a front of what is pending. -/
theorem call_handed (c : Cursor V) (k : ReaderCall) (hk : ¬ Passes k) :
    handedOut (machine.call c k).1 ++ (machine.call c k).2.pending = c.pending := by
  have hread := c.read_handed
  cases k with
  | nextResult => exact absurd trivial hk
  | close => exact absurd trivial hk
  | read =>
      refine Eq.trans ?_ hread
      show handedOut (.moved (.ok c.read.1), c.read.2.current) ++ c.read.2.pending = _
      cases c.read.1 <;> rfl
  | next =>
      refine Eq.trans ?_ hread
      show handedOut (.item (if c.read.1 then c.read.2.current.map .ok else none), _) ++
        c.read.2.pending = _
      cases c.read.1 with
      | false => rfl
      | true =>
          cases c.read.2.current with
          | none => rfl
          | some row => rfl
  | drainRows =>
      show c.pending ++ c.drained.pending = c.pending
      rw [pending_drained, List.append_nil]
  | _ => rfl

/-- What a call hands out and leaves pending was pending. -/
theorem call_sublist (c : Cursor V) (k : ReaderCall) :
    (handedOut (machine.call c k).1 ++ (machine.call c k).2.pending).Sublist c.pending := by
  by_cases hk : Passes k
  case neg => rw [call_handed c k hk]
  cases k with
  | close => exact List.nil_sublist _
  | nextResult =>
      show (handedOut (.moved (.ok c.nextResult.1), c.nextResult.2.current) ++
        c.nextResult.2.pending).Sublist c.pending
      unfold nextResult
      cases hclosed : c.closed with
      | true => exact List.Sublist.refl _
      | false =>
          cases hlater : c.later with
          | nil => exact List.Sublist.refl _
          | cons set sets =>
              have hpending : c.pending = c.behind ++ (set.rows ++ sets.flatMap (·.rows)) := by
                rw [pending, hclosed, hlater]
                rfl
              rw [hpending]
              show (set.rows ++ _ : List (Row V)).Sublist _
              exact List.sublist_append_right _ _
  | _ => cases hk

end Cursor

/-! ## The reader shows a cursor -/

/-- The reader stands where the cursor does, and its cache is right. -/
structure NzDataReader.Shows (r : NzDataReader V) (c : Cursor V) : Prop where
  set : r.currentSet = some c.set
  later : c.later = r.result.resultSets.drop (r.setIdx + 1)
  closed : c.closed = r.closed
  current : c.current = r.currentRow
  behind : c.behind = if r.resultComplete then [] else c.set.rows.drop r.nextRow
  ended : r.resultComplete = true → r.rowIdx = none
  cache : ∀ k built, r.metadataCache = some (k, built) → k = r.setIdx →
    built = c.set.columns.mapIdx fun i col => resolveColumnMetadata col i

namespace NzDataReader

variable {r : NzDataReader V} {c : Cursor V}

theorem currentRow_none (h : r.rowIdx = none) : r.currentRow = none := by
  unfold currentRow
  rw [h]
  cases r.currentSet <;> rfl

theorem Shows.read (h : r.Shows c) : r.read.1 = .ok c.read.1 ∧ r.read.2.Shows c.read.2 := by
  unfold NzDataReader.read
  cases hclosed : r.closed with
  | true =>
      rw [Cursor.read_closed (h.closed.trans hclosed)]
      exact ⟨rfl, h⟩
  | false =>
      have hopen := h.closed.trans hclosed
      cases hcomplete : r.resultComplete with
      | true =>
          have hbehind : c.behind = [] := by
            rw [h.behind, hcomplete, if_pos rfl]
          have hnone := currentRow_none (h.ended hcomplete)
          rw [Cursor.read_nil hopen hbehind]
          refine ⟨rfl, { h with current := hnone.symm }⟩
      | false =>
          have hbehind : c.behind = c.set.rows.drop r.nextRow := by
            rw [h.behind, hcomplete, if_neg nofun]
          rw [h.set, if_neg (show ¬ (false || false) = true from nofun)]
          dsimp only
          split
          next hlt =>
            rw [List.drop_eq_getElem_cons hlt] at hbehind
            rw [Cursor.read_cons hopen hbehind]
            refine ⟨rfl, h.set, h.later, hopen, ?_, rfl, nofun, h.cache⟩
            show some c.set.rows[r.nextRow] = (do
              let set ← r.currentSet
              set.rows[r.nextRow]?)
            rw [h.set]
            exact (List.getElem?_eq_getElem hlt).symm
          next hge =>
            rw [List.drop_eq_nil_of_le (Nat.not_lt.mp hge)] at hbehind
            rw [Cursor.read_nil hopen hbehind]
            exact ⟨rfl, h.set, h.later, hopen, (currentRow_none rfl).symm, hbehind, fun _ => rfl,
              h.cache⟩

theorem Shows.nextResult (h : r.Shows c) :
    r.nextResult.1 = .ok c.nextResult.1 ∧ r.nextResult.2.Shows c.nextResult.2 := by
  unfold NzDataReader.nextResult Cursor.nextResult
  rw [h.closed]
  cases hclosed : r.closed with
  | true => exact ⟨rfl, h⟩
  | false =>
      simp only [Bool.false_eq_true, if_false]
      cases hlater : c.later with
      | nil =>
          rw [h.later, List.drop_eq_nil_iff] at hlater
          rw [if_pos hlater]
          exact ⟨rfl, h⟩
      | cons set sets =>
          rw [h.later] at hlater
          have hlt : r.setIdx + 1 < r.result.resultSets.length := by
            by_contra hge
            rw [List.drop_eq_nil_of_le (Nat.not_lt.mp hge)] at hlater
            cases hlater
          rw [List.drop_eq_getElem_cons hlt] at hlater
          obtain ⟨hset, hsets⟩ := List.cons.inj hlater
          rw [if_neg (Nat.not_le.mpr hlt)]
          refine ⟨rfl, ?_, hsets.symm, rfl, (currentRow_none rfl).symm, rfl, nofun, nofun⟩
          show r.result.resultSets[r.setIdx + 1]? = some set
          rw [List.getElem?_eq_getElem hlt, hset]

/-- The loops of a drain collect all that is pending. -/
theorem Shows.drainLoop (h : r.Shows c) (out : List (Row V)) :
    (r.drainLoop out).1 = .ok (out ++ c.pending) ∧ (r.drainLoop out).2.Shows c.drained := by
  fun_induction NzDataReader.drainLoop r out generalizing c with
  | case1 r out e r' hread =>
      have hmoved := h.read.1
      rw [hread] at hmoved
      cases hmoved
  | case2 r out r' hread e hrow =>
      obtain ⟨hmoved, hshows⟩ := h.read
      rw [hread] at hmoved hshows
      obtain ⟨row, hcurrent, -⟩ := Cursor.read_true (Except.ok.inj hmoved).symm
      rw [requireRow, ← hshows.current, hcurrent] at hrow
      cases hrow
  | case3 r out r' hread row hrow ih =>
      obtain ⟨hmoved, hshows⟩ := h.read
      rw [hread] at hmoved hshows
      obtain ⟨row', hcurrent, hpending, hdrained⟩ := Cursor.read_true (Except.ok.inj hmoved).symm
      rw [requireRow, ← hshows.current, hcurrent] at hrow
      cases hrow
      obtain ⟨hrows, hends⟩ := ih hshows
      rw [List.append_assoc] at hrows
      rw [hpending, hdrained]
      exact ⟨hrows, hends⟩
  | case4 r out r' hread e r'' hnext =>
      have hmoved := h.read.2.nextResult.1
      rw [hread, hnext] at hmoved
      cases hmoved
  | case5 r out r' hread r'' hnext ih =>
      obtain ⟨hmoved, hread'⟩ := h.read
      obtain ⟨hstepped, hshows⟩ := hread'.nextResult
      rw [hread] at hmoved hstepped hshows
      rw [hnext] at hstepped hshows
      obtain ⟨hpending, hdrained⟩ := Cursor.nextResult_true (Except.ok.inj hmoved).symm
        (Except.ok.inj hstepped).symm
      rw [hpending, hdrained]
      exact ih hshows
  | case6 r out r' hread r'' hnext =>
      obtain ⟨hmoved, hread'⟩ := h.read
      obtain ⟨hstepped, hshows⟩ := hread'.nextResult
      rw [hread] at hmoved hstepped hshows
      rw [hnext] at hstepped hshows
      obtain ⟨hpending, hdrained⟩ := Cursor.nextResult_false (Except.ok.inj hmoved).symm
        (Except.ok.inj hstepped).symm
      rw [hpending, hdrained, List.append_nil]
      exact ⟨rfl, hshows⟩

/-! ### Metadata -/

theorem Shows.columns (h : r.Shows c) : r.columns = c.set.columns := by
  rw [NzDataReader.columns, h.set]
  rfl

theorem Shows.nullability (h : r.Shows c) : r.nullability = c.set.nullability := by
  rw [NzDataReader.nullability, h.set]
  rfl

theorem columnAt_ok {columns : List ColumnDesc} {i : Nat} {col : ColumnDesc}
    (h : columnAt columns i = .ok col) : columns[i]? = some col := by
  unfold columnAt at h
  split at h
  next c hc =>
    cases h
    exact hc
  · cases h

theorem Shows.cached (h : r.Shows c) {i : Nat} {m : ColumnMetadata}
    (hcached : r.cachedMetadata i = some m) :
    (columnAt c.set.columns i).map (resolveColumnMetadata · i) = .ok m := by
  unfold cachedMetadata at hcached
  split at hcached
  next k built hcache =>
    split at hcached
    next hk =>
      rw [h.cache k built hcache hk, List.getElem?_mapIdx, Option.map_eq_some_iff] at hcached
      obtain ⟨col, hcol, rfl⟩ := hcached
      rw [columnAt, hcol]
      rfl
    · cases hcached
  · cases hcached

/-- Cached or not, a column has the metadata that it resolves to. -/
theorem Shows.getColumnMetadata (h : r.Shows c) (i : Nat) :
    (r.getColumnMetadata i).1 = (columnAt c.set.columns i).map (resolveColumnMetadata · i) ∧
      (r.getColumnMetadata i).2.Shows c := by
  unfold NzDataReader.getColumnMetadata
  cases hcached : r.cachedMetadata i with
  | some m => exact ⟨(h.cached hcached).symm, h⟩
  | none =>
      dsimp only
      rw [h.columns]
      cases hcol : columnAt c.set.columns i with
      | error e => exact ⟨rfl, h⟩
      | ok col =>
          refine ⟨rfl, { h with cache := fun k built hbuilt _ => ?_ }⟩
          cases hbuilt
          refine List.mapIdx_eq_mapIdx_iff.mpr fun index hindex => ?_
          split
          next heq =>
            subst heq
            have hat := columnAt_ok hcol
            rw [List.getElem?_eq_getElem hindex] at hat
            rw [Option.some.inj hat]
          · rfl

theorem Shows.schemaLoop (h : r.Shows c) {count i : Nat} (hi : i + count = c.set.columns.length) :
    (schemaLoop count i r).1 = .ok ((Cursor.schema c.set).rows.drop i) ∧
      (schemaLoop count i r).2.Shows c := by
  induction count generalizing r i with
  | zero =>
      refine ⟨?_, h⟩
      rw [List.drop_eq_nil_of_le]
      · rfl
      · rw [Cursor.schema, List.length_mapIdx]
        omega
  | succ count ih =>
      have hlt : i < c.set.columns.length := by omega
      obtain ⟨hmetadata, hshows⟩ := h.getColumnMetadata i
      rw [columnAt, List.getElem?_eq_getElem hlt] at hmetadata
      unfold NzDataReader.schemaLoop
      generalize r.getColumnMetadata i = out at hmetadata hshows
      obtain ⟨result, r'⟩ := out
      cases hmetadata
      obtain ⟨hrows, hlast⟩ := ih hshows (i := i + 1) (by omega)
      dsimp only
      generalize NzDataReader.schemaLoop count (i + 1) r' = out at hrows hlast
      obtain ⟨result, r''⟩ := out
      cases hrows
      refine ⟨?_, hlast⟩
      have hlt' : i < (Cursor.schema c.set).rows.length := by
        rw [Cursor.schema, List.length_mapIdx]
        exact hlt
      rw [List.drop_eq_getElem_cons hlt', hshows.nullability]
      simp [Cursor.schema]

theorem Shows.getSchemaTable (h : r.Shows c) :
    r.getSchemaTable.1 = .ok (Cursor.schema c.set) ∧ r.getSchemaTable.2.Shows c := by
  obtain ⟨hrows, hshows⟩ := h.schemaLoop (Nat.zero_add _)
  unfold NzDataReader.getSchemaTable
  rw [h.columns]
  generalize NzDataReader.schemaLoop c.set.columns.length 0 r = out at hrows hshows
  obtain ⟨result, r'⟩ := out
  cases hrows
  exact ⟨rfl, hshows⟩

/-! ### Calls -/

theorem Shows.value (h : r.Shows c) (i : Nat) : r.value i = c.value i := by
  rw [NzDataReader.value, requireRow, ← h.current]
  rfl

theorem Shows.next (h : r.Shows c) :
    r.next.1 = (if c.read.1 then c.read.2.current.map Except.ok else none) ∧ r.next.2.Shows c.read.2 := by
  obtain ⟨hmoved, hshows⟩ := h.read
  unfold NzDataReader.next
  generalize r.read = out at hmoved hshows
  obtain ⟨result, r'⟩ := out
  cases hmoved
  cases hread : c.read.1 with
  | false => exact ⟨rfl, hshows⟩
  | true =>
      refine ⟨?_, hshows⟩
      show r'.currentRow.map Except.ok = c.read.2.current.map Except.ok
      rw [hshows.current]

/-- The reader answers every call as the cursor does. -/
theorem machine_simulates :
    Simulates (machine (V := V)) Cursor.machine Shows := by
  refine ⟨fun r c k h => ?_⟩
  suffices hcall : (r.call k).1 = (c.call k).1 ∧ (r.call k).2.Shows (c.call k).2 from
    ⟨Prod.ext hcall.1 hcall.2.current.symm, hcall.2⟩
  cases k with
  | read =>
      obtain ⟨hmoved, hshows⟩ := h.read
      exact ⟨congrArg ReaderReply.moved hmoved, hshows⟩
  | next =>
      obtain ⟨hitem, hshows⟩ := h.next
      exact ⟨congrArg ReaderReply.item hitem, hshows⟩
  | nextResult =>
      obtain ⟨hmoved, hshows⟩ := h.nextResult
      exact ⟨congrArg ReaderReply.moved hmoved, hshows⟩
  | close => exact ⟨rfl, { h with closed := rfl }⟩
  | drainRows =>
      obtain ⟨hrows, hshows⟩ := h.drainLoop []
      exact ⟨congrArg ReaderReply.rows hrows, hshows⟩
  | hasRows =>
      refine ⟨congrArg ReaderReply.flag ?_, h⟩
      rw [hasRows, h.set]
      rfl
  | isClosed => exact ⟨congrArg ReaderReply.flag h.closed.symm, h⟩
  | getName i => exact ⟨by simp only [call, Cursor.call, h.columns], h⟩
  | getOrdinal name => exact ⟨by simp only [call, Cursor.call, h.columns], h⟩
  | getFormat i => exact ⟨by simp only [call, Cursor.call, h.columns], h⟩
  | getColumnAllowsNull i => exact ⟨by simp only [call, Cursor.call, h.nullability], h⟩
  | getColumnMetadata i =>
      obtain ⟨hmetadata, hshows⟩ := h.getColumnMetadata i
      exact ⟨congrArg ReaderReply.metadata hmetadata, hshows⟩
  | getSchemaTable =>
      obtain ⟨hschema, hshows⟩ := h.getSchemaTable
      exact ⟨congrArg ReaderReply.schema hschema, hshows⟩
  | getValue i => exact ⟨congrArg ReaderReply.value (h.value i), h⟩
  | getValueByName name =>
      refine ⟨congrArg ReaderReply.value ?_, h⟩
      show (ordinalOf r.columns name).bind r.value = (ordinalOf c.set.columns name).bind c.value
      rw [h.columns, funext h.value]
  | getRowMap =>
      refine ⟨congrArg ReaderReply.rowMap ?_, h⟩
      rw [getRowMap, requireRow, ← h.current]

theorem fromResult_shows (result : QueryResult V) :
    (fromResult result).Shows (Cursor.start result.resultSets) := by
  obtain ⟨sets, affected, notices⟩ := result
  cases sets with
  | nil => exact ⟨rfl, rfl, rfl, rfl, rfl, nofun, nofun⟩
  | cons set sets => exact ⟨rfl, rfl, rfl, rfl, rfl, nofun, nofun⟩

end NzDataReader

theorem Cursor.start_pending (sets : List (ResultSet V)) :
    (Cursor.start sets).pending = sets.flatMap (·.rows) := by
  cases sets <;> rfl

/-- Whatever is called, in whatever order, the reader of a result answers as the cursor over its
sets, and shows the same current row. -/
theorem reader_is_cursor (result : QueryResult V) (calls : List ReaderCall) :
    NzDataReader.machine.replies (NzDataReader.fromResult result) calls =
      Cursor.machine.replies (Cursor.start result.resultSets) calls :=
  NzDataReader.machine_simulates.replies (NzDataReader.fromResult_shows result) calls

/-- The rows that a reader hands out are rows of its result, in their order and none twice. Unless a
call passes rows over, a drain at the end completes them. -/
theorem reader_hands_out (result : QueryResult V) (calls : List ReaderCall) :
    ((NzDataReader.machine.replies (NzDataReader.fromResult result) calls).flatMap
        handedOut).Sublist (result.resultSets.flatMap (·.rows)) ∧
      ((∀ k ∈ calls, ¬ Cursor.Passes k) →
        (NzDataReader.machine.replies (NzDataReader.fromResult result)
          (calls ++ [.drainRows])).flatMap handedOut = result.resultSets.flatMap (·.rows)) := by
  have hreplies := NzDataReader.machine_simulates.replies (NzDataReader.fromResult_shows result)
  rw [hreplies, hreplies, ← Cursor.start_pending]
  refine ⟨Machine.handed_sublist Cursor.call_sublist _ calls, fun hcalls => ?_⟩
  have hall := Machine.handed_append_left Cursor.call_handed (Cursor.start result.resultSets) hcalls
  rw [Machine.replies_append, List.flatMap_append]
  refine Eq.trans (congrArg (_ ++ ·) ?_) hall
  exact List.append_nil _

end NzRust
