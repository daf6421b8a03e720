import NzRust.Lib.HashTable
import NzRust.Row.Columns
import NzRust.Sql.ByteScan

/-!
# Column lookup by name

`RowMetadata` builds a hash map from column names to positions at the first
lookup and keeps it. Its keys and its lookups hash the lower-cased bytes of a
name, whatever hasher the map was seeded with.
-/

namespace NzRust.Row

open Hashed Sql

/-! ## Names that differ in case -/

/-- `u8::to_ascii_lowercase`. -/
def toAsciiLowercase (b : UInt8) : UInt8 :=
  if 65 ≤ b ∧ b ≤ 90 then b + 32 else b

/-- `eq_ignore_ascii_case` on the bytes of two strings. -/
def eqIgnoreAsciiCaseBytes (s t : Bytes) : Bool :=
  s.length == t.length && (s.zip t).all fun p => toAsciiLowercase p.1 == toAsciiLowercase p.2

/-- A hasher with the seed of its map. -/
structure Hasher where
  State : Type
  seeded : State
  writeU8 : State → UInt8 → State
  finish : State → UInt64

structure AsciiColumnName where
  name : Text
  deriving DecidableEq, Repr

structure ColumnNameLookup where
  name : Text
  deriving DecidableEq, Repr

def AsciiColumnName.eq (a b : AsciiColumnName) : Bool :=
  eqIgnoreAsciiCaseBytes (toUtf8 a.name) (toUtf8 b.name)

def AsciiColumnName.hash (H : Hasher) (a : AsciiColumnName) (state : H.State) : H.State :=
  (toUtf8 a.name).foldl (fun state byte => H.writeU8 state (toAsciiLowercase byte)) state

def ColumnNameLookup.hash (H : Hasher) (q : ColumnNameLookup) (state : H.State) : H.State :=
  (toUtf8 q.name).foldl (fun state byte => H.writeU8 state (toAsciiLowercase byte)) state

def ColumnNameLookup.equivalent (q : ColumnNameLookup) (key : AsciiColumnName) : Bool :=
  eqIgnoreAsciiCaseBytes (toUtf8 q.name) (toUtf8 key.name)

/-! ## The index -/

/-- The map: a table of names and positions. -/
abbrev NameTable := Table UInt64 (AsciiColumnName × Nat)

structure RowMetadata (T : NameTable) where
  columns : List ColumnDesc
  nameIndex : Option T.State

namespace RowMetadata

variable {T : NameTable}

def new (T : NameTable) (columns : List ColumnDesc) : RowMetadata T :=
  ⟨columns, none⟩

def keyHash (H : Hasher) (key : AsciiColumnName) : UInt64 :=
  H.finish (key.hash H H.seeded)

def lookupHash (H : Hasher) (q : ColumnNameLookup) : UInt64 :=
  H.finish (q.hash H H.seeded)

/-- The entries of the index, in the order in which they are offered to the map. -/
def entries (columns : List ColumnDesc) : List (AsciiColumnName × Nat) :=
  columns.zipIdx.map fun e => (⟨e.1.name⟩, e.2)

def buildIndex (H : Hasher) (md : RowMetadata T) : T.State :=
  fill T (keyHash H) AsciiColumnName.eq (entries md.columns) T.empty

/-- `position`, and the metadata it leaves behind. -/
def position (H : Hasher) (md : RowMetadata T) (name : Text) : Option Nat × RowMetadata T :=
  let index := md.nameIndex.getD (md.buildIndex H)
  (get T (lookupHash H ⟨name⟩) (ColumnNameLookup.equivalent ⟨name⟩) index,
    { md with nameIndex := some index })

/-- The metadata after lookups of these names. -/
def after (H : Hasher) (md : RowMetadata T) (names : List Text) : RowMetadata T :=
  names.foldl (fun md name => (md.position H name).2) md

end RowMetadata

/-! ## Hash and equality -/

theorem eqIgnoreAsciiCaseBytes_iff {s t : Bytes} :
    eqIgnoreAsciiCaseBytes s t = true ↔ s.map toAsciiLowercase = t.map toAsciiLowercase := by
  rw [eqIgnoreAsciiCaseBytes, Bool.and_eq_true, beq_iff_eq]
  induction s generalizing t with
  | nil => cases t <;> simp
  | cons a s ih =>
      cases t with
      | nil => simp
      | cons b t =>
          rw [List.length_cons, List.length_cons, Nat.succ_inj, List.zip_cons_cons, List.all_cons,
            Bool.and_eq_true, beq_iff_eq, List.map_cons, List.map_cons, List.cons.injEq, ← ih]
          exact and_left_comm

theorem foldl_lowercase {S : Type} (f : S → UInt8 → S) (bytes : Bytes) (state : S) :
    bytes.foldl (fun state byte => f state (toAsciiLowercase byte)) state =
      (bytes.map toAsciiLowercase).foldl f state :=
  List.foldl_map.symm

/-- Names that are equal but for case write the same bytes to the hasher. -/
theorem hash_of_eq (H : Hasher) {s t : Bytes} (h : eqIgnoreAsciiCaseBytes s t = true)
    (state : H.State) :
    s.foldl (fun state byte => H.writeU8 state (toAsciiLowercase byte)) state =
      t.foldl (fun state byte => H.writeU8 state (toAsciiLowercase byte)) state := by
  rw [foldl_lowercase, foldl_lowercase, eqIgnoreAsciiCaseBytes_iff.mp h]

theorem keys_lawful (H : Hasher) : Lawful (RowMetadata.keyHash H) AsciiColumnName.eq where
  refl _ := eqIgnoreAsciiCaseBytes_iff.mpr rfl
  symm h := eqIgnoreAsciiCaseBytes_iff.mpr (eqIgnoreAsciiCaseBytes_iff.mp h).symm
  trans h g :=
    eqIgnoreAsciiCaseBytes_iff.mpr ((eqIgnoreAsciiCaseBytes_iff.mp h).trans (eqIgnoreAsciiCaseBytes_iff.mp g))
  hash h := congrArg H.finish (hash_of_eq H h H.seeded)

theorem lookups_borrow (H : Hasher) :
    Borrows (RowMetadata.keyHash H) AsciiColumnName.eq (RowMetadata.lookupHash H)
      ColumnNameLookup.equivalent where
  hash h := congrArg H.finish (hash_of_eq H h H.seeded)
  same {q k l} h := by
    rw [Bool.eq_iff_iff, ColumnNameLookup.equivalent, AsciiColumnName.eq, eqIgnoreAsciiCaseBytes_iff,
      eqIgnoreAsciiCaseBytes_iff, eqIgnoreAsciiCaseBytes_iff.mp h]

/-! ## The case of a character -/

theorem toAsciiLowercase_ascii {c : Char} (h : c.toNat < 128) :
    toAsciiLowercase (ascii c) = ascii c.toLower := by
  have hall : ∀ n < 128, toAsciiLowercase (ascii (Char.ofNat n)) =
      ascii (Char.ofNat n).toLower := by decide
  have hc := hall c.toNat h
  rwa [Char.ofNat_toNat] at hc

theorem toAsciiLowercase_wide {b : UInt8} (h : 128 ≤ b.toNat) : toAsciiLowercase b = b := by
  rw [toAsciiLowercase, if_neg]
  rintro ⟨-, hle⟩
  have : b.toNat ≤ 90 := hle
  omega

theorem map_toAsciiLowercase (text : Text) :
    (toUtf8 text).map toAsciiLowercase = toUtf8 (asciiLower text) := by
  induction text with
  | nil => rfl
  | cons c cs ih =>
      have hchar : (String.utf8EncodeChar c).map toAsciiLowercase =
          String.utf8EncodeChar c.toLower := by
        by_cases hc : c.toNat < 128
        · rw [Sql.encode_ascii hc, Sql.encode_ascii (toLower_ascii hc), List.map_singleton,
            toAsciiLowercase_ascii hc]
        · rw [toLower_wide (Nat.not_lt.mp hc)]
          have hbytes := encode_wide (Nat.not_lt.mp hc)
          exact (List.map_congr_left fun b hb => toAsciiLowercase_wide (hbytes b hb)).trans
            (List.map_id _)
      rw [toUtf8_cons, List.map_append, ih, hchar]
      exact (toUtf8_cons c.toLower _).symm

/-- The comparison of bytes is the one of characters. -/
theorem eqBytes_eq (s t : Text) :
    eqIgnoreAsciiCaseBytes (toUtf8 s) (toUtf8 t) = Sql.eqIgnoreAsciiCase s t := by
  rw [Bool.eq_iff_iff, eqIgnoreAsciiCaseBytes_iff, map_toAsciiLowercase, map_toAsciiLowercase,
    Sql.eqIgnoreAsciiCase, beq_iff_eq]
  constructor
  · intro h
    have hchars := congrArg fromUtf8 h
    rwa [fromUtf8_toUtf8, fromUtf8_toUtf8, Option.some_inj] at hchars
  · exact congrArg toUtf8

/-! ## Every lookup -/

theorem find_zipIdx {α : Type} (p : α → Bool) (l : List α) (n : Nat) :
    ((l.zipIdx n).find? fun e => p e.1).map Prod.snd = (l.findIdx? p).map (· + n) := by
  induction l generalizing n with
  | nil => rfl
  | cons a l ih =>
      rw [List.zipIdx_cons, List.find?_cons, List.findIdx?_cons]
      cases hp : p a with
      | true => simp
      | false =>
          rw [ih]
          cases List.findIdx? p l with
          | none => rfl
          | some i =>
              simp only [Option.map_some, Bool.false_eq_true, if_false]
              rw [Nat.add_right_comm, Nat.add_assoc]

namespace RowMetadata

variable {T : NameTable}

/-- The index is not there yet, or it is the one of the columns. -/
structure Consistent (H : Hasher) (columns : List ColumnDesc) (md : RowMetadata T) : Prop where
  columns : md.columns = columns
  index : ∀ index, md.nameIndex = some index → index = md.buildIndex H

theorem new_consistent (H : Hasher) (columns : List ColumnDesc) :
    Consistent H columns (new T columns) :=
  ⟨rfl, nofun⟩

theorem Consistent.getD {H : Hasher} {columns : List ColumnDesc} {md : RowMetadata T}
    (h : Consistent H columns md) : md.nameIndex.getD (md.buildIndex H) = md.buildIndex H := by
  cases hindex : md.nameIndex with
  | none => rfl
  | some index => exact h.index index hindex

theorem Consistent.position {H : Hasher} {columns : List ColumnDesc} {md : RowMetadata T}
    (h : Consistent H columns md) (name : Text) : Consistent H columns (md.position H name).2 where
  columns := h.columns
  index index hindex := by
    obtain rfl := Option.some.inj hindex
    exact h.getD

theorem Consistent.after {H : Hasher} {columns : List ColumnDesc} {md : RowMetadata T}
    (h : Consistent H columns md) (names : List Text) : Consistent H columns (md.after H names) := by
  induction names generalizing md with
  | nil => exact h
  | cons name names ih => exact ih (h.position name)

theorem Consistent.lookup {H : Hasher} {columns : List ColumnDesc} {md : RowMetadata T}
    (h : Consistent H columns md) (name : Text) :
    (md.position H name).1 =
      columns.findIdx? fun column => Sql.eqIgnoreAsciiCase column.name name := by
  have hsame (column : ColumnDesc) : ColumnNameLookup.equivalent ⟨name⟩ ⟨column.name⟩ =
      Sql.eqIgnoreAsciiCase column.name name := by
    rw [ColumnNameLookup.equivalent, eqBytes_eq, Sql.eqIgnoreAsciiCase, Sql.eqIgnoreAsciiCase,
      Bool.beq_comm]
  have hfind := find_zipIdx (fun c : ColumnDesc => Sql.eqIgnoreAsciiCase c.name name) columns 0
  rw [RowMetadata.position]
  dsimp only
  rw [h.getD, buildIndex, get_fill (keys_lawful H) (lookups_borrow H), h.columns, entries,
    List.find?_map, Option.map_map]
  simp only [Function.comp_def, hsame]
  rw [hfind]
  exact Option.map_id'

end RowMetadata

/-- A lookup finds the first column of that name but for case, on the first call and on every
later one; equal keys and lookups have equal hashes. -/
theorem position_first_match (T : NameTable) (H : Hasher) (columns : List ColumnDesc)
    (earlier : List Text) (name : Text) :
    (∀ i, (((RowMetadata.new T columns).after H earlier).position H name).1 = some i ↔
      ∃ h : i < columns.length, Sql.eqIgnoreAsciiCase columns[i].name name = true ∧
        ∀ j (hj : j < i), Sql.eqIgnoreAsciiCase columns[j].name name = false) ∧
    ((((RowMetadata.new T columns).after H earlier).position H name).1 = none ↔
      ∀ column ∈ columns, Sql.eqIgnoreAsciiCase column.name name = false) ∧
    (∀ a b : AsciiColumnName, a.eq b = true → ∀ state, a.hash H state = b.hash H state) ∧
    ∀ (q : ColumnNameLookup) (key : AsciiColumnName), q.equivalent key = true →
      ∀ state, q.hash H state = key.hash H state := by
  rw [((RowMetadata.new_consistent (T := T) H columns).after earlier).lookup]
  refine ⟨fun i => ?_, ?_, fun a b h => hash_of_eq H h, fun q key h => hash_of_eq H h⟩
  · rw [List.findIdx?_eq_some_iff_getElem]
    simp only [Bool.not_eq_true]
  · exact List.findIdx?_eq_none_iff

/-- Sums the bytes written. -/
def summing : Hasher :=
  ⟨UInt64, 7, fun state byte => state + byte.toUInt64, fun state => state⟩

example :
    let columns := ["id", "Name", "NAME"].map fun name => (⟨name.toList, 25, -1, -1, 0⟩ : ColumnDesc)
    let md := RowMetadata.new (chained _ fun h => h.toNat % 4) columns
    (md.position summing "nAME".toList).1 = some 1 := by decide

end NzRust.Row
