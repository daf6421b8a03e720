import Mathlib.Data.List.GetD
import NzRust.Row.Total

/-!
# The form of a text row

What a text row is, apart from the code that reads it: a bitmap, most significant
bit first, and behind it the cells that it marks, each with a length that counts
itself. The framing check accepts these payloads and no others, and on them the
classified parser reads the cells and nothing else.
-/

namespace NzRust.TextRow

open ByteString Checked

/-! ## Payloads -/

/-- Bit `i` of a bitmap, the most significant bit of each byte first. -/
def bitAt (bitmap : Bytes) (i : Nat) : Bool :=
  (bitmap.getD (i / 8) 0).toNat.testBit (7 - i % 8)

/-- The cells from column `k` on, as a bitmap marks them. The length of a cell is an `i32`. -/
inductive Cells (bitmap : Bytes) : Nat → List (Option Bytes) → Prop where
  | nil (k : Nat) : Cells bitmap k []
  | null {k : Nat} {cells : List (Option Bytes)} (hbit : bitAt bitmap k = false)
      (rest : Cells bitmap (k + 1) cells) : Cells bitmap k (none :: cells)
  | cell {k : Nat} {bytes : Bytes} {cells : List (Option Bytes)} (hbit : bitAt bitmap k = true)
      (hlen : bytes.length + 4 < 2 ^ 31) (rest : Cells bitmap (k + 1) cells) :
      Cells bitmap k (some bytes :: cells)

structure Form (columns : Nat) where
  bitmap : Bytes
  cells : List (Option Bytes)
  hbitmap : bitmap.length = bitmapLen columns
  hcount : cells.length = columns
  hcells : Cells bitmap 0 cells

def encodeCell : Option Bytes → Bytes
  | none => []
  | some bytes => toBe 4 (bytes.length + 4 : Nat) ++ bytes

def encodeCells (cells : List (Option Bytes)) : Bytes :=
  cells.flatMap encodeCell

def Form.encode {columns : Nat} (form : Form columns) : Bytes :=
  form.bitmap ++ encodeCells form.cells

/-! ## The classified parser -/

section Values

variable {N : Numerics} (ops : NumberOps N)

/-- The walk of `parse_text_data_row_classified`. The stage is set where only the conversion of a
cell is left, and cleared for the next column. -/
def classifiedFrom (data : Bytes) : (columns : List ColumnDesc) → (col idx : Nat) →
    Exec (NzError × Bool) (List (NzValue N))
  | [], _, _ => .ok []
  | column :: columns, col, idx => do
      let here ← DbosTupleDesc.staged false (present data col)
      if here = false then
        let values ← classifiedFrom data columns (col + 1) idx
        return .null :: values
      else
        let start ← addWord 64 idx 4
        if data.length < start then fail (invalidData s!"column {col} length is truncated", false)
        else
          let encoded ← DbosTupleDesc.staged false (lengthAt data idx)
          if encoded < 4 then
            fail (invalidData s!"column {col} length is smaller than its prefix", false)
          else
            let stop ← addWord 64 start (encoded - 4).toNat
            if data.length < stop then
              fail (invalidData s!"column {col} value length is invalid", false)
            else if encoded = 4 then
              let value ← DbosTupleDesc.staged true (lift
                ((tryParseTextValue ops [] column.typeOid column.typeMod).mapError conversionFailed))
              let values ← classifiedFrom data columns (col + 1) start
              return value :: values
            else
              let bytes ← slice data start stop
              let text ← DbosTupleDesc.staged true
                (orFail (.protocol "Invalid UTF-8 DataRow field") (fromUtf8 bytes))
              let value ← DbosTupleDesc.staged true (lift
                ((tryParseTextValue ops text column.typeOid column.typeMod).mapError
                  conversionFailed))
              let values ← classifiedFrom data columns (col + 1) stop
              return value :: values

/-- `parse_text_data_row_classified`: an error comes with its value stage. -/
def parseTextDataRowClassified (data : Bytes) (columns : List ColumnDesc) :
    Exec (NzError × Bool) (List (NzValue N)) := do
  DbosTupleDesc.staged false (validateTextRow data columns)
  if data.length < bitmapLen columns.length then
    fail (invalidData "null bitmap is truncated", false)
  else classifiedFrom ops data columns 0 (bitmapLen columns.length)

/-! ### The parser without its stage -/

theorem unstaged_staged {α : Type} (stage : Bool) (x : Exec NzError α) :
    DbosTupleDesc.unstaged (DbosTupleDesc.staged stage x) = x := by
  rcases x with (_ | _) | _ <;> rfl

theorem unstaged_bind {α β : Type} (x : Exec (NzError × Bool) α)
    (f : α → Exec (NzError × Bool) β) :
    DbosTupleDesc.unstaged (x >>= f) =
      (DbosTupleDesc.unstaged x >>= fun a => DbosTupleDesc.unstaged (f a)) := by
  rcases x with (_ | _) | _ <;> rfl

theorem unstaged_addWord (a b : Nat) :
    DbosTupleDesc.unstaged (addWord 64 a b) = addWord 64 a b := by
  unfold addWord
  split <;> rfl

theorem unstaged_slice (data : Bytes) (a b : Nat) :
    DbosTupleDesc.unstaged (slice data a b) = slice data a b := by
  unfold slice
  split <;> rfl

theorem unstaged_ite {α : Type} (c : Prop) [Decidable c] (x y : Exec (NzError × Bool) α) :
    DbosTupleDesc.unstaged (if c then x else y) =
      if c then DbosTupleDesc.unstaged x else DbosTupleDesc.unstaged y := by
  split <;> rfl

theorem unstaged_fail {α : Type} (e : NzError) (stage : Bool) :
    DbosTupleDesc.unstaged (fail (e, stage) : Exec (NzError × Bool) α) = fail e :=
  rfl

theorem unstaged_pure {α : Type} (a : α) :
    DbosTupleDesc.unstaged (pure a : Exec (NzError × Bool) α) = pure a :=
  rfl

theorem unstaged_classifiedFrom (data : Bytes) (columns : List ColumnDesc) (k idx : Nat) :
    DbosTupleDesc.unstaged (classifiedFrom ops data columns k idx) =
      parseFrom ops data columns k idx := by
  induction columns generalizing k idx with
  | nil => rfl
  | cons column columns ih =>
      rw [classifiedFrom, parseFrom]
      simp only [unstaged_bind, unstaged_staged, unstaged_ite, unstaged_addWord, unstaged_fail,
        unstaged_slice, unstaged_pure, ih]

/-- The plain parser is the classified one without its stage. -/
theorem unstaged_parseTextDataRowClassified (data : Bytes) (columns : List ColumnDesc) :
    DbosTupleDesc.unstaged (parseTextDataRowClassified ops data columns) =
      parseTextDataRow ops data columns := by
  rw [parseTextDataRowClassified, parseTextDataRow, unstaged_bind, unstaged_staged, unstaged_ite,
    unstaged_classifiedFrom]
  by_cases hshort : data.length < bitmapLen columns.length
  · rw [validateTextRow, if_pos hshort]
    rfl
  · rw [if_neg hshort]

end Values

/-! ## One cell -/

section Walk

variable {data bitmap rest : Bytes} (hdata : data = bitmap ++ rest)

include hdata

theorem present_eq {k : Nat} (hk : k / 8 < bitmap.length) :
    present data k = .ok (bitAt bitmap k) := by
  have hlen : k / 8 < data.length := by
    rw [hdata, List.length_append]
    omega
  have hbyte : data[k / 8] = bitmap.getD (k / 8) 0 := by
    rw [List.getD_eq_getElem _ _ hk]
    simp only [hdata, List.getElem_append_left hk]
  rw [present, index_eq hlen, ok_bind, hbyte, mask_testBit _ (by omega)]
  rfl

end Walk

section Cell

variable {data : Bytes} {idx : Nat} {bytes tail : Bytes}
  (hcell : data.drop idx = encodeCell (some bytes) ++ tail) (hsmall : data.length < 2 ^ 63)

include hcell

theorem cell_room : idx + 4 + bytes.length + tail.length = data.length := by
  have hlength := congrArg List.length hcell
  simp only [encodeCell, List.length_drop, List.length_append, toBe_length] at hlength
  omega

theorem cell_rest : data.drop (idx + 4 + bytes.length) = tail := by
  rw [Nat.add_assoc, ← List.drop_drop, hcell]
  apply List.drop_left'
  simp [encodeCell]

theorem cell_bytes : (data.drop (idx + 4)).take bytes.length = bytes := by
  rw [← List.drop_drop, hcell, encodeCell, List.append_assoc,
    List.drop_left' (toBe_length 4 _), List.take_left' rfl]

include hsmall

theorem cell_length (hlen : bytes.length + 4 < 2 ^ 31) :
    lengthAt data idx = .ok ((bytes.length + 4 : Nat) : Int) := by
  have hroom := cell_room hcell
  have hlead : (data.drop idx).take (idx + 4 - idx) = toBe 4 ((bytes.length + 4 : Nat) : Int) := by
    rw [hcell, encodeCell, Nat.add_sub_cancel_left, List.append_assoc,
      List.take_left' (toBe_length 4 _)]
  rw [lengthAt, addWord_eq (by omega), ok_bind, slice_eq (by omega) (by omega), ok_bind, hlead,
    beInt_toBe_ofNat hlen]
  rfl

end Cell

/-- The cell that a length which the check accepts belongs to. -/
theorem cell_of_length {data : Bytes} {idx : Nat} {encoded : Int}
    (hlength : lengthAt data idx = .ok encoded)
    (hfour : 4 ≤ encoded) (hfits : idx + 4 + (encoded - 4).toNat ≤ data.length) :
    ∃ bytes, bytes.length = (encoded - 4).toNat ∧ bytes.length + 4 < 2 ^ 31 ∧
      data.drop idx = encodeCell (some bytes) ++ data.drop (idx + 4 + bytes.length) := by
  obtain ⟨stop, hstop, hread⟩ := bind_ok hlength
  obtain ⟨rfl, -⟩ := addWord_ok hstop
  obtain ⟨word, hslice, hword⟩ := bind_ok hread
  obtain ⟨-, hroom, hlead⟩ := slice_ok hslice
  have hvalue : beInt word = encoded := Except.ok.inj hword
  rw [Nat.add_sub_cancel_left] at hlead
  have hwidth : word.length = 4 := by
    rw [hlead, List.length_take, List.length_drop]
    omega
  have hrange := (Numeric.beInt_range hwidth).2
  obtain ⟨bytes, hbytes⟩ : ∃ bytes, ((data.drop idx).drop 4).take (encoded - 4).toNat = bytes :=
    ⟨_, rfl⟩
  have hlen : bytes.length = (encoded - 4).toNat := by
    rw [← hbytes, List.length_take, List.length_drop, List.length_drop]
    omega
  have hcount : ((bytes.length + 4 : Nat) : Int) = beInt word := by
    omega
  refine ⟨bytes, hlen, by omega, ?_⟩
  have hwrite : toBe 4 (beInt word) = word := by
    have h := toBe_beInt word
    rwa [hwidth] at h
  rw [encodeCell, hcount, hwrite, hlead, hlen, ← List.drop_drop, ← List.drop_drop, ← hbytes,
    List.append_assoc, List.take_append_drop, List.take_append_drop]

/-! ## The framing check -/

section Check

variable {data bitmap rest : Bytes} (hdata : data = bitmap ++ rest)

include hdata

theorem validateFrom_of_cells (hsmall : data.length < 2 ^ 63) {cells : List (Option Bytes)}
    {k idx : Nat} (hcells : Cells bitmap k cells) (hk : k + cells.length ≤ 8 * bitmap.length)
    (hidx : idx ≤ data.length) (hdrop : data.drop idx = encodeCells cells) :
    validateFrom data cells.length k idx = .ok () := by
  induction hcells generalizing idx with
  | nil k =>
      have hend : data.length ≤ idx := List.drop_eq_nil_iff.mp hdrop
      rw [List.length_nil, validateFrom, if_neg (by omega)]
  | null hbit _ ih =>
      rw [List.length_cons] at hk ⊢
      rw [validateFrom, present_eq hdata (by omega), hbit, ok_bind, if_pos rfl]
      exact ih (by omega) hidx hdrop
  | @cell k bytes cells hbit hlen _ ih =>
      have hcell : data.drop idx = encodeCell (some bytes) ++ encodeCells cells := hdrop
      have hroom := cell_room hcell
      have hlead : DbosTupleDesc.overruns data (addChecked 64 idx 4) = false :=
        RawRow.overruns_add (by omega) (by omega)
      have hbytes : (((bytes.length + 4 : Nat) : Int) - 4).toNat = bytes.length := by
        omega
      rw [List.length_cons] at hk ⊢
      rw [validateFrom, present_eq hdata (by omega), hbit, ok_bind, if_neg (by decide),
        show (addChecked 64 idx 4).all _ = false from hlead, if_neg (by decide),
        cell_length hcell hsmall hlen, ok_bind, addWord_eq (by omega), ok_bind, if_neg (by omega),
        hbytes, show addChecked 64 (idx + 4) bytes.length = some _ from if_pos (by omega)]
      dsimp only
      rw [if_neg (by omega)]
      exact ih (by omega) (by omega) (cell_rest hcell)

theorem cells_of_validateFrom {count k idx : Nat} (hk : k + count ≤ 8 * bitmap.length)
    (hidx : idx ≤ data.length) (h : validateFrom data count k idx = .ok ()) :
    ∃ cells, cells.length = count ∧ Cells bitmap k cells ∧ data.drop idx = encodeCells cells := by
  induction count generalizing k idx with
  | zero =>
      rw [validateFrom] at h
      by_cases hend : idx ≠ data.length
      · rw [if_pos hend] at h
        cases h
      · exact ⟨[], rfl, .nil k, List.drop_eq_nil_iff.mpr (by omega)⟩
  | succ count ih =>
      rw [validateFrom, present_eq hdata (by omega), ok_bind] at h
      by_cases hbit : bitAt bitmap k = false
      · rw [if_pos hbit] at h
        obtain ⟨cells, hcount, hcells, hdrop⟩ := ih (by omega) hidx h
        exact ⟨none :: cells, congrArg (· + 1) hcount, .null hbit hcells, hdrop⟩
      rw [if_neg hbit] at h
      by_cases hlead : ((addChecked 64 idx 4).all fun stop => decide (data.length < stop)) = true
      · rw [if_pos hlead] at h
        cases h
      rw [if_neg hlead] at h
      obtain ⟨encoded, hencoded, h⟩ := bind_ok h
      obtain ⟨start, hstart, h⟩ := bind_ok h
      obtain ⟨rfl, -⟩ := addWord_ok hstart
      by_cases hshort : encoded < 4
      · rw [if_pos hshort] at h
        cases h
      rw [if_neg hshort] at h
      cases hstop : addChecked 64 (idx + 4) (encoded - 4).toNat with
      | none =>
          rw [hstop] at h
          cases h
      | some stop =>
          rw [hstop] at h
          dsimp only at h
          obtain ⟨rfl, -⟩ := addChecked_eq_some hstop
          by_cases hfits : data.length < idx + 4 + (encoded - 4).toNat
          · rw [if_pos hfits] at h
            cases h
          rw [if_neg hfits] at h
          obtain ⟨bytes, hlen, hbound, hcell⟩ :=
            cell_of_length hencoded (by omega) (by omega)
          obtain ⟨cells, hcount, hcells, hdrop⟩ := ih (by omega) (by omega) h
          refine ⟨some bytes :: cells, congrArg (· + 1) hcount, .cell ?_ hbound hcells, ?_⟩
          · simpa using hbit
          · rw [hcell, hlen, hdrop]
            rfl

theorem validateFrom_safe (hsmall : data.length < 2 ^ 63) {count k idx : Nat}
    (hk : k + count ≤ 8 * bitmap.length) (hidx : idx ≤ data.length) :
    Safe (validateFrom data count k idx) fun _ => True := by
  induction count generalizing k idx with
  | zero =>
      rw [validateFrom]
      exact .guard fun _ => trivial
  | succ count ih =>
      rw [validateFrom, present_eq hdata (by omega), ok_bind]
      apply Safe.ite
      · intro _
        exact ih (by omega) hidx
      intro _
      apply Safe.guard
      intro hlead
      have hroom : idx + 4 ≤ data.length := DbosTupleDesc.add_le_of_overruns hlead
      rw [lengthAt, addWord_eq (by omega), ok_bind, slice_eq (by omega) hroom, ok_bind, pure_bind,
        ok_bind]
      apply Safe.guard
      intro _
      split
      · trivial
      · apply Safe.guard
        intro hfits
        exact ih (by omega) (by omega)

end Check

theorem validateTextRow_safe (columns : List ColumnDesc) {data : Bytes}
    (hsmall : data.length < 2 ^ 63) : Safe (validateTextRow data columns) fun _ => True := by
  apply Safe.guard
  intro hshort
  have hbitmap : (data.take (bitmapLen columns.length)).length = bitmapLen columns.length :=
    List.length_take_of_le (Nat.not_lt.mp hshort)
  have hbits : columns.length ≤ 8 * bitmapLen columns.length := by
    rw [bitmapLen]
    omega
  exact validateFrom_safe (List.take_append_drop (bitmapLen columns.length) data).symm hsmall
    (by omega) (Nat.not_lt.mp hshort)

theorem validateTextRow_iff (columns : List ColumnDesc) {data : Bytes}
    (hsmall : data.length < 2 ^ 63) :
    validateTextRow data columns = .ok () ↔ ∃ form : Form columns.length, form.encode = data := by
  have hbits : columns.length ≤ 8 * bitmapLen columns.length := by
    rw [bitmapLen]
    omega
  constructor
  · intro h
    rw [validateTextRow] at h
    by_cases hshort : data.length < bitmapLen columns.length
    · rw [if_pos hshort] at h
      cases h
    rw [if_neg hshort] at h
    have hbitmap : (data.take (bitmapLen columns.length)).length = bitmapLen columns.length :=
      List.length_take_of_le (Nat.not_lt.mp hshort)
    obtain ⟨cells, hcount, hcells, hdrop⟩ :=
      cells_of_validateFrom (List.take_append_drop (bitmapLen columns.length) data).symm (by omega)
        (Nat.not_lt.mp hshort) h
    refine ⟨⟨_, cells, hbitmap, hcount, hcells⟩, ?_⟩
    rw [Form.encode, ← hdrop, List.take_append_drop]
  · rintro ⟨form, rfl⟩
    have hbitmap := form.hbitmap
    have hcount := form.hcount
    have hlen : bitmapLen columns.length ≤ form.encode.length := by
      rw [Form.encode, List.length_append]
      omega
    have hwalk := validateFrom_of_cells rfl hsmall form.hcells (by omega) hlen
      (List.drop_left' form.hbitmap)
    rw [hcount] at hwalk
    rw [validateTextRow, if_neg (Nat.not_lt.mpr hlen)]
    exact hwalk

/-! ## The values -/

section Values

variable {N : Numerics} (ops : NumberOps N)

/-- What the cell of a column reads as. -/
def CellValue (column : ColumnDesc) : Option Bytes → NzValue N → Prop
  | none, v => v = .null
  | some bytes, v => ∃ text, fromUtf8 bytes = some text ∧
      tryParseTextValue ops text column.typeOid column.typeMod = .ok v

/-- The bytes of a cell that have no value. -/
def Rejected (column : ColumnDesc) (bytes : Bytes) : Prop :=
  fromUtf8 bytes = none ∨ ∃ text e, fromUtf8 bytes = some text ∧
    tryParseTextValue ops text column.typeOid column.typeMod = .error e

/-- The conversion of the bytes of one cell. -/
def convertCell (column : ColumnDesc) (bytes : Bytes) : Exec (NzError × Bool) (NzValue N) := do
  let text ← DbosTupleDesc.staged true
    (orFail (.protocol "Invalid UTF-8 DataRow field") (fromUtf8 bytes))
  DbosTupleDesc.staged true (lift
    ((tryParseTextValue ops text column.typeOid column.typeMod).mapError conversionFailed))

/-- The conversion of cells whose bytes are known. -/
def convertCells : List ColumnDesc → List (Option Bytes) →
    Exec (NzError × Bool) (List (NzValue N))
  | _ :: columns, none :: cells => do
      let values ← convertCells columns cells
      return .null :: values
  | column :: columns, some bytes :: cells => do
      let value ← convertCell ops column bytes
      let values ← convertCells columns cells
      return value :: values
  | _, _ => .ok []

theorem classifiedFrom_eq {data bitmap rest : Bytes} (hdata : data = bitmap ++ rest)
    (hsmall : data.length < 2 ^ 63) {cells : List (Option Bytes)} {k idx : Nat}
    (hcells : Cells bitmap k cells) (columns : List ColumnDesc)
    (hcount : cells.length = columns.length) (hk : k + cells.length ≤ 8 * bitmap.length)
    (hidx : idx ≤ data.length) (hdrop : data.drop idx = encodeCells cells) :
    classifiedFrom ops data columns k idx = convertCells ops columns cells := by
  induction hcells generalizing columns idx with
  | nil k =>
      cases columns with
      | nil => rfl
      | cons _ _ => cases hcount
  | null hbit _ ih =>
      cases columns with
      | nil => cases hcount
      | cons column columns =>
          rw [List.length_cons] at hk hcount
          rw [classifiedFrom, present_eq hdata (by omega), hbit, DbosTupleDesc.staged, ok_bind,
            if_pos rfl, ih columns (Nat.succ.inj hcount) (by omega) hidx hdrop]
          rfl
  | @cell k bytes cells hbit hlen _ ih =>
      cases columns with
      | nil => cases hcount
      | cons column columns =>
          have hcell : data.drop idx = encodeCell (some bytes) ++ encodeCells cells := hdrop
          have hroom := cell_room hcell
          have hbytes : (((bytes.length + 4 : Nat) : Int) - 4).toNat = bytes.length := by
            omega
          rw [List.length_cons] at hk hcount
          have hrest := ih columns (Nat.succ.inj hcount) (by omega) (by omega) (cell_rest hcell)
          rw [classifiedFrom, present_eq hdata (by omega), hbit, DbosTupleDesc.staged, ok_bind,
            if_neg (by decide), addWord_eq (by omega), ok_bind, if_neg (by omega),
            cell_length hcell hsmall hlen, DbosTupleDesc.staged, ok_bind, if_neg (by omega), hbytes,
            addWord_eq (by omega), ok_bind, if_neg (by omega)]
          by_cases hempty : bytes = []
          · subst hempty
            rw [if_pos (show (((([] : Bytes).length + 4 : Nat)) : Int) = 4 from rfl),
              show idx + 4 = idx + 4 + ([] : Bytes).length from rfl, hrest]
            rfl
          · have hpos : 0 < bytes.length := List.length_pos_iff.mpr hempty
            rw [if_neg (by omega), slice_eq (by omega) (by omega), Nat.add_sub_cancel_left,
              cell_bytes hcell, ok_bind, hrest, convertCells, convertCell, bind_assoc]

theorem convertCell_cases (column : ColumnDesc) (bytes : Bytes) :
    (∃ v, convertCell ops column bytes = .ok v ∧ CellValue ops column (some bytes) v ∧
      ¬Rejected ops column bytes) ∨
    ∃ e, convertCell ops column bytes = fail (e, true) ∧ Rejected ops column bytes := by
  unfold convertCell
  cases htext : fromUtf8 bytes with
  | none => exact .inr ⟨_, rfl, .inl htext⟩
  | some text =>
      rw [orFail, DbosTupleDesc.staged, ok_bind]
      cases hvalue : tryParseTextValue ops text column.typeOid column.typeMod with
      | error e => exact .inr ⟨_, rfl, .inr ⟨text, e, htext, hvalue⟩⟩
      | ok v =>
          refine .inl ⟨v, rfl, ⟨text, htext, hvalue⟩, ?_⟩
          rintro (hnone | ⟨text', e, htext', hbad⟩)
          · rw [htext] at hnone
            cases hnone
          · rw [htext] at htext'
            cases htext'
            rw [hvalue] at hbad
            cases hbad

/-- Cells are converted one by one; a failure is always one of the value stage. -/
theorem convertCells_cases (columns : List ColumnDesc) (cells : List (Option Bytes))
    (hcount : cells.length = columns.length) :
    (∃ values, convertCells ops columns cells = .ok values ∧
      List.Forall₂ (fun pair v => CellValue ops pair.1 pair.2 v) (columns.zip cells) values ∧
      ∀ column bytes, (column, some bytes) ∈ columns.zip cells → ¬Rejected ops column bytes) ∨
    ∃ e, convertCells ops columns cells = fail (e, true) ∧
      ∃ column bytes, (column, some bytes) ∈ columns.zip cells ∧ Rejected ops column bytes := by
  induction columns generalizing cells with
  | nil =>
      rw [List.length_eq_zero_iff.mp hcount]
      exact .inl ⟨[], rfl, .nil, fun _ _ hmem => absurd hmem List.not_mem_nil⟩
  | cons column columns ih =>
      cases cells with
      | nil => cases hcount
      | cons cell cells =>
          have hrest := ih cells (Nat.succ.inj hcount)
          rw [List.zip_cons_cons]
          cases cell with
          | none =>
              rw [convertCells]
              obtain ⟨values, hvalues, hall, hgood⟩ | ⟨e, he, c, bytes, hmem, hbad⟩ := hrest
              · refine .inl ⟨.null :: values, by rw [hvalues]; rfl, .cons rfl hall, ?_⟩
                intro c bytes hmem
                obtain hhead | hmem := List.mem_cons.mp hmem
                · cases hhead
                · exact hgood c bytes hmem
              · exact .inr ⟨e, by rw [he]; rfl, c, bytes, List.mem_cons_of_mem _ hmem, hbad⟩
          | some bytes =>
              rw [convertCells]
              obtain ⟨v, hv, hvalue, hkeep⟩ | ⟨e, he, hbad⟩ := convertCell_cases ops column bytes
              · rw [hv, ok_bind]
                obtain ⟨values, hvalues, hall, hgood⟩ | ⟨e, he, c, bytes', hmem, hbad⟩ := hrest
                · refine .inl ⟨v :: values, by rw [hvalues]; rfl, .cons hvalue hall, ?_⟩
                  intro c bytes' hmem
                  obtain hhead | hmem := List.mem_cons.mp hmem
                  · cases hhead
                    exact hkeep
                  · exact hgood c bytes' hmem
                · exact .inr ⟨e, by rw [he]; rfl, c, bytes', List.mem_cons_of_mem _ hmem, hbad⟩
              · exact .inr ⟨e, by rw [he]; rfl, column, bytes, List.mem_cons_self, hbad⟩

theorem parseTextDataRowClassified_eq {columns : List ColumnDesc} (form : Form columns.length)
    (hsmall : form.encode.length < 2 ^ 63) :
    parseTextDataRowClassified ops form.encode columns = convertCells ops columns form.cells := by
  have hbits : columns.length ≤ 8 * bitmapLen columns.length := by
    rw [bitmapLen]
    omega
  have hbitmap := form.hbitmap
  have hcount := form.hcount
  have hlen : bitmapLen columns.length ≤ form.encode.length := by
    rw [Form.encode, List.length_append]
    omega
  have hwalk := classifiedFrom_eq ops rfl hsmall form.hcells columns hcount (by omega) hlen
    (List.drop_left' hbitmap)
  rw [parseTextDataRowClassified, (validateTextRow_iff columns hsmall).mpr ⟨form, rfl⟩,
    DbosTupleDesc.staged, ok_bind, if_neg (Nat.not_lt.mpr hlen)]
  exact hwalk

theorem scalar_ne_null {α : Type} (typeOid : Int) {make : α → NzValue N}
    (hmake : ∀ a, make a ≠ .null) (parsed : Option α) : scalar typeOid make parsed ≠ .ok .null := by
  intro h
  cases parsed with
  | none => cases h
  | some a => exact hmake a (Except.ok.inj h)

theorem parseTextValue_ne_null (raw : Text) (typeOid : Int) :
    (parseTextValue raw typeOid : NzValue N) ≠ .null := by
  unfold parseTextValue
  repeat' split
  all_goals
    intro h
    cases h

theorem numericValue_ne_null (decoded : NumericDecoded N) : decoded.value ≠ .null := by
  intro h
  cases decoded <;> cases h

/-- No text reads as NULL. -/
theorem tryParseTextValue_ne_null (raw : Text) (typeOid typeMod : Int) :
    tryParseTextValue ops raw typeOid typeMod ≠ .ok .null := by
  unfold tryParseTextValue
  dsimp only
  repeat' split
  all_goals first
    | exact scalar_ne_null _ (fun _ h => by cases h) _
    | exact fun h => numericValue_ne_null _ (Except.ok.inj h)
    | exact fun h => parseTextValue_ne_null _ _ (Except.ok.inj h)
    | intro h; cases h

theorem null_iff_of_cells {bitmap : Bytes} {cells : List (Option Bytes)} {k : Nat}
    (hcells : Cells bitmap k cells) (columns : List ColumnDesc) {values : List (NzValue N)}
    (hcount : cells.length = columns.length)
    (hvalues : List.Forall₂ (fun pair v => CellValue ops pair.1 pair.2 v) (columns.zip cells) values)
    {i : Nat} (hi : i < columns.length) :
    values[i]? = some .null ↔ bitAt bitmap (k + i) = false := by
  induction hcells generalizing columns values i with
  | nil k =>
      rw [← hcount] at hi
      exact absurd hi (Nat.not_lt_zero i)
  | null hbit _ ih =>
      cases columns with
      | nil => cases hcount
      | cons column columns =>
          cases hvalues with
          | cons hvalue hrest =>
              cases i with
              | zero =>
                  have hnull : _ = NzValue.null := hvalue
                  simp [hnull, hbit]
              | succ i =>
                  have htail := ih columns (Nat.succ.inj hcount) hrest (Nat.lt_of_succ_lt_succ hi)
                  rw [List.getElem?_cons_succ, htail, Nat.add_right_comm, Nat.add_assoc]
  | cell hbit _ _ ih =>
      cases columns with
      | nil => cases hcount
      | cons column columns =>
          cases hvalues with
          | cons hvalue hrest =>
              cases i with
              | zero =>
                  obtain ⟨text, -, hparsed⟩ := hvalue
                  have hkeep := tryParseTextValue_ne_null ops text column.typeOid column.typeMod
                  rw [hparsed] at hkeep
                  simp only [List.getElem?_cons_zero, Nat.add_zero, hbit, Option.some.injEq]
                  exact ⟨fun h => absurd (congrArg Except.ok h) hkeep, fun h => by cases h⟩
              | succ i =>
                  have htail := ih columns (Nat.succ.inj hcount) hrest (Nat.lt_of_succ_lt_succ hi)
                  rw [List.getElem?_cons_succ, htail, Nat.add_right_comm, Nat.add_assoc]

/-- A payload of another form fails the framing check, and the parser with it; one of this form
fails where a cell has no value. -/
theorem classified_cases {data : Bytes} (hsmall : data.length < 2 ^ 63)
    (columns : List ColumnDesc) :
    (∃ e, validateTextRow data columns = fail e ∧
      parseTextDataRowClassified ops data columns = fail (e, false)) ∨
    validateTextRow data columns = .ok () ∧
      ((∃ values, parseTextDataRowClassified ops data columns = .ok values) ∨
        ∃ e, parseTextDataRowClassified ops data columns = fail (e, true) ∧
          ∃ form : Form columns.length, form.encode = data ∧
            ∃ column bytes, (column, some bytes) ∈ columns.zip form.cells ∧
              Rejected ops column bytes) := by
  have hform := validateTextRow_iff columns hsmall
  have hsafe := validateTextRow_safe columns hsmall
  cases hchecked : validateTextRow data columns with
  | ok _ =>
      obtain ⟨form, rfl⟩ := hform.mp hchecked
      rw [parseTextDataRowClassified_eq ops form hsmall]
      obtain ⟨values, hvalues, -⟩ | ⟨e, he, hrejected⟩ :=
        convertCells_cases ops columns form.cells form.hcount
      · exact .inr ⟨rfl, .inl ⟨values, hvalues⟩⟩
      · exact .inr ⟨rfl, .inr ⟨e, he, form, rfl, hrejected⟩⟩
  | error fault =>
      rw [hchecked] at hsafe
      cases fault with
      | error e =>
          refine .inl ⟨e, rfl, ?_⟩
          rw [parseTextDataRowClassified, hchecked]
          rfl
      | panic => exact absurd hsafe id

/-- The framing check accepts the payloads of this form, and on these the parser reads every cell
by itself; the stage tells a payload of another form from a cell without a value. -/
theorem text_row_form (data : Slice) (columns : List ColumnDesc) :
    (validateTextRow data.1 columns = .ok () ↔
      ∃ form : Form columns.length, form.encode = data.1) ∧
    (∀ form : Form columns.length, form.encode = data.1 → ∀ values,
      parseTextDataRowClassified ops data.1 columns = .ok values →
        List.Forall₂ (fun pair v => CellValue ops pair.1 pair.2 v) (columns.zip form.cells) values ∧
        values.length = columns.length ∧
        ∀ i < columns.length, values[i]? = some .null ↔ bitAt form.bitmap i = false) ∧
    ((∃ e, parseTextDataRowClassified ops data.1 columns = fail (e, false)) ↔
      ∃ e, validateTextRow data.1 columns = fail e) ∧
    ((∃ e, parseTextDataRowClassified ops data.1 columns = fail (e, true)) ↔
      ∃ form : Form columns.length, form.encode = data.1 ∧
        ∃ column bytes, (column, some bytes) ∈ columns.zip form.cells ∧
          Rejected ops column bytes) ∧
    parseTextDataRowClassified ops data.1 columns ≠ panics := by
  obtain ⟨data, hsmall⟩ := data
  dsimp only
  have hform := validateTextRow_iff columns hsmall
  have hcases := classified_cases ops hsmall columns
  refine ⟨hform, ?_, ?_, ?_, ?_⟩
  · rintro form rfl values hvalues
    rw [parseTextDataRowClassified_eq ops form hsmall] at hvalues
    obtain ⟨values', hvalues', hall, -⟩ | ⟨e, he, -⟩ :=
      convertCells_cases ops columns form.cells form.hcount
    · rw [hvalues'] at hvalues
      cases hvalues
      have hlen := hall.length_eq
      rw [List.length_zip, form.hcount, Nat.min_self] at hlen
      refine ⟨hall, hlen.symm, fun i hi => ?_⟩
      have hnull := null_iff_of_cells ops form.hcells columns form.hcount hall hi
      rwa [Nat.zero_add] at hnull
    · rw [he] at hvalues
      cases hvalues
  · obtain ⟨e, hinvalid, hfails⟩ | ⟨hvalid, ⟨values, hvalues⟩ | ⟨e, hfails, -⟩⟩ := hcases
    · exact ⟨fun _ => ⟨e, hinvalid⟩, fun _ => ⟨e, hfails⟩⟩
    · rw [hvalid, hvalues]
      constructor <;> rintro ⟨_, hfalse⟩ <;> cases hfalse
    · rw [hvalid, hfails]
      constructor <;> rintro ⟨_, hfalse⟩ <;> cases hfalse
  · constructor
    · rintro ⟨e', he'⟩
      obtain ⟨e, -, hfails⟩ | ⟨-, ⟨values, hvalues⟩ | ⟨-, -, hrejected⟩⟩ := hcases
      · rw [hfails] at he'
        cases he'
      · rw [hvalues] at he'
        cases he'
      · exact hrejected
    · rintro ⟨form, rfl, column, bytes, hmem, hrejected⟩
      rw [parseTextDataRowClassified_eq ops form hsmall]
      obtain ⟨values, -, -, hgood⟩ | ⟨e', he', -⟩ :=
        convertCells_cases ops columns form.cells form.hcount
      · exact absurd hrejected (hgood column bytes hmem)
      · exact ⟨e', he'⟩
  · intro hpanic
    rw [hpanic] at hcases
    obtain ⟨e, -, hfails⟩ | ⟨-, ⟨values, hvalues⟩ | ⟨e, hfails, -⟩⟩ := hcases
    · cases hfails
    · cases hvalues
    · cases hfails

end Values

end NzRust.TextRow
