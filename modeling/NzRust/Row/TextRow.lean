import NzRust.Row.Columns
import NzRust.Types.TextValue

/-!
# Text rows

A text row is a bitmap of the cells that are present, and for each of these a
big-endian length that counts itself and the bytes of the value. The framing
check of the lazy row and the eager parser walk over it separately.
-/

namespace NzRust

open ByteString Checked

namespace TextRow

/-- Whether the cell of a column is present. -/
def present (data : Bytes) (column : Nat) : Exec NzError Bool := do
  let byte ← index data (column / 8)
  return byte &&& (1 <<< UInt8.ofNat (7 - column % 8)) != 0

/-- The `i32` at an offset. -/
def lengthAt (data : Bytes) (off : Nat) : Exec NzError Int := do
  let stop ← addWord 64 off 4
  let bytes ← slice data off stop
  return beInt bytes

def invalidData (detail : String) : NzError :=
  .protocol s!"Invalid DataRow payload: {detail}"

/-- `validate_text_row` from a column on. -/
def validateFrom (data : Bytes) : (count col idx : Nat) → Exec NzError Unit
  | 0, _, idx =>
      if idx ≠ data.length then fail (invalidData "trailing bytes after the last column") else .ok ()
  | count + 1, col, idx => do
      let here ← present data col
      if here = false then validateFrom data count (col + 1) idx
      else if (addChecked 64 idx 4).all (fun stop => decide (data.length < stop)) then
        fail (invalidData s!"column {col} length is truncated")
      else
        let encoded ← lengthAt data idx
        let start ← addWord 64 idx 4
        if encoded < 4 then fail (invalidData s!"column {col} length is smaller than its prefix")
        else
          match addChecked 64 start (encoded - 4).toNat with
          | none => fail (invalidData s!"column {col} value length is invalid")
          | some stop =>
              if data.length < stop then
                fail (invalidData s!"column {col} value length is invalid")
              else validateFrom data count (col + 1) stop

/-- The bytes of the bitmap. -/
def bitmapLen (columns : Nat) : Nat :=
  (columns + 7) / 8

def validateTextRow (data : Bytes) (columns : List ColumnDesc) : Exec NzError Unit :=
  if data.length < bitmapLen columns.length then fail (invalidData "null bitmap is truncated")
  else validateFrom data columns.length 0 (bitmapLen columns.length)

section Values

variable {N : Numerics} (ops : NumberOps N)

/-- A conversion's error comes back as its text, and the row reports that text. -/
def conversionFailed (e : NzError) : NzError :=
  .protocol e.display

/-- The eager parser from a column on. -/
def parseFrom (data : Bytes) : (columns : List ColumnDesc) → (col idx : Nat) →
    Exec NzError (List (NzValue N))
  | [], _, _ => .ok []
  | column :: columns, col, idx => do
      let here ← present data col
      if here = false then
        let values ← parseFrom data columns (col + 1) idx
        return .null :: values
      else
        let start ← addWord 64 idx 4
        if data.length < start then fail (invalidData s!"column {col} length is truncated")
        else
          let encoded ← lengthAt data idx
          if encoded < 4 then fail (invalidData s!"column {col} length is smaller than its prefix")
          else
            let stop ← addWord 64 start (encoded - 4).toNat
            if data.length < stop then fail (invalidData s!"column {col} value length is invalid")
            else if encoded = 4 then
              let value ← lift ((tryParseTextValue ops [] column.typeOid column.typeMod).mapError
                conversionFailed)
              let values ← parseFrom data columns (col + 1) start
              return value :: values
            else
              let bytes ← slice data start stop
              let text ← orFail (.protocol "Invalid UTF-8 DataRow field") (fromUtf8 bytes)
              let value ← lift ((tryParseTextValue ops text column.typeOid column.typeMod).mapError
                conversionFailed)
              let values ← parseFrom data columns (col + 1) stop
              return value :: values

/-- `parse_text_data_row`: the whole framing first, then the values. -/
def parseTextDataRow (data : Bytes) (columns : List ColumnDesc) :
    Exec NzError (List (NzValue N)) := do
  validateTextRow data columns
  parseFrom ops data columns 0 (bitmapLen columns.length)

end Values

end TextRow

end NzRust
