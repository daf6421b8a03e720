import Mathlib.Algebra.Order.Ring.Int
import Mathlib.Data.List.Basic

/-!
# Text and bytes

A Rust `str` is the list of its `char`s. The conversions from bytes follow the
standard library: `from_utf8` rejects an ill-formed sequence and
`from_utf8_lossy` puts one replacement character for each maximal ill-formed
part.
-/

namespace NzRust

/-- A Rust `str`, as the sequence of its `char`s. -/
abbrev Text := List Char

/-- The bytes of a payload or of a socket stream. -/
abbrev Bytes := List UInt8

/-- `str::split` at the characters of a class. -/
def splitWhere (p : Char → Bool) : Text → List Text
  | [] => [[]]
  | c :: cs =>
      if p c then [] :: splitWhere p cs
      else
        match splitWhere p cs with
        | [] => [[c]]
        | part :: parts => (c :: part) :: parts

/-- `str::split` at a character. -/
def splitAt (sep : Char) (text : Text) : List Text :=
  splitWhere (· == sep) text

/-- `split_once` at a character. -/
def splitOnce (sep : Char) (text : Text) : Option (Text × Text) :=
  match text.dropWhile (· != sep) with
  | [] => none
  | _ :: rest => some (text.takeWhile (· != sep), rest)

/-- `rsplit_once` at a character. -/
def rsplitOnce (sep : Char) (text : Text) : Option (Text × Text) :=
  (splitOnce sep text.reverse).map fun parts => (parts.2.reverse, parts.1.reverse)

/-- The Unicode `White_Space` characters, as `str::trim` sees them. -/
def isWhitespace (c : Char) : Bool :=
  let n := c.toNat
  (0x09 ≤ n && n ≤ 0x0D) || n == 0x20 || n == 0x85 || n == 0xA0 || n == 0x1680 ||
    (0x2000 ≤ n && n ≤ 0x200A) || n == 0x2028 || n == 0x2029 || n == 0x202F || n == 0x205F ||
    n == 0x3000

/-- `split_whitespace`. -/
def splitWhitespace (text : Text) : List Text :=
  (splitWhere isWhitespace text).filter (!·.isEmpty)

def trimStart (text : Text) : Text :=
  text.dropWhile isWhitespace

def trimEnd (text : Text) : Text :=
  (text.reverse.dropWhile isWhitespace).reverse

def trim (text : Text) : Text :=
  trimEnd (trimStart text)

/-! ## UTF-8 -/

/-- The number of continuation bytes behind a leading byte and the range of the first of them. -/
def utf8Lead (b : UInt8) : Option (Nat × Nat × Nat) :=
  let n := b.toNat
  if n < 0x80 then some (0, 0, 0)
  else if 0xC2 ≤ n ∧ n ≤ 0xDF then some (1, 0x80, 0xBF)
  else if n = 0xE0 then some (2, 0xA0, 0xBF)
  else if n = 0xED then some (2, 0x80, 0x9F)
  else if 0xE1 ≤ n ∧ n ≤ 0xEF then some (2, 0x80, 0xBF)
  else if n = 0xF0 then some (3, 0x90, 0xBF)
  else if 0xF1 ≤ n ∧ n ≤ 0xF3 then some (3, 0x80, 0xBF)
  else if n = 0xF4 then some (3, 0x80, 0x8F)
  else none

/-- Reads `count` continuation bytes, the first of them in `lo..hi`: the bits so far and how many
bytes were well formed. -/
def utf8Tail : Nat → Nat → Nat → Nat → Bytes → Option Nat × Nat
  | 0, _, _, value, _ => (some value, 0)
  | _ + 1, _, _, _, [] => (none, 0)
  | count + 1, lo, hi, value, b :: bs =>
      if lo ≤ b.toNat ∧ b.toNat ≤ hi then
        let next := utf8Tail count 0x80 0xBF (value * 64 + (b.toNat - 0x80)) bs
        (next.1, next.2 + 1)
      else (none, 0)

/-- The bits that a leading byte carries before its continuation bytes. -/
def utf8LeadBits (b : UInt8) (count : Nat) : Nat :=
  match count with
  | 0 => b.toNat
  | 1 => b.toNat - 0xC0
  | 2 => b.toNat - 0xE0
  | _ => b.toNat - 0xF0

/-- The first character of a sequence, or `none` for a maximal ill-formed part, and its bytes. -/
def utf8Next (b : UInt8) (bs : Bytes) : Option Char × Nat :=
  match utf8Lead b with
  | none => (none, 1)
  | some (count, lo, hi) =>
      let tail := utf8Tail count lo hi (utf8LeadBits b count) bs
      (tail.1.map Char.ofNat, tail.2 + 1)

/-- The characters of a sequence, with `none` for each maximal ill-formed part. -/
def utf8Chars : Nat → Bytes → List (Option Char)
  | 0, _ => []
  | _ + 1, [] => []
  | fuel + 1, b :: bs =>
      let next := utf8Next b bs
      next.1 :: utf8Chars fuel (bs.drop (next.2 - 1))

def fromUtf8 (bytes : Bytes) : Option Text :=
  (utf8Chars bytes.length bytes).mapM id

def fromUtf8Lossy (bytes : Bytes) : Text :=
  (utf8Chars bytes.length bytes).map fun c => c.getD (Char.ofNat 0xFFFD)

end NzRust
