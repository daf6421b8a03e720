import NzRust.Types.Numeric

/-!
# Values in text

The scalars of the text protocol by type OID. The checked decoder rejects a
malformed scalar where the plain one keeps its text.
-/

namespace NzRust

/-- The UTF-8 bytes of a text. -/
def toUtf8 (text : Text) : Bytes :=
  text.flatMap String.utf8EncodeChar

def isAnyOf (text : Text) (words : List String) : Bool :=
  words.any fun word => text.map Char.toLower == word.toList

def parseBoolText (raw : Text) : Bool :=
  let t := trim raw
  t == ['1'] || isAnyOf t ["t", "true", "yes", "y"]

/-! ## NUMERIC -/

/-- The coefficient and the scale of a decimal text: whether the point was seen, the digits so far. -/
structure NumericScan where
  coefficient : Nat := 0
  scale : Nat := 0
  point : Bool := false
  count : Nat := 0

def NumericScan.step (s : NumericScan) (c : Char) : Option NumericScan :=
  if c = '.' ∧ s.point = false then some { s with point := true }
  else if !c.isDigit then none
  else
    let coefficient := s.coefficient * 10 + (c.toNat - 48)
    if coefficient < 2 ^ 127 then
      some { s with
        coefficient := coefficient
        count := s.count + 1
        scale := if s.point then s.scale + 1 else s.scale }
    else none

def NumericScan.run (s : NumericScan) : Text → Option NumericScan
  | [] => some s
  | c :: cs => (s.step c).bind fun s => s.run cs

/-- `str::parse::<NzNumeric>` succeeds: at most 38 digits and decimals. -/
def isNzNumeric (input : Text) : Bool :=
  match NumericScan.run {} (splitSign input).2 with
  | none => false
  | some s => decide (s.count ≠ 0 ∧ s.coefficient < 10 ^ 38 ∧ s.scale ≤ 38)

section Values

variable {N : Numerics} (ops : NumberOps N)

/-- A plain decimal: an optional minus, digits and points, with at least one digit. -/
def isPlainDecimal (text : Text) : Bool :=
  let digits := match text with
    | '-' :: rest => rest
    | _ => text
  !text.isEmpty && digits.all (fun c => c.isDigit || c == '.') && text.any Char.isDigit

def parseNumericText (value : Text) (typeMod : Int) : NumericDecoded N :=
  let trimmed := trim value
  let precision := if 16 < typeMod then (typeMod - 16) / 65536 else 0
  let exact : NumericDecoded N :=
    if 1 ≤ precision ∧ precision ≤ 28 then
      match ops.parseDecimal trimmed with
      | some value => .decimal value
      | none => .exact trimmed
    else .exact trimmed
  match ops.parseF64 trimmed with
  | none => exact
  | some num =>
      if N.f64IsFinite num = false then exact
      else if precision = 0 then
        if isPlainDecimal trimmed ∧ N.displayF64 num = trimmed then .number num else exact
      else if precision ≤ 15 ∧ N.displayF64 num = trimmed then .number num
      else exact

/-! ## BYTEA -/

def hexDigit (c : Char) : Nat :=
  if c.isDigit then c.toNat - 48
  else if 'a' ≤ c ∧ c ≤ 'f' then c.toNat - 87
  else if 'A' ≤ c ∧ c ≤ 'F' then c.toNat - 55
  else 0

def isHexDigit (c : Char) : Bool :=
  c.isDigit || decide ('a' ≤ c ∧ c ≤ 'f') || decide ('A' ≤ c ∧ c ≤ 'F')

def decodeHex : Text → Bytes
  | hi :: lo :: rest => UInt8.ofNat (hexDigit hi * 16 + hexDigit lo) :: decodeHex rest
  | _ => []

/-- `\x` and hexadecimal digits, or the bytes of the text itself. -/
def decodeByteaText (raw : Text) : Bytes :=
  let t := trim raw
  match t with
  | '\\' :: c :: hex =>
      if (c = 'x' ∨ c = 'X') ∧ hex.length % 2 = 0 ∧ hex ≠ [] ∧ hex.all isHexDigit then decodeHex hex
      else toUtf8 t
  | _ => toUtf8 t

/-! ## Scalars -/

/-- The types that the checked decoder leaves to `parse_text_value`, apart from NUMERIC. -/
def parseTextValue (raw : Text) (typeOid : Int) : NzValue N :=
  if typeOid = 1082 then .date (trim raw)
  else if typeOid = 1114 ∨ typeOid = 1184 ∨ typeOid = 702 then .timestamp (trim raw)
  else if typeOid = 1266 then .timetz (trim raw)
  else if typeOid = 1186 then .interval (trim raw)
  else if typeOid = 17 then .bytea (decodeByteaText raw)
  else .text raw

def invalidScalar (typeOid : Int) : NzError :=
  .protocol s!"invalid text scalar for OID {typeOid}"

/-- `ok_or_else(invalid)` of a parsed scalar. -/
def scalar {α : Type} (typeOid : Int) (make : α → NzValue N) : Option α → NzResult (NzValue N)
  | some a => .ok (make a)
  | none => .error (invalidScalar typeOid)

def tryParseTextValue (raw : Text) (typeOid typeMod : Int) : NzResult (NzValue N) :=
  if typeOid = 16 then
    let text := trim raw
    if parseBoolText text then .ok (.bool true)
    else if text == ['0'] || isAnyOf text ["f", "false", "no", "n"] then .ok (.bool false)
    else .error (invalidScalar typeOid)
  else if typeOid = 21 ∨ typeOid = 2500 then
    scalar typeOid (fun n => .int2 (Int16.ofInt n)) (parseSigned 16 (trim raw))
  else if typeOid = 23 then
    scalar typeOid (fun n => .int4 (Int32.ofInt n)) (parseSigned 32 (trim raw))
  else if typeOid = 26 ∨ typeOid = 28 then
    scalar typeOid (fun n => .int8 (Int64.ofNat n)) (parseUnsigned 32 (trim raw))
  else if typeOid = 20 then
    scalar typeOid (fun n => .int8 (Int64.ofInt n)) (parseSigned 64 (trim raw))
  else if typeOid = 700 then scalar typeOid .float4 (ops.parseF32 (trim raw))
  else if typeOid = 701 then scalar typeOid .float8 (ops.parseF64 (trim raw))
  else if typeOid = 1700 then
    if isNzNumeric (trim raw) then .ok (parseNumericText ops raw typeMod).value
    else .error (invalidScalar typeOid)
  else if typeOid = 1083 then .ok (.time (trim raw))
  else .ok (parseTextValue raw typeOid)

end Values

end NzRust
