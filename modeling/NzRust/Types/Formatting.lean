import NzRust.Sql.ByteScan
import NzRust.Types.NumericWords

/-!
# Texts that are cut by bytes

`parse_text_value` and the two printers of `NzValue`, with the slices, indices
and counters in them that can panic. A fraction of a second is cut behind a
fixed number of bytes, which need not be where a character ends.
-/

namespace NzRust.Formatting

open Checked Sql Numeric

variable {N : Numerics} (ops : NumberOps N)

/-! ## Times -/

/-- `&text[..n]`. -/
def sliceTo (text : Text) (n : Nat) : Exec NzError Text :=
  match strTo text n with
  | .ok front => .ok front
  | .error _ => panics

/-- `parse().ok()` of an `i64`, 0 where there is none. -/
def intOrZero (text : Option Text) : Int :=
  (text.bind (parseSigned 64)).getD 0

/-- `{:0<width$}`. -/
def padRight (width : Nat) (text : Text) : Text :=
  text.rightpad width '0'

/-- `{:0width$}` of a signed integer; the sign counts. -/
def signedPadded (width : Nat) (n : Int) : Text :=
  if n < 0 then '-' :: padded (width - 1) n.natAbs else padded width n.natAbs

structure TimeParts where
  h : Int
  m : Int
  sec : Int
  micros : Int
  deriving DecidableEq, Repr

def parseTimeText (s : Text) : Exec NzError TimeParts := do
  let parts := splitAt ':' s
  let secParts := splitAt '.' (parts[2]?.getD ['0'])
  let micros ←
    match secParts[1]? with
    | some frac => do
        let front ← sliceTo frac (min (byteLen frac) 6)
        pure (intOrZero (some (padRight 6 front)))
    | none => pure 0
  return ⟨intOrZero parts[0]?, intOrZero parts[1]?, intOrZero secParts[0]?, micros⟩

def normalizeTimeText (s : Text) : Exec NzError Text := do
  let t ← parseTimeText (trim s)
  let clock := signedPadded 2 t.h ++ ':' :: (signedPadded 2 t.m ++ ':' :: signedPadded 2 t.sec)
  return if 0 < t.micros then clock ++ '.' :: signedPadded 6 t.micros else clock

/-! ## Scalars -/

/-- `(byte as char).to_digit(16).unwrap_or(0)`. -/
def hexByte (b : UInt8) : Nat :=
  hexDigit (Char.ofNat b.toNat)

def isHexByte (b : UInt8) : Bool :=
  isHexDigit (Char.ofNat b.toNat)

/-- The loop over pairs of digits, with the bytes from `i` on; it reads `bytes[i + 1]`. -/
def hexLoop : Bytes → Exec NzError Bytes
  | [] => .ok []
  | [_] => panics
  | hi :: lo :: bytes => do
      let rest ← hexLoop bytes
      return UInt8.ofNat (hexByte hi * 16 + hexByte lo) :: rest

def stripHexPrefix : Text → Option Text
  | '\\' :: 'x' :: hex => some hex
  | '\\' :: 'X' :: hex => some hex
  | _ => none

def decodeByteaText (raw : Text) : Exec NzError Bytes :=
  let t := trim raw
  match stripHexPrefix t with
  | some hex =>
      if byteLen hex % 2 = 0 ∧ hex ≠ [] ∧ (toUtf8 hex).all isHexByte then hexLoop (toUtf8 hex)
      else .ok (toUtf8 t)
  | none => .ok (toUtf8 t)

/-- A parsed scalar, or the text that did not parse. -/
def orElse {α : Type} (make : α → NzValue N) (other : NzValue N) : Option α → NzValue N
  | some a => make a
  | none => other

def parseTextValue (raw : Text) (typeOid typeMod : Int) : Exec NzError (NzValue N) :=
  if typeOid = 16 then .ok (.bool (parseBoolText raw))
  else if typeOid = 21 ∨ typeOid = 2500 then
    .ok (orElse (fun n => .int2 (Int16.ofInt n)) (.text raw) (parseSigned 16 (trim raw)))
  else if typeOid = 23 ∨ typeOid = 26 ∨ typeOid = 28 then
    .ok (orElse (fun n => .int4 (Int32.ofInt n)) (.text raw) (parseSigned 32 (trim raw)))
  else if typeOid = 20 then
    .ok (orElse (fun n => .int8 (Int64.ofInt n)) (.numeric (trim raw)) (parseSigned 64 (trim raw)))
  else if typeOid = 700 then .ok (orElse .float4 (.text raw) (ops.parseF32 (trim raw)))
  else if typeOid = 701 then
    .ok (orElse .float8 (.text raw) ((ops.parseF64 (trim raw)).filter N.f64IsFinite))
  else if typeOid = 1700 then .ok (parseNumericText ops raw typeMod).value
  else if typeOid = 1082 then .ok (.date (trim raw))
  else if typeOid = 1083 then (normalizeTimeText raw).map .time
  else if typeOid = 1114 ∨ typeOid = 1184 ∨ typeOid = 702 then .ok (.timestamp (trim raw))
  else if typeOid = 1266 then .ok (.timetz (trim raw))
  else if typeOid = 1186 then .ok (.interval (trim raw))
  else if typeOid = 17 then (decodeByteaText raw).map .bytea
  else .ok (.text raw)

def tryParseTextValue (raw : Text) (typeOid typeMod : Int) : Exec NzError (NzValue N) :=
  if typeOid = 16 then
    let text := trim raw
    if parseBoolText text then .ok (.bool true)
    else if text == ['0'] || isAnyOf text ["f", "false", "no", "n"] then .ok (.bool false)
    else fail (invalidScalar typeOid)
  else if typeOid = 21 ∨ typeOid = 2500 then
    lift (scalar typeOid (fun n => .int2 (Int16.ofInt n)) (parseSigned 16 (trim raw)))
  else if typeOid = 23 then
    lift (scalar typeOid (fun n => .int4 (Int32.ofInt n)) (parseSigned 32 (trim raw)))
  else if typeOid = 26 ∨ typeOid = 28 then
    lift (scalar typeOid (fun n => .int8 (Int64.ofNat n)) (parseUnsigned 32 (trim raw)))
  else if typeOid = 20 then
    lift (scalar typeOid (fun n => .int8 (Int64.ofInt n)) (parseSigned 64 (trim raw)))
  else if typeOid = 700 then lift (scalar typeOid .float4 (ops.parseF32 (trim raw)))
  else if typeOid = 701 then lift (scalar typeOid .float8 (ops.parseF64 (trim raw)))
  else if typeOid = 1700 then
    match NzNumeric.parse (trim raw) with
    | .ok _ => parseTextValue ops raw typeOid typeMod
    | .error (.error _) => fail (invalidScalar typeOid)
    | .error .panic => panics
  else if typeOid = 1083 then .ok (.time (trim raw))
  else parseTextValue ops raw typeOid typeMod

/-! ## Printing -/

def hexTable : List Char := "0123456789abcdef".toList

def pushHex (out : Text) : Bytes → Exec NzError Text
  | [] => .ok out
  | byte :: bytes => do
      let hi ← index hexTable (byte >>> 4).toNat
      let lo ← index hexTable (byte &&& 0xF).toNat
      pushHex (out ++ [hi, lo]) bytes

def displayBool (b : Bool) : Text :=
  if b then "true".toList else "false".toList

/-- `fmt_f64`, both branches of which print the number as it is. -/
def fmtF64 (N : Numerics) (v : N.F64) : Text :=
  N.displayF64 v

def toDisplayString : NzValue N → Exec NzError Text
  | .null => .ok "NULL".toList
  | .bool b => .ok (displayBool b)
  | .int2 v => .ok (displayInt v.toInt)
  | .int4 v => .ok (displayInt v.toInt)
  | .int8 v => .ok (displayInt v.toInt)
  | .float4 v => .ok (fmtF64 N (N.f32ToF64 v))
  | .float8 v => .ok (fmtF64 N v)
  | .numeric s | .text s | .date s | .time s | .timetz s | .timestamp s | .interval s => .ok s
  | .decimal value => .ok (N.displayDecimal value)
  | .bytea b => pushHex "0x".toList b

/-- The two sides of a separator; all of the text, and nothing, where it has none. -/
def splitOrAll (sep : Char) (text : Text) : Text × Text :=
  (splitOnce sep text).getD (text, [])

def canonicalTimestamp (s : Text) : Exec NzError Text := do
  let (datePart, timePart) := splitOrAll ' ' s
  let (hms, frac) := splitOrAll '.' timePart
  let ms ←
    if frac = [] then pure "000".toList
    else do
      let front ← sliceTo frac (min (byteLen frac) 3)
      pure (padRight 3 front)
  return datePart ++ 'T' :: (hms ++ '.' :: (ms ++ ['Z']))

def toNodeCanonical : NzValue N → Exec NzError Text
  | .null => .ok "null".toList
  | .bool b => .ok (displayBool b)
  | .int2 v => .ok (displayInt v.toInt)
  | .int4 v => .ok (displayInt v.toInt)
  | .int8 v => .ok (displayInt v.toInt)
  | .float4 v => .ok (fmtF64 N (N.f32ToF64 v))
  | .float8 v => .ok (fmtF64 N v)
  | .numeric s | .text s | .interval s => .ok s
  | .decimal value => .ok (N.displayDecimal value)
  | .date s => .ok (s ++ "T00:00:00.000Z".toList)
  | .timestamp s => canonicalTimestamp s
  | .time s => .ok s
  | .timetz s => .ok s
  | .bytea b => do
      let out ← pushHex "E'\\\\x".toList b
      return out ++ ['\'']

/-! ## Where a text is cut -/

/-- A character, or the end, stands behind the first `n` bytes. -/
def CharStart (text : Text) (n : Nat) : Prop :=
  ∃ front rest, text = front ++ rest ∧ byteLen front = n

/-- The fraction that `parse_time_text` cuts. -/
def timeFraction (s : Text) : Option Text :=
  (splitAt '.' ((splitAt ':' s)[2]?.getD ['0']))[1]?

/-- The fraction that the canonical form of a timestamp cuts. -/
def timestampFraction (s : Text) : Text :=
  (splitOrAll '.' (splitOrAll ' ' s).2).2

/-- Nothing but digits and one point, with 2^31 digits of a value that an `i128` holds. -/
def Overlong (front : Text) : Prop :=
  (∀ c ∈ front, c.isDigit = true ∨ c = '.') ∧ front.count '.' ≤ 1 ∧
    (front.filter Char.isDigit).length = 2 ^ 31 ∧
    Nat.ofDigitChars 10 (front.filter Char.isDigit) 0 < 2 ^ 127

theorem strTo_ok {text front : Text} {n : Nat} (h : strTo text n = .ok front) :
    ∃ rest, text = front ++ rest ∧ byteLen front = n := by
  fun_induction strTo text n generalizing front with
  | case1 text =>
      cases h
      exact ⟨text, rfl, rfl⟩
  | case2 => cases h
  | case3 c cs i hfits ih =>
      cases hrest : strTo cs (i + 1 - c.utf8Size) with
      | error e =>
          rw [hrest] at h
          cases h
      | ok tail =>
          rw [hrest] at h
          cases h
          obtain ⟨rest, rfl, hlen⟩ := ih hrest
          refine ⟨rest, rfl, ?_⟩
          rw [byteLen_cons]
          omega
  | case4 => cases h

theorem sliceTo_returns {text : Text} {n : Nat} : sliceTo text n ≠ panics ↔ CharStart text n := by
  constructor
  · intro h
    rw [sliceTo] at h
    cases hto : strTo text n with
    | error e =>
        rw [hto] at h
        exact absurd rfl h
    | ok front =>
        obtain ⟨rest, htext, hlen⟩ := strTo_ok hto
        exact ⟨front, rest, htext, hlen⟩
  · rintro ⟨front, rest, rfl, rfl⟩
    rw [sliceTo, strTo_append]
    exact nofun

/-- A cut behind the first `n` bytes, or at the end of a shorter text. -/
theorem sliceTo_min {text : Text} {n : Nat} :
    sliceTo text (min (byteLen text) n) ≠ panics ↔ (n < byteLen text → CharStart text n) := by
  rw [sliceTo_returns]
  rcases Nat.lt_or_ge n (byteLen text) with hlt | hge
  · rw [Nat.min_eq_right (Nat.le_of_lt hlt)]
    exact ⟨fun h _ => h, fun h => h hlt⟩
  · rw [Nat.min_eq_left hge]
    have hend : CharStart text (byteLen text) := ⟨text, [], (List.append_nil text).symm, rfl⟩
    exact iff_of_true hend fun hlt => absurd hlt (Nat.not_lt.mpr hge)

theorem bind_returns {α β : Type} {x : Exec NzError α} {g : α → β} :
    (x >>= fun a => pure (g a)) ≠ panics ↔ x ≠ panics := by
  cases x with
  | ok a => exact iff_of_true nofun nofun
  | error e =>
      cases e with
      | error e => exact iff_of_true nofun nofun
      | panic => exact iff_of_false (fun h => h rfl) (fun h => h rfl)

theorem map_returns {α β : Type} {x : Exec NzError α} {f : α → β} :
    x.map f ≠ panics ↔ x ≠ panics := by
  cases x with
  | ok a => exact iff_of_true nofun nofun
  | error e =>
      cases e with
      | error e => exact iff_of_true nofun nofun
      | panic => exact iff_of_false (fun h => h rfl) (fun h => h rfl)

theorem lift_returns {α : Type} (x : NzResult α) : (lift x : Exec NzError α) ≠ panics :=
  (lift_safe x).no_panic

theorem ite_returns {α : Type} {c : Prop} [Decidable c] {x y : Exec NzError α}
    (hx : c → x ≠ panics) (hy : ¬ c → y ≠ panics) : (if c then x else y) ≠ panics := by
  by_cases hc : c
  · rw [if_pos hc]
    exact hx hc
  · rw [if_neg hc]
    exact hy hc

theorem parseTimeText_returns {s : Text} : parseTimeText s ≠ panics ↔
    ∀ frac, timeFraction s = some frac → 6 < byteLen frac → CharStart frac 6 := by
  rw [parseTimeText, timeFraction]
  dsimp only
  cases (splitAt '.' ((splitAt ':' s)[2]?.getD ['0']))[1]? with
  | none => exact iff_of_true nofun nofun
  | some frac =>
      simp only [pure_bind]
      rw [bind_returns, sliceTo_min]
      simp

theorem normalizeTimeText_returns {s : Text} : normalizeTimeText s ≠ panics ↔
    ∀ frac, timeFraction (trim s) = some frac → 6 < byteLen frac → CharStart frac 6 := by
  rw [normalizeTimeText]
  dsimp only
  rw [bind_returns, parseTimeText_returns]

/-! ## Hexadecimal digits -/

theorem hexLoop_returns {bytes : Bytes} (h : bytes.length % 2 = 0) : hexLoop bytes ≠ panics := by
  fun_induction hexLoop bytes with
  | case1 => exact nofun
  | case2 => simp at h
  | case3 hi lo bytes ih =>
      rw [bind_returns]
      apply ih
      simp only [List.length_cons] at h
      omega

theorem decodeByteaText_returns (raw : Text) : decodeByteaText raw ≠ panics := by
  rw [decodeByteaText]
  cases stripHexPrefix (trim raw) with
  | none => exact nofun
  | some hex =>
      dsimp only
      split_ifs with h
      · exact hexLoop_returns h.1
      · exact nofun

theorem index_hexTable {n : Nat} (h : n < 16) :
    (index hexTable n : Exec NzError Char) = .ok (Nat.digitChar n) := by
  revert n
  decide

/-- The digits that `push_hex` appends. -/
def hexText (bytes : Bytes) : Text :=
  bytes.flatMap fun b => [Nat.digitChar (b.toNat / 16), Nat.digitChar (b.toNat % 16)]

theorem pushHex_eq (out : Text) (bytes : Bytes) : pushHex out bytes = .ok (out ++ hexText bytes) := by
  induction bytes generalizing out with
  | nil => simp [pushHex, hexText]
  | cons b bytes ih =>
      have hb : b.toNat < 256 := b.toNat_lt
      have hhi : (b >>> 4).toNat = b.toNat / 16 := by
        rw [UInt8.toNat_shiftRight, Nat.shiftRight_eq_div_pow]
        rfl
      have hlo : (b &&& 0xF).toNat = b.toNat % 16 := by
        rw [UInt8.toNat_and]
        exact Nat.and_two_pow_sub_one_eq_mod b.toNat 4
      rw [pushHex, hhi, hlo, index_hexTable (by omega), ok_bind, index_hexTable (by omega), ok_bind,
        ih, hexText, hexText, List.flatMap_cons, List.append_assoc]

/-! ## The counter of digits -/

/-- The same, of a scan that has seen some of it. -/
def OverlongFrom (s : NumericScan) (front : Text) : Prop :=
  (∀ c ∈ front, c.isDigit = true ∨ c = '.') ∧ front.count '.' + s.point.toNat ≤ 1 ∧
    s.count + (front.filter Char.isDigit).length = 2 ^ 31 ∧
    Nat.ofDigitChars 10 (front.filter Char.isDigit) s.coefficient < 2 ^ 127

def Overlongs (s : NumericScan) (text : Text) : Prop :=
  ∃ front rest, text = front ++ rest ∧ OverlongFrom s front

theorem overlongs_cons {s : NumericScan} {c : Char} {cs : Text} (hcount : s.count < 2 ^ 31) :
    Overlongs s (c :: cs) ↔ ∃ front rest, cs = front ++ rest ∧ OverlongFrom s (c :: front) := by
  constructor
  · rintro ⟨front, rest, htext, hfront⟩
    cases front with
    | nil =>
        have hlen : s.count + 0 = 2 ^ 31 := hfront.2.2.1
        omega
    | cons d front =>
        obtain ⟨rfl, rfl⟩ := List.cons.inj htext
        exact ⟨front, rest, rfl, hfront⟩
  · rintro ⟨front, rest, rfl, hfront⟩
    exact ⟨c :: front, rest, rfl, hfront⟩

theorem overlongFrom_point {s : NumericScan} (h : s.point = false) (front : Text) :
    OverlongFrom s ('.' :: front) ↔ OverlongFrom { s with point := true } front := by
  simp [OverlongFrom, h]

theorem overlongFrom_other {s : NumericScan} {c : Char} (hdigit : c.isDigit = false)
    (hpoint : ¬ (c = '.' ∧ s.point = false)) (front : Text) : ¬ OverlongFrom s (c :: front) := by
  rintro ⟨hchars, hcount, -⟩
  rcases hchars c List.mem_cons_self with h | rfl
  · rw [h] at hdigit
    cases hdigit
  · have htrue : s.point = true := by simpa using hpoint
    rw [List.count_cons_self, htrue] at hcount
    exact absurd hcount (by simp)

/-- The scan behind a digit. -/
def pushed (s : NumericScan) (c : Char) : NumericScan :=
  { s with
    coefficient := s.coefficient * 10 + (c.toNat - 48)
    count := s.count + 1
    scale := if s.point then s.scale + 1 else s.scale }

theorem overlongFrom_digit {s : NumericScan} {c : Char} (h : c.isDigit = true) (front : Text) :
    OverlongFrom s (c :: front) ↔ OverlongFrom (pushed s c) front := by
  have hne : c ≠ '.' := by
    rintro rfl
    cases h
  have hzero : '0'.toNat = 48 := rfl
  rw [OverlongFrom, OverlongFrom, List.filter_cons_of_pos h, Nat.ofDigitChars_cons, List.length_cons,
    List.forall_mem_cons, List.count_cons_of_ne hne, hzero, Nat.mul_comm 10,
    Nat.add_comm _ 1, ← Nat.add_assoc]
  simp only [h, true_or, true_and, pushed]

theorem push_digit {s : NumericScan} {c : Char} (h : c.isDigit = true)
    (hcount : s.count < 2 ^ 31) (hscale : s.scale ≤ s.count) :
    s.push c =
      if (pushed s c).coefficient < 2 ^ 127 then
        if s.count + 1 < 2 ^ 31 then .ok (pushed s c) else panics
      else fail coefficientOverflow := by
  have hpoint : ¬ (c = '.' ∧ s.point = false) := by
    rintro ⟨rfl, -⟩
    cases h
  rw [NumericScan.push, if_neg hpoint, if_neg (by simp [h]), pushed]
  dsimp only
  by_cases htens : s.coefficient * 10 < 2 ^ 127
  · rw [mulChecked, if_pos htens, orFail, ok_bind]
    by_cases hsum : s.coefficient * 10 + (c.toNat - 48) < 2 ^ 127
    · have hword : (if s.point then addWord 32 s.scale 1 else .ok s.scale : Exec NzError Nat) =
          .ok (if s.point then s.scale + 1 else s.scale) := by
        split
        · exact addWord_eq (by omega)
        · rfl
      rw [addChecked, if_pos hsum, if_pos hsum, orFail, ok_bind, hword]
      by_cases hfits : s.count + 1 < 2 ^ 31
      · rw [addWord, if_pos hfits, if_pos hfits]
        rfl
      · rw [addWord, if_neg hfits, if_neg hfits]
        rfl
    · rw [addChecked, if_neg hsum, if_neg hsum]
      rfl
  · have hsum : ¬ s.coefficient * 10 + (c.toNat - 48) < 2 ^ 127 := by omega
    rw [mulChecked, if_neg htens, if_neg hsum]
    rfl

theorem pushed_overflow {s : NumericScan} {c : Char} {front : Text}
    (h : OverlongFrom (pushed s c) front) : (pushed s c).coefficient < 2 ^ 127 :=
  Nat.lt_of_le_of_lt (le_ofDigitChars _ _) h.2.2.2

/-- The scan panics where the counter of its digits overflows. -/
theorem scan_panics {s : NumericScan} {text : Text} (hcount : s.count < 2 ^ 31)
    (hscale : s.scale ≤ s.count) : s.scan text = panics ↔ Overlongs s text := by
  induction text generalizing s with
  | nil =>
      have hends : s.scan [] ≠ panics := by
        intro h
        cases h
      refine iff_of_false hends ?_
      rintro ⟨front, rest, htext, hfront⟩
      obtain ⟨rfl, rfl⟩ := List.nil_eq_append_iff.mp htext
      have hlen : s.count + 0 = 2 ^ 31 := hfront.2.2.1
      omega
  | cons c cs ih =>
      rw [NumericScan.scan, overlongs_cons hcount]
      by_cases hpoint : c = '.' ∧ s.point = false
      · obtain ⟨rfl, hfalse⟩ := hpoint
        rw [NumericScan.push, if_pos ⟨rfl, hfalse⟩, ok_bind,
          ih (s := { s with point := true }) hcount hscale, Overlongs]
        simp only [overlongFrom_point hfalse]
      cases hdigit : c.isDigit with
      | false =>
          rw [NumericScan.push, if_neg hpoint, if_pos (by simp [hdigit])]
          refine iff_of_false (fun h => by cases h) ?_
          rintro ⟨front, rest, -, hfront⟩
          exact overlongFrom_other hdigit hpoint front hfront
      | true =>
          rw [push_digit hdigit hcount hscale]
          simp only [overlongFrom_digit hdigit]
          split_ifs with hfits hword
          · have hscale' : (pushed s c).scale ≤ (pushed s c).count := by
              rw [pushed]
              dsimp only
              split <;> omega
            rw [ok_bind, ih hword hscale', Overlongs]
          · refine iff_of_true rfl ⟨[], cs, rfl, fun _ hmem => absurd hmem List.not_mem_nil, ?_, ?_, hfits⟩
            · rw [List.count_nil, Nat.zero_add]
              exact Bool.toNat_le _
            · have hlen : s.count + 1 + 0 = 2 ^ 31 := by omega
              exact hlen
          · refine iff_of_false (fun h => by cases h) ?_
            rintro ⟨front, rest, -, hfront⟩
            exact hfits (pushed_overflow hfront)

theorem scan_coefficient {s t : NumericScan} {text : Text} (hs : s.coefficient < 2 ^ 127)
    (hcount : s.count < 2 ^ 31) (hscale : s.scale ≤ s.count) (h : s.scan text = .ok t) :
    t.coefficient < 2 ^ 127 := by
  induction text generalizing s with
  | nil =>
      cases h
      exact hs
  | cons c cs ih =>
      obtain ⟨u, hpush, hscan⟩ := bind_ok h
      by_cases hpoint : c = '.' ∧ s.point = false
      · rw [NumericScan.push, if_pos hpoint] at hpush
        cases hpush
        exact ih (s := { s with point := true }) hs hcount hscale hscan
      cases hdigit : c.isDigit with
      | false =>
          rw [NumericScan.push, if_neg hpoint, if_pos (by simp [hdigit])] at hpush
          cases hpush
      | true =>
          rw [push_digit hdigit hcount hscale] at hpush
          split_ifs at hpush with hfits hword
          · cases hpush
            refine ih hfits hword ?_ hscan
            rw [pushed]
            dsimp only
            split <;> omega
          · cases hpush
          · cases hpush

theorem parse_returns {input : Text} :
    NzNumeric.parse input ≠ panics ↔
      ∀ front rest, (splitSign input).2 = front ++ rest → ¬ Overlong front := by
  have hscan := @scan_panics {} (splitSign input).2 (by decide) (by decide)
  have hplain : Overlongs {} (splitSign input).2 ↔
      ∃ front rest, (splitSign input).2 = front ++ rest ∧ Overlong front := by
    simp [Overlongs, OverlongFrom, Overlong]
  rw [hplain] at hscan
  have hnone : (∀ front rest, (splitSign input).2 = front ++ rest → ¬ Overlong front) ↔
      NumericScan.scan {} (splitSign input).2 ≠ panics := by
    rw [Ne, hscan]
    simp only [not_exists, not_and]
  rw [hnone, NzNumeric.parse]
  cases hs : NumericScan.scan {} (splitSign input).2 with
  | error e =>
      cases e with
      | error e => exact iff_of_true nofun nofun
      | panic => exact iff_of_false (fun h => h rfl) (fun h => h rfl)
  | ok t =>
      have ht := scan_coefficient (by decide) (by decide) (by decide) hs
      refine iff_of_true ?_ nofun
      rw [ok_bind]
      split_ifs with hzero hminus
      · exact nofun
      · rw [int_eq (by omega) (by omega), ok_bind]
        exact lift_returns _
      · rw [ok_bind]
        exact lift_returns _

/-! ## Which calls return -/

/-- No character of the fraction lies across the cut of `parse_time_text`. -/
def TimeCuts (raw : Text) : Prop :=
  ∀ frac, timeFraction (trim raw) = some frac → 6 < byteLen frac → CharStart frac 6

/-- The digits of a NUMERIC text can be counted in an `i32`. -/
def NumericCounts (raw : Text) : Prop :=
  ∀ front rest, (splitSign (trim raw)).2 = front ++ rest → ¬ Overlong front

/-- No character of the fraction lies across the cut of the canonical form. -/
def TimestampCuts (s : Text) : Prop :=
  3 < byteLen (timestampFraction s) → CharStart (timestampFraction s) 3

theorem parseTextValue_returns (raw : Text) (typeOid typeMod : Int) :
    parseTextValue ops raw typeOid typeMod ≠ panics ↔ (typeOid = 1083 → TimeCuts raw) := by
  by_cases hoid : typeOid = 1083
  · subst hoid
    have hvalue : parseTextValue ops raw 1083 typeMod = (normalizeTimeText raw).map .time := rfl
    rw [hvalue, map_returns, normalizeTimeText_returns]
    exact ⟨fun h _ => h, fun h => h rfl⟩
  · refine iff_of_true ?_ fun h => absurd h hoid
    rw [parseTextValue]
    iterate 8 refine ite_returns (fun _ => nofun) fun _ => ?_
    refine ite_returns (fun h => absurd h hoid) fun _ => ?_
    iterate 3 refine ite_returns (fun _ => nofun) fun _ => ?_
    exact ite_returns (fun _ => map_returns.mpr (decodeByteaText_returns raw)) fun _ => nofun

theorem tryParseTextValue_returns (raw : Text) (typeOid typeMod : Int) :
    tryParseTextValue ops raw typeOid typeMod ≠ panics ↔
      (typeOid = 1700 → NumericCounts raw) := by
  by_cases hoid : typeOid = 1700
  · subst hoid
    have hvalue : tryParseTextValue ops raw 1700 typeMod =
        match NzNumeric.parse (trim raw) with
        | .ok _ => parseTextValue ops raw 1700 typeMod
        | .error (.error _) => fail (invalidScalar 1700)
        | .error .panic => panics := rfl
    have hparse := @parse_returns (trim raw)
    rw [hvalue, NumericCounts, ← hparse]
    cases NzNumeric.parse (trim raw) with
    | ok n =>
        refine iff_of_true ?_ fun _ => nofun
        exact (parseTextValue_returns ops raw 1700 typeMod).mpr fun h => absurd h (by decide)
    | error e =>
        cases e with
        | error e => exact iff_of_true nofun fun _ => nofun
        | panic => exact iff_of_false (fun h => h rfl) (fun h => h rfl rfl)
  · refine iff_of_true ?_ fun h => absurd h hoid
    rw [tryParseTextValue]
    refine ite_returns (fun _ => ?_) fun _ => ?_
    · exact ite_returns (fun _ => nofun) fun _ => ite_returns (fun _ => nofun) fun _ => nofun
    iterate 6 refine ite_returns (fun _ => lift_returns _) fun _ => ?_
    refine ite_returns (fun h => absurd h hoid) fun _ => ?_
    refine ite_returns (fun _ => nofun) fun htime => ?_
    exact (parseTextValue_returns ops raw typeOid typeMod).mpr fun h => absurd h htime

/-- What `to_display_string` prints. -/
def displayText : NzValue N → Text
  | .null => "NULL".toList
  | .bool b => displayBool b
  | .int2 v => displayInt v.toInt
  | .int4 v => displayInt v.toInt
  | .int8 v => displayInt v.toInt
  | .float4 v => fmtF64 N (N.f32ToF64 v)
  | .float8 v => fmtF64 N v
  | .numeric s | .text s | .date s | .time s | .timetz s | .timestamp s | .interval s => s
  | .decimal value => N.displayDecimal value
  | .bytea b => "0x".toList ++ hexText b

theorem toDisplayString_eq (v : NzValue N) : toDisplayString v = .ok (displayText v) := by
  cases v with
  | bytea b => exact pushHex_eq _ b
  | _ => rfl

theorem canonicalTimestamp_returns (s : Text) : canonicalTimestamp s ≠ panics ↔ TimestampCuts s := by
  rw [canonicalTimestamp, TimestampCuts, timestampFraction]
  dsimp only
  by_cases hfrac : (splitOrAll '.' (splitOrAll ' ' s).2).2 = []
  · rw [if_pos hfrac, hfrac]
    exact iff_of_true nofun nofun
  · rw [if_neg hfrac]
    simp only [pure_bind]
    rw [bind_returns, sliceTo_min]

theorem toNodeCanonical_returns (v : NzValue N) :
    toNodeCanonical v ≠ panics ↔ ∀ s, v = .timestamp s → TimestampCuts s := by
  cases v with
  | timestamp s =>
      have hvalue : toNodeCanonical (.timestamp s : NzValue N) = canonicalTimestamp s := rfl
      rw [hvalue, canonicalTimestamp_returns]
      constructor
      · rintro h t ht
        cases ht
        exact h
      · exact fun h => h s rfl
  | bytea b =>
      refine iff_of_true ?_ nofun
      rw [toNodeCanonical, pushHex_eq]
      exact nofun
  | _ => exact iff_of_true nofun nofun

/-- Parsing and printing return, for any text and any value, where no cut falls into a character
and the digits of a NUMERIC text can be counted. -/
theorem formatting_returns_iff (raw : Text) (typeOid typeMod : Int) (v : NzValue N) :
    (parseTextValue ops raw typeOid typeMod ≠ panics ∧
      tryParseTextValue ops raw typeOid typeMod ≠ panics ∧
      toDisplayString v ≠ panics ∧ toNodeCanonical v ≠ panics) ↔
    (typeOid = 1083 → TimeCuts raw) ∧ (typeOid = 1700 → NumericCounts raw) ∧
      ∀ s, v = .timestamp s → TimestampCuts s := by
  rw [parseTextValue_returns, tryParseTextValue_returns, toNodeCanonical_returns,
    toDisplayString_eq]
  exact ⟨fun h => ⟨h.1, h.2.1, h.2.2.2⟩, fun h => ⟨h.1, h.2.1, nofun, h.2.2⟩⟩

/-- A TIME whose sixth byte of fraction lies inside a character. -/
theorem time_fraction_panics :
    ¬ ∀ (raw : Text) (typeOid typeMod : Int) (v : NzValue pairNumerics),
      parseTextValue pairOps raw typeOid typeMod ≠ panics ∧
        tryParseTextValue pairOps raw typeOid typeMod ≠ panics ∧
        toDisplayString v ≠ panics ∧ toNodeCanonical v ≠ panics := by
  intro h
  exact (h "10:12:13.12345é".toList 1083 (-1) .null).1 rfl

example : toNodeCanonical (.timestamp "2024-01-02 03:04:05.12é".toList : NzValue pairNumerics) =
    panics := rfl

end NzRust.Formatting
