import NzRust.Row.Dbos
import NzRust.Types.NumericWords

/-!
# NUMERIC cells read from rows

`NzNumeric::from_raw` on a lazy row goes to the bytes of a cell. On an eager row
it is left with what the cell was decoded to, and a float is brought back by
`Decimal::from_f64`, which has its own limits: 96 bits and 28 decimals.
-/

namespace NzRust

open ByteString Checked

/-! ## The cell of a row -/

/-- A cell as the typed getters see it. -/
structure RawValue (N : Numerics) where
  bytes : Option Bytes
  decoded : Option (NzValue N)
  typeOid : Int
  typeMod : Int
  format : UInt8
  dbos : Option (DbosTupleDesc × Bytes × Nat × Nat)

namespace RawValue

variable {N : Numerics} (ops : NumberOps N)

def isNull (v : RawValue N) : Bool :=
  match v.decoded with
  | some .null => true
  | some _ => false
  | none => v.bytes.isNone

def toNzValue (v : RawValue N) : Exec NzError (NzValue N) :=
  match v.decoded with
  | some value => .ok value
  | none =>
      if v.isNull then .ok .null
      else
        match v.dbos with
        | some (desc, row, offset, i) => do
            let f ← index desc.fields i
            DbosTupleDesc.parseField ops row offset i f
        | none => do
            let bytes ← orFail (.config "cannot decode SQL NULL as a value") v.bytes
            if v.format ≠ 0 then
              fail (.unsupported "direct binary FromSql decoding requires a typed Row context")
            else
              let text ← orFail (.protocol "invalid UTF-8 field") (fromUtf8 bytes)
              lift (tryParseTextValue ops text v.typeOid v.typeMod)

/-- The decoded values whose text or bytes are those of the wire. -/
def eagerCellBytes (value : NzValue N) (dbos : Option DbosTupleDesc) (column : ColumnDesc)
    (position : Nat) : Option Bytes :=
  match value with
  | .text text =>
      match dbos with
      | some desc =>
          if (desc.fields[position]?).any (fun f => decide (f.kind = .varchar)) then
            some (toUtf8 text)
          else none
      | none => if column.format = 0 then some (toUtf8 text) else none
  | .bytea bytes => if dbos.isSome then some bytes else none
  | _ => none

/-- The cell of a row that was decoded as a whole. -/
def eager (value : NzValue N) (dbos : Option DbosTupleDesc) (column : ColumnDesc)
    (position : Nat) : RawValue N :=
  ⟨eagerCellBytes value dbos column position, some value, column.typeOid, column.typeMod,
    column.format, none⟩

/-- The cell of a lazy text row. -/
def lazyText (column : ColumnDesc) (bytes : Bytes) : RawValue N :=
  ⟨some bytes, none, column.typeOid, column.typeMod, column.format, none⟩

/-- The cell of a lazy binary row, with the bytes of its field. -/
def lazyDbos (column : ColumnDesc) (bytes : Bytes) (desc : DbosTupleDesc) (row : Bytes)
    (offset position : Nat) : RawValue N :=
  ⟨some bytes, none, column.typeOid, column.typeMod, 1, some (desc, row, offset, position)⟩

end RawValue

/-! ## The exact getter -/

namespace NzNumeric

/-- The words behind the first one, shifted in with checks. -/
def shiftWords (coefficient : Int) : List Nat → Exec NzError Int
  | [] => .ok coefficient
  | word :: words => do
      let shifted ← orFail (.protocol "NUMERIC coefficient overflow")
        (intChecked 128 (coefficient * 2 ^ 32))
      let next ← orFail (.protocol "NUMERIC coefficient overflow")
        (intChecked 128 (shifted + word))
      shiftWords next words

/-- The words of a field in a binary row. -/
def fromDbos (desc : DbosTupleDesc) (row : Bytes) (offset i : Nat) : Exec NzError NzNumeric := do
  let f ← index desc.fields i
  if f.fieldType ≠ 7 then fail (.config "field is not NUMERIC")
  else if f.trueSize < 0 then fail (.protocol "invalid NUMERIC size")
  else
    let length := f.trueSize.toNat
    let bytes ← orFail (.protocol "truncated NUMERIC field")
      ((addChecked 64 offset length).bind fun stop => getSlice row offset stop)
    if length = 0 ∨ length % 4 ≠ 0 ∨ 20 < length then fail (.protocol "invalid NUMERIC word count")
    else
      let first ← slice bytes 0 4
      let coefficient ← shiftWords (leInt first) (Numeric.wordsOf (length / 4 - 1) (bytes.drop 4))
      if DbosTupleDesc.fieldScale f.size < 0 then fail (.protocol "invalid NUMERIC scale")
      else lift (NzNumeric.new coefficient (DbosTupleDesc.fieldScale f.size).toNat)

section Reads

variable {N : Numerics} (ops : NumberOps N) (mantissa : N.Decimal → Int)

def ofDecimal (value : N.Decimal) : Exec NzError NzNumeric :=
  lift (NzNumeric.new (mantissa value) (ops.decimalScale value))

def notExact : NzError :=
  .config "value is not exact NUMERIC"

def ofFloat (number : N.F64) : Exec NzError NzNumeric := do
  let decimal ← orFail notExact (ops.decimalOfF64 number)
  ofDecimal ops mantissa decimal

/-- `from_sql`. -/
def fromSql : NzValue N → Exec NzError NzNumeric
  | .numeric text => NzNumeric.parse text
  | .decimal value => ofDecimal ops mantissa value
  | _ => fail notExact

/-- What a decoded value of a NUMERIC column is read as. -/
def fromDecoded : NzValue N → Exec NzError NzNumeric
  | .float8 number => ofFloat ops mantissa number
  | .float4 number => ofFloat ops mantissa (N.f32ToF64 number)
  | .int2 number => lift (NzNumeric.new number.toInt 0)
  | .int4 number => lift (NzNumeric.new number.toInt 0)
  | .int8 number => lift (NzNumeric.new number.toInt 0)
  | value => fromSql ops mantissa value

/-- `from_raw`. -/
def fromRaw (v : RawValue N) : Exec NzError NzNumeric :=
  if v.isNull then fail (.config "cannot decode NULL as NUMERIC")
  else
    match v.dbos with
    | some (desc, row, offset, i) => fromDbos desc row offset i
    | none =>
        match (if v.format = 0 ∧ v.typeOid = 1700 then v.bytes else none) with
        | some bytes => do
            let text ← orFail (.protocol "invalid NUMERIC text") (fromUtf8 bytes)
            NzNumeric.parse text
        | none =>
            match (if v.typeOid = 1700 then v.decoded else none) with
            | some value => fromDecoded ops mantissa value
            | none => do
                let value ← v.toNzValue ops
                fromSql ops mantissa value

end Reads

/-! ## The words of a lazy field -/

theorem signed_words {word rest : Nat} (count : Nat) (hrest : rest < (2 ^ 32) ^ count) :
    signed 32 word * ((2 ^ 32) ^ count : Nat) + rest =
      signed (32 * (count + 1)) (word * (2 ^ 32) ^ count + rest) := by
  have hhalf : 2 ^ (32 * (count + 1) - 1) = 2 ^ 31 * (2 ^ 32) ^ count := by
    rw [Numeric.words_pow, ← pow_add]
    congr 1
    omega
  have hfull : (2 : Int) ^ (32 * (count + 1)) = 2 ^ 32 * ((2 ^ 32) ^ count : Nat) := by
    rw [Numeric.words_pow, Nat.cast_pow, Nat.cast_ofNat, Nat.mul_succ, pow_add, mul_comm]
  unfold signed
  rw [hhalf, hfull]
  generalize (2 ^ 32) ^ count = power at *
  have hsign : word * power + rest < 2 ^ 31 * power ↔ word < 2 ^ (32 - 1) := by
    constructor
    · intro hlow
      by_contra hnot
      have hmul : 2 ^ 31 * power ≤ word * power :=
        Nat.mul_le_mul_right power (Nat.le_of_not_lt hnot)
      omega
    · intro hlow
      have hmul : (word + 1) * power ≤ 2 ^ 31 * power := Nat.mul_le_mul_right power hlow
      rw [Nat.succ_mul] at hmul
      omega
  by_cases hlow : word < 2 ^ (32 - 1)
  · rw [if_pos hlow, if_pos (hsign.mpr hlow)]
    push_cast
    rfl
  · rw [if_neg hlow, if_neg (fun h => hlow (hsign.mp h))]
    push_cast
    ring

theorem first_words (data : Bytes) (count : Nat) (h : 4 ≤ data.length) :
    leInt (data.take 4) * ((2 ^ 32) ^ count : Nat) +
        Numeric.wordsValue (Numeric.wordsOf count (data.drop 4)) =
      Numeric.unscaledOf (count + 1) data := by
  have hlen : (data.take 4).length = 4 := by
    rw [List.length_take]
    omega
  have hrest := Numeric.wordsValue_lt (Numeric.wordsOf_lt count (data.drop 4))
  rw [Numeric.wordsOf_length] at hrest
  rw [leInt, hlen, signed_words count hrest, Numeric.unscaledOf, Numeric.wordsOf,
    Numeric.wordsValue, Numeric.wordsOf_length]

/-- A value that is an integer of `bits` bits with room to spare was one before its last word. -/
theorem shifted_bounds {y : Int} {power rest : Nat} (hrest : rest < power)
    (hlow : -(10 ^ 38) ≤ y * power + rest) (hhigh : y * power + rest < 10 ^ 38) :
    -(10 ^ 38) ≤ y ∧ y < 10 ^ 38 := by
  have hpower : (1 : Int) ≤ power := by omega
  constructor
  · by_contra hnot
    have hmul : (y + 1) * power ≤ y + 1 := by
      have hneg : y + 1 ≤ 0 := by omega
      have hle := mul_le_mul_of_nonpos_left hpower hneg
      rwa [mul_one] at hle
    rw [add_mul, one_mul] at hmul
    omega
  · by_contra hnot
    have hmul : y ≤ y * power := le_mul_of_one_le_right (by omega) hpower
    omega

theorem shiftWords_eq {words : List Nat} (hwords : ∀ w ∈ words, w < 2 ^ 32) (coefficient : Int)
    (hlow : -(10 ^ 38) ≤ coefficient * ((2 ^ 32) ^ words.length : Nat) + Numeric.wordsValue words)
    (hhigh : coefficient * ((2 ^ 32) ^ words.length : Nat) + Numeric.wordsValue words < 10 ^ 38) :
    shiftWords coefficient words =
      .ok (coefficient * ((2 ^ 32) ^ words.length : Nat) + Numeric.wordsValue words) := by
  induction words generalizing coefficient with
  | nil =>
      show Except.ok coefficient = .ok (coefficient * ((1 : Nat) : Int) + ((0 : Nat) : Int))
      simp
  | cons word words ih =>
      have hword := hwords word List.mem_cons_self
      have htail : ∀ w ∈ words, w < 2 ^ 32 := fun w hw => hwords w (List.mem_cons_of_mem _ hw)
      have hrest := Numeric.wordsValue_lt htail
      have hsame : coefficient * ((2 ^ 32) ^ (word :: words).length : Nat) +
          Numeric.wordsValue (word :: words) =
            (coefficient * 2 ^ 32 + word) * ((2 ^ 32) ^ words.length : Nat) +
              Numeric.wordsValue words := by
        rw [List.length_cons, Numeric.word_pow_succ, Numeric.wordsValue]
        push_cast
        ring
      rw [hsame] at hlow hhigh ⊢
      have hbounds := shifted_bounds hrest hlow hhigh
      rw [shiftWords, intChecked, if_pos (by omega), orFail, ok_bind, intChecked,
        if_pos (by omega), orFail, ok_bind]
      exact ih htail _ hlow hhigh

/-- Whatever is shifted in without an overflow is the integer of the words. -/
theorem shiftWords_ok {words : List Nat} {coefficient value : Int}
    (h : shiftWords coefficient words = .ok value) :
    value = coefficient * ((2 ^ 32) ^ words.length : Nat) + Numeric.wordsValue words := by
  induction words generalizing coefficient with
  | nil =>
      cases h
      simp [Numeric.wordsValue]
  | cons word words ih =>
      obtain ⟨shifted, hshifted, h⟩ := bind_ok h
      obtain ⟨next, hnext, h⟩ := bind_ok h
      have hfirst := intChecked_eq_some (orFail_ok hshifted)
      have hsecond := intChecked_eq_some (orFail_ok hnext)
      rw [ih h, hsecond, hfirst, List.length_cons, Numeric.word_pow_succ, Numeric.wordsValue]
      push_cast
      ring

theorem wordsOf_take (count : Nat) {data : Bytes} {n : Nat} (h : 4 * count ≤ n) :
    Numeric.wordsOf count (data.take n) = Numeric.wordsOf count data := by
  induction count generalizing data n with
  | zero => rfl
  | succ count ih =>
      rw [Numeric.wordsOf, Numeric.wordsOf, List.take_take, Nat.min_eq_left (by omega),
        List.drop_take, ih (by omega)]

theorem unscaledOf_take (count : Nat) (data : Bytes) :
    Numeric.unscaledOf count (data.take (4 * count)) = Numeric.unscaledOf count data := by
  rw [Numeric.unscaledOf, wordsOf_take count (Nat.le_refl _), Numeric.unscaledOf]

end NzNumeric

/-- A NUMERIC field of whole words in the row, with at most 38 digits and 38 decimals. -/
structure ReadableField (row : Bytes) (offset : Nat) (f : DbosField) (parts : Nat) : Prop where
  pos : 0 < parts
  five : parts ≤ 5
  size : f.trueSize = 4 * parts
  fits : offset + 4 * parts < 2 ^ 64
  room : offset + 4 * parts ≤ row.length
  digits : (Numeric.unscaledOf parts (row.drop offset)).natAbs < 10 ^ 38
  scale : DbosTupleDesc.fieldScale f.size ≤ 38

namespace NzNumeric

theorem fieldScale_nonneg (size : Int) : 0 ≤ DbosTupleDesc.fieldScale size :=
  Int.emod_nonneg size (by decide)

section Lazy

variable {desc : DbosTupleDesc} {row : Bytes} {offset i parts : Nat} {f : DbosField}

theorem fromDbos_readable (hf : desc.fields[i]? = some f) (htype : f.fieldType = 7)
    (h : ReadableField row offset f parts) :
    fromDbos desc row offset i =
      lift (NzNumeric.new (Numeric.unscaledOf parts (row.drop offset))
        (DbosTupleDesc.fieldScale f.size).toNat) := by
  have hsize := h.size
  have hpos := h.pos
  have hfive := h.five
  have hlength : f.trueSize.toNat = 4 * parts := by omega
  have hdigits := h.digits
  have hscale := fieldScale_nonneg f.size
  have hindex : (index desc.fields i : Exec NzError DbosField) = .ok f := by
    rw [index, hf]
  have hgot : (addChecked 64 offset (4 * parts)).bind (fun stop => getSlice row offset stop) =
      some ((row.drop offset).take (4 * parts)) := by
    rw [addChecked, if_pos h.fits, Option.bind_some, getSlice,
      if_pos ⟨Nat.le_add_right _ _, h.room⟩, Nat.add_sub_cancel_left]
  have hlen : ((row.drop offset).take (4 * parts)).length = 4 * parts := by
    have hroom := h.room
    rw [List.length_take, List.length_drop]
    omega
  obtain ⟨count, rfl⟩ : ∃ count, parts = count + 1 := ⟨parts - 1, by omega⟩
  rw [← unscaledOf_take] at hdigits ⊢
  unfold fromDbos
  rw [hindex, ok_bind, if_neg (not_not.mpr htype), if_neg (by omega), hlength]
  dsimp only
  rw [hgot]
  generalize (row.drop offset).take (4 * (count + 1)) = bytes at *
  have hwords := first_words bytes count (by omega)
  have hshift := shiftWords_eq (Numeric.wordsOf_lt count (bytes.drop 4))
    (leInt (bytes.take 4))
  rw [Numeric.wordsOf_length, hwords] at hshift
  rw [orFail, ok_bind, if_neg (by omega), slice_eq (by omega) (by omega), ok_bind,
    show 4 * (count + 1) / 4 - 1 = count by omega]
  show (shiftWords (leInt (bytes.take 4)) _ >>= _) = _
  rw [hshift (by omega) (by omega), ok_bind, if_neg (by omega)]

/-- What the lazy getter accepts is a readable field, and its integer is the one that is read. -/
theorem fromDbos_ok (hf : desc.fields[i]? = some f) {n : NzNumeric}
    (h : fromDbos desc row offset i = .ok n) :
    ∃ parts, ReadableField row offset f parts ∧
      n.coefficient = Numeric.unscaledOf parts (row.drop offset) ∧
        n.scale = (DbosTupleDesc.fieldScale f.size).toNat := by
  have hindex : (index desc.fields i : Exec NzError DbosField) = .ok f := by
    rw [index, hf]
  unfold fromDbos at h
  rw [hindex, ok_bind] at h
  by_cases htype : f.fieldType ≠ 7
  · rw [if_pos htype] at h
    cases h
  rw [if_neg htype] at h
  by_cases hneg : f.trueSize < 0
  · rw [if_pos hneg] at h
    cases h
  rw [if_neg hneg] at h
  dsimp only at h
  obtain ⟨bytes, hbytes, h⟩ := bind_ok h
  obtain ⟨stop, hstop, hgot⟩ := Option.bind_eq_some_iff.mp (orFail_ok hbytes)
  obtain ⟨rfl, hfits⟩ := addChecked_eq_some hstop
  obtain ⟨-, hroom, hbytes⟩ := getSlice_eq_some hgot
  rw [Nat.add_sub_cancel_left] at hbytes
  by_cases hcount : f.trueSize.toNat = 0 ∨ f.trueSize.toNat % 4 ≠ 0 ∨ 20 < f.trueSize.toNat
  · rw [if_pos hcount] at h
    cases h
  rw [if_neg hcount] at h
  obtain ⟨count, hlength⟩ : ∃ count, f.trueSize.toNat = 4 * (count + 1) :=
    ⟨f.trueSize.toNat / 4 - 1, by omega⟩
  have hlen : bytes.length = 4 * (count + 1) := by
    rw [hbytes, List.length_take, List.length_drop]
    omega
  obtain ⟨first, hfirst, h⟩ := bind_ok h
  obtain ⟨coefficient, hcoefficient, h⟩ := bind_ok h
  rw [(slice_ok hfirst).2.2] at hcoefficient
  have hscale := fieldScale_nonneg f.size
  rw [if_neg (by omega)] at h
  obtain ⟨hvalue, hdecimals⟩ := new_ok_iff.mp (lift_ok h)
  have hbounded := n.bounded
  have hwords := shiftWords_ok hcoefficient
  rw [show f.trueSize.toNat / 4 - 1 = count by omega, Numeric.wordsOf_length] at hwords
  have hread : coefficient = Numeric.unscaledOf (count + 1) (row.drop offset) := by
    rw [hwords, ← unscaledOf_take, ← hlength, ← hbytes]
    exact first_words bytes count (by omega)
  refine ⟨count + 1, ⟨by omega, by omega, by omega, by omega, by omega, ?_, by omega⟩,
    hvalue.trans hread, hdecimals⟩
  rw [← hread, ← hvalue]
  exact hbounded.1

end Lazy

/-! ## Floats that are taken back -/

/-- Two decimals of one value. -/
def SameValue (a b : NzNumeric) : Prop :=
  a.coefficient * 10 ^ b.scale = b.coefficient * 10 ^ a.scale

instance (a b : NzNumeric) : Decidable (SameValue a b) :=
  inferInstanceAs (Decidable (_ = _))

/-- What the lazy row gives, the eager row gives in value. -/
def Survives (lazy eager : Exec NzError NzNumeric) : Prop :=
  ∀ n, lazy = .ok n → ∃ m, eager = .ok m ∧ SameValue m n

section Decimals

variable {N : Numerics} (ops : NumberOps N) (mantissa : N.Decimal → Int)

/-- `Decimal` as it is documented: 96 bits, at most 28 decimals, and equality of values. -/
structure DecimalFacts : Prop extends Numeric.DecimalLaws ops mantissa where
  limits : ∀ value, (mantissa value).natAbs < 2 ^ 96 ∧ ops.decimalScale value ≤ 28
  equal : ∀ a b, ops.decimalEq a b = true →
    mantissa a * 10 ^ ops.decimalScale b = mantissa b * 10 ^ ops.decimalScale a

/-- `Decimal::from_f64` gives the decimal back in value. -/
def Retaken (number : N.F64) (coefficient : Int) (scale : Nat) : Prop :=
  ∃ value, ops.decimalOfF64 number = some value ∧
    mantissa value * 10 ^ scale = coefficient * 10 ^ ops.decimalScale value

/-- The decimals are those of the text. -/
def ReadExactly (value : N.Decimal) (coefficient : Int) (scale : Nat) : Prop :=
  mantissa value * 10 ^ scale = coefficient * 10 ^ ops.decimalScale value

variable {ops mantissa}

theorem ofDecimal_survives (hfacts : DecimalFacts ops mantissa) (value : N.Decimal)
    (n : NzNumeric) :
    (∃ m, ofDecimal ops mantissa value = .ok m ∧ SameValue m n) ↔
      ReadExactly ops mantissa value n.coefficient n.scale := by
  have hlimits := hfacts.limits value
  have hread : ofDecimal ops mantissa value = .ok ⟨mantissa value, ops.decimalScale value,
      by omega, by omega⟩ := by
    rw [ofDecimal, (new_ok_iff (n := ⟨mantissa value, ops.decimalScale value, by omega, by omega⟩)).mpr
      ⟨rfl, rfl⟩]
    rfl
  rw [hread]
  constructor
  · rintro ⟨m, hm, hsame⟩
    cases hm
    exact hsame
  · intro hsame
    exact ⟨_, rfl, hsame⟩

theorem ofFloat_survives (hfacts : DecimalFacts ops mantissa) (number : N.F64) (n : NzNumeric) :
    (∃ m, ofFloat ops mantissa number = .ok m ∧ SameValue m n) ↔
      Retaken ops mantissa number n.coefficient n.scale := by
  unfold ofFloat Retaken
  cases hdecimal : ops.decimalOfF64 number with
  | none =>
      constructor
      · rintro ⟨m, hm, -⟩
        cases hm
      · rintro ⟨value, hvalue, -⟩
        cases hvalue
  | some value =>
      rw [orFail, ok_bind, ofDecimal_survives hfacts]
      constructor
      · intro hread
        exact ⟨value, rfl, hread⟩
      · rintro ⟨other, hother, hread⟩
        cases hother
        exact hread

/-- A decimal with a digit behind the 28th decimal is not taken back from any float. -/
theorem not_retaken (hfacts : DecimalFacts ops mantissa) {coefficient : Int} {scale : Nat}
    (hscale : 28 < scale) (hdigit : ¬(10 : Int) ∣ coefficient) (number : N.F64) :
    ¬Retaken ops mantissa number coefficient scale := by
  rintro ⟨value, -, hread⟩
  have hlimit := (hfacts.limits value).2
  obtain ⟨k, hk⟩ : ∃ k, scale = ops.decimalScale value + (k + 1) :=
    ⟨scale - ops.decimalScale value - 1, by omega⟩
  rw [hk, pow_add, ← mul_assoc, mul_right_comm] at hread
  have hpos : (10 : Int) ^ ops.decimalScale value ≠ 0 := pow_ne_zero _ (by decide)
  have hcancel := mul_right_cancel₀ hpos hread
  exact hdigit ⟨mantissa value * 10 ^ k, by rw [← hcancel, pow_succ]; ring⟩

/-! ## Decoded cells -/

variable (ops mantissa)

/-- What the getter makes of a decoded NUMERIC. -/
def ofNumeric (typeOid : Int) : NumericDecoded N → Exec NzError NzNumeric
  | .number number => if typeOid = 1700 then ofFloat ops mantissa number else fail notExact
  | .decimal value => ofDecimal ops mantissa value
  | .exact text => NzNumeric.parse text

theorem fromRaw_eager (decoded : NumericDecoded N) (dbos : Option DbosTupleDesc)
    (column : ColumnDesc) (position : Nat) :
    fromRaw ops mantissa (.eager decoded.value dbos column position) =
      ofNumeric ops mantissa column.typeOid decoded := by
  have hbytes : RawValue.eagerCellBytes decoded.value dbos column position = none := by
    cases decoded <;> rfl
  unfold RawValue.eager
  rw [hbytes]
  unfold fromRaw
  by_cases hoid : column.typeOid = 1700
  · simp only [hoid, and_true, ite_self, if_true]
    cases decoded <;> rfl
  · simp only [hoid, and_false, if_false]
    cases decoded with
    | number number =>
        rw [ofNumeric, if_neg hoid]
        rfl
    | decimal value => rfl
    | exact text => rfl

/-! ## Text cells -/

/-- The digits of a type modifier, or zero when it does not tell. -/
def precisionOf (typeMod : Int) : Int :=
  if 16 < typeMod then (typeMod - 16) / 65536 else 0

/-- The float that a text is kept as: it prints as the text, and the precision does not forbid it. -/
def floatOf (text : Text) (typeMod : Int) : Option N.F64 :=
  (ops.parseF64 text).filter fun number =>
    N.f64IsFinite number && decide (N.displayF64 number = text) &&
      (if precisionOf typeMod = 0 then isPlainDecimal text else decide (precisionOf typeMod ≤ 15))

/-- The `Decimal` that a text is kept as when it is not kept as a float. -/
def decimalOf (text : Text) (typeMod : Int) : Option N.Decimal :=
  if 1 ≤ precisionOf typeMod ∧ precisionOf typeMod ≤ 28 ∧ floatOf ops text typeMod = none then
    ops.parseDecimal text
  else none

def keptText (text : Text) (typeMod : Int) : NumericDecoded N :=
  match floatOf ops text typeMod with
  | some number => .number number
  | none =>
      match decimalOf ops text typeMod with
      | some value => .decimal value
      | none => .exact text

theorem parseNumericText_eq (raw : Text) (typeMod : Int) :
    parseNumericText ops raw typeMod = keptText ops (trim raw) typeMod := by
  unfold parseNumericText keptText decimalOf floatOf precisionOf
  generalize trim raw = text
  generalize (if 16 < typeMod then (typeMod - 16) / 65536 else 0) = precision
  dsimp only
  have hother : (if 1 ≤ precision ∧ precision ≤ 28 then
      match ops.parseDecimal text with
      | some value => .decimal value
      | none => .exact text
      else .exact text : NumericDecoded N) =
        match (if 1 ≤ precision ∧ precision ≤ 28 ∧ (none : Option N.F64) = none then
          ops.parseDecimal text else none) with
        | some value => .decimal value
        | none => .exact text := by
    by_cases hprecision : 1 ≤ precision ∧ precision ≤ 28
    · rw [if_pos hprecision, if_pos ⟨hprecision.1, hprecision.2, rfl⟩]
    · rw [if_neg hprecision, if_neg (fun h => hprecision ⟨h.1, h.2.1⟩)]
  cases ops.parseF64 text with
  | none => exact hother
  | some number =>
      cases hfinite : N.f64IsFinite number with
      | false =>
          simp only [Option.filter_some, hfinite, Bool.false_and]
          exact hother
      | true =>
          by_cases hprints : N.displayF64 number = text
          · by_cases hzero : precision = 0
            · cases hplain : isPlainDecimal text with
              | true => simp [Option.filter_some, hfinite, hprints, hzero]
              | false =>
                  simp only [Option.filter_some, hfinite, hprints, hzero]
                  rw [hzero] at hother
                  exact hother
            · by_cases hdigits : precision ≤ 15
              · simp [Option.filter_some, hfinite, hprints, hzero, hdigits]
              · simp only [Option.filter_some, hfinite, hprints, hzero, hdigits]
                exact hother
          · simp only [Option.filter_some, hfinite, hprints, and_false, if_false, ite_self,
              decide_false, Bool.and_false, Bool.false_and]
            exact hother

/-- A cell of a text row that the lazy getter reads. -/
structure ReadableText (column : ColumnDesc) (cell : Bytes) (d : DecimalText) : Prop where
  format : column.format = 0
  text : fromUtf8 cell = some d.text
  scale : d.scale ≤ 38
  digits : d.magnitude < 10 ^ 38

/-- A float or a `Decimal` that a cell is kept as gives the number of the cell back. -/
def TextRetaken (column : ColumnDesc) (cell : Bytes) : Prop :=
  ∀ d, ReadableText column cell d →
    (∀ number, floatOf ops d.text column.typeMod = some number →
      Retaken ops mantissa number d.coefficient d.scale) ∧
    ∀ value, decimalOf ops d.text column.typeMod = some value →
      ReadExactly ops mantissa value d.coefficient d.scale

theorem not_whitespace_of_text (d : DecimalText) : ∀ c ∈ d.text, isWhitespace c = false := by
  have hdigit : ∀ c : Char, c.isDigit = true → isWhitespace c = false := by
    intro c hc
    rw [Char.isDigit_iff_toNat] at hc
    change 48 ≤ c.toNat ∧ c.toNat ≤ 57 at hc
    simp only [isWhitespace, Bool.or_eq_false_iff, Bool.and_eq_false_iff, decide_eq_false_iff_not,
      beq_eq_false_iff_ne]
    omega
  intro c hc
  rcases List.mem_append.mp hc with hsign | hunsigned
  · cases hd : d.sign with
    | none =>
        rw [hd] at hsign
        cases hsign
    | some minus =>
        rw [hd] at hsign
        cases minus <;> rw [List.mem_singleton.mp hsign] <;> rfl
  · rcases d.unsigned_chars c hunsigned with hc | rfl
    · exact hdigit c hc
    · rfl

theorem trim_text (d : DecimalText) : trim d.text = d.text := by
  have hstart : ∀ text : Text, (∀ c ∈ text, isWhitespace c = false) →
      text.dropWhile isWhitespace = text := by
    intro text htext
    cases text with
    | nil => rfl
    | cons c cs => rw [List.dropWhile_cons_of_neg (by simp [htext c List.mem_cons_self])]
  have hchars := not_whitespace_of_text d
  rw [trim, trimStart, hstart d.text hchars, trimEnd, hstart d.text.reverse, List.reverse_reverse]
  intro c hc
  exact hchars c (List.mem_reverse.mp hc)

theorem length_of_mapM_id {α : Type} {xs : List (Option α)} {ys : List α}
    (h : xs.mapM id = some ys) : ys.length = xs.length := by
  induction xs generalizing ys with
  | nil =>
      cases h
      rfl
  | cons x xs ih =>
      rw [List.mapM_cons] at h
      obtain ⟨y, -, h⟩ := Option.bind_eq_some_iff.mp h
      obtain ⟨rest, hrest, h⟩ := Option.bind_eq_some_iff.mp h
      cases h
      rw [List.length_cons, List.length_cons, ih hrest]

theorem length_utf8Chars_le (fuel : Nat) (bytes : Bytes) :
    (utf8Chars fuel bytes).length ≤ fuel := by
  induction fuel generalizing bytes with
  | zero => exact Nat.le_refl 0
  | succ fuel ih =>
      cases bytes with
      | nil => exact Nat.zero_le _
      | cons b bs => exact Nat.succ_le_succ (ih _)

theorem length_of_fromUtf8 {cell : Bytes} {text : Text} (h : fromUtf8 cell = some text) :
    text.length ≤ cell.length := by
  rw [length_of_mapM_id h]
  exact length_utf8Chars_le cell.length cell

/-- The lazy getter parses the text of the cell. -/
theorem lazyText_ok_iff {column : ColumnDesc} {cell : Bytes} (hoid : column.typeOid = 1700)
    (hcell : cell.length < 2 ^ 31) {n : NzNumeric} :
    fromRaw ops mantissa (.lazyText column cell) = .ok n ↔
      ∃ d, ReadableText column cell d ∧ n.coefficient = d.coefficient ∧ n.scale = d.scale := by
  unfold RawValue.lazyText fromRaw
  by_cases hformat : column.format = 0
  · simp only [RawValue.isNull, Option.isNone_some, Bool.false_eq_true, if_false, hformat, hoid,
      and_self, if_true]
    cases htext : fromUtf8 cell with
    | none =>
        constructor
        · intro h
          cases h
        · rintro ⟨d, hd, -⟩
          rw [hd.text] at htext
          cases htext
    | some text =>
        have hlen := length_of_fromUtf8 htext
        rw [orFail, ok_bind, parse_ok_iff (by omega)]
        constructor
        · rintro ⟨d, rfl, hcoefficient, hscale⟩
          have hbounded := n.bounded
          rw [← hcoefficient, natAbs_coefficient, ← hscale] at hbounded
          exact ⟨d, ⟨hformat, htext, hbounded.2, hbounded.1⟩, hcoefficient.symm, hscale.symm⟩
        · rintro ⟨d, hd, hcoefficient, hscale⟩
          rw [hd.text] at htext
          exact ⟨d, Option.some.inj htext, hcoefficient.symm, hscale.symm⟩
  · constructor
    · intro h
      simp only [RawValue.isNull, RawValue.toNzValue, Option.isNone_some, Bool.false_eq_true,
        if_false, hformat, false_and, ite_self, orFail, ok_bind, ne_eq, not_false_eq_true,
        if_true] at h
      cases h
    · rintro ⟨d, hd, -⟩
      exact absurd hd.format hformat

theorem keptText_survives (hfacts : DecimalFacts ops mantissa) {text : Text} {n : NzNumeric}
    (hparse : NzNumeric.parse text = .ok n) (typeMod : Int) :
    (∃ m, ofNumeric ops mantissa 1700 (keptText ops text typeMod) = .ok m ∧ SameValue m n) ↔
      (∀ number, floatOf ops text typeMod = some number →
        Retaken ops mantissa number n.coefficient n.scale) ∧
      ∀ value, decimalOf ops text typeMod = some value →
        ReadExactly ops mantissa value n.coefficient n.scale := by
  unfold keptText
  cases hfloat : floatOf ops text typeMod with
  | some number =>
      have hdecimal : decimalOf ops text typeMod = none := by
        rw [decimalOf, if_neg (by simp [hfloat])]
      dsimp only
      rw [ofNumeric, if_pos rfl, ofFloat_survives hfacts, hdecimal]
      simp
  | none =>
      cases hdecimal : decimalOf ops text typeMod with
      | some value =>
          dsimp only
          rw [ofNumeric, ofDecimal_survives hfacts]
          simp
      | none =>
          dsimp only
          rw [ofNumeric, hparse]
          simp [SameValue]

/-- The eager getter gives the number of the cell back just where its float or `Decimal` does. -/
theorem textRead_survives_iff (hfacts : DecimalFacts ops mantissa) {column : ColumnDesc}
    {cell : Bytes} {text : Text} {value : NzValue N} (hoid : column.typeOid = 1700)
    (hcell : cell.length < 2 ^ 31) (htext : fromUtf8 cell = some text)
    (haccepted : tryParseTextValue ops text column.typeOid column.typeMod = .ok value)
    (position : Nat) :
    Survives (fromRaw ops mantissa (.lazyText column cell))
        (fromRaw ops mantissa (.eager value none column position)) ↔
      TextRetaken ops mantissa column cell := by
  have hvalue : value = (keptText ops (trim text) column.typeMod).value := by
    rw [← parseNumericText_eq]
    by_cases hnumeric : isNzNumeric (trim text) = true
    · simp [tryParseTextValue, hoid, hnumeric] at haccepted
      exact haccepted.symm
    · simp [tryParseTextValue, hoid, hnumeric] at haccepted
  have hread : ∀ d, ReadableText column cell d → ∀ n : NzNumeric, n.coefficient = d.coefficient →
      n.scale = d.scale → NzNumeric.parse d.text = .ok n ∧ trim text = d.text := by
    intro d hd n hcoefficient hscale
    have hsame : text = d.text := Option.some.inj (htext.symm.trans hd.text)
    have hlen := length_of_fromUtf8 htext
    rw [hsame] at hlen ⊢
    exact ⟨(parse_ok_iff (by omega)).mpr ⟨d, rfl, hcoefficient.symm, hscale.symm⟩, trim_text d⟩
  rw [hvalue, fromRaw_eager, hoid]
  constructor
  · intro hsurvives d hd
    let n : NzNumeric := ⟨d.coefficient, d.scale, by
      rw [natAbs_coefficient]
      exact ⟨hd.digits, hd.scale⟩⟩
    obtain ⟨hparse, htrim⟩ := hread d hd n rfl rfl
    have hkept := hsurvives n ((lazyText_ok_iff ops mantissa hoid hcell).mpr ⟨d, hd, rfl, rfl⟩)
    rw [htrim] at hkept
    exact (keptText_survives ops mantissa hfacts hparse column.typeMod).mp hkept
  · intro hretaken n hn
    obtain ⟨d, hd, hcoefficient, hscale⟩ := (lazyText_ok_iff ops mantissa hoid hcell).mp hn
    obtain ⟨hparse, htrim⟩ := hread d hd n hcoefficient hscale
    rw [htrim]
    apply (keptText_survives ops mantissa hfacts hparse column.typeMod).mpr
    rw [hcoefficient, hscale]
    exact hretaken d hd

/-! ## Binary fields -/

/-- The float of one or two words, where its decimal has the digits and the scale of the field. -/
def smallFloat (unscaled : Int) (scale : Nat) (prec : Int) (parts : Nat) : Option N.F64 :=
  if parts ≤ 2 ∧ prec ≤ 15 ∧ scale ≤ 28 then
    (ops.decimalOfParts unscaled scale).bind fun value =>
      (ops.decimalOfF64 (ops.quotient unscaled scale)).bind fun roundTripped =>
        if ops.decimalEq roundTripped value ∧
            ops.decimalScale roundTripped = ops.decimalScale value then
          some (ops.quotient unscaled scale)
        else none
  else none

/-- The words have a `Decimal`; five of them are not tried. -/
def hasDecimal (unscaled : Int) (scale parts : Nat) : Bool :=
  decide (parts ≤ 4) && (Numeric.decimalFromI128 ops unscaled scale).isSome

/-- The float that a field without a `Decimal` is kept as: it prints as the digits of the field. -/
def textFloat (unscaled : Int) (scale : Nat) (prec : Int) (parts : Nat) : Option N.F64 :=
  if hasDecimal ops unscaled scale parts = false ∧ prec ≤ 15 then
    (ops.parseF64 (canonicalText unscaled scale)).filter fun number =>
      decide (N.displayF64 number = canonicalText unscaled scale)
  else none

def keptWords (unscaled : Int) (scale : Nat) (prec : Int) (parts : Nat) : NumericDecoded N :=
  if hasDecimal ops unscaled scale parts then
    match smallFloat ops unscaled scale prec parts with
    | some number => .number number
    | none =>
        match ops.decimalOfParts unscaled scale with
        | some value => .decimal value
        | none => .exact (canonicalText unscaled scale)
  else
    match textFloat ops unscaled scale prec parts with
    | some number => .number number
    | none => .exact (canonicalText unscaled scale)

section Kept

variable {unscaled : Int} {scale parts : Nat} {prec : Int}

theorem keptWords_text (h : hasDecimal ops unscaled scale parts = false) :
    Numeric.classifyNumeric ops (canonicalText unscaled scale) prec =
      keptWords ops unscaled scale prec parts := by
  have hnone : ¬hasDecimal ops unscaled scale parts = true := by
    simp [h]
  unfold keptWords textFloat Numeric.classifyNumeric
  rw [if_neg hnone]
  by_cases hprec : prec ≤ 15
  · rw [if_pos hprec, if_pos ⟨h, hprec⟩]
    cases ops.parseF64 (canonicalText unscaled scale) with
    | none => rfl
    | some number =>
        by_cases hprints : N.displayF64 number = canonicalText unscaled scale
        · simp [Option.filter_some, hprints]
        · simp [Option.filter_some, hprints]
  · rw [if_neg hprec, if_neg (fun hboth => hprec hboth.2)]

theorem decimalFromI128_some {value : N.Decimal}
    (h : Numeric.decimalFromI128 ops unscaled scale = some value) :
    scale ≤ 28 ∧ ops.decimalOfParts unscaled scale = some value := by
  unfold Numeric.decimalFromI128 at h
  by_cases hscale : scale ≤ 28
  · rw [if_pos hscale] at h
    exact ⟨hscale, h⟩
  · rw [if_neg hscale] at h
    cases h

theorem keptWords_small {value : N.Decimal}
    (h : Numeric.decimalFromI128 ops unscaled scale = some value) (hsmall : parts ≤ 2 ∧ prec ≤ 15) :
    Numeric.smallNumber ops unscaled scale value = keptWords ops unscaled scale prec parts := by
  obtain ⟨hscale, hparts⟩ := decimalFromI128_some ops h
  have hdecimal : hasDecimal ops unscaled scale parts = true := by
    simp [hasDecimal, h, show parts ≤ 4 by omega]
  unfold keptWords smallFloat Numeric.smallNumber
  rw [if_pos hdecimal, if_pos ⟨hsmall.1, hsmall.2, hscale⟩, hparts, Option.bind_some]
  dsimp only
  cases ops.decimalOfF64 (ops.quotient unscaled scale) with
  | none => rfl
  | some roundTripped =>
      dsimp only
      rw [Option.bind_some]
      by_cases hsame : ops.decimalEq roundTripped value ∧
          ops.decimalScale roundTripped = ops.decimalScale value
      · rw [if_pos hsame, if_pos hsame]
      · rw [if_neg hsame, if_neg hsame]

theorem keptWords_decimal {value : N.Decimal}
    (h : Numeric.decimalFromI128 ops unscaled scale = some value) (hfour : parts ≤ 4)
    (hsmall : ¬(parts ≤ 2 ∧ prec ≤ 15)) :
    .decimal value = keptWords ops unscaled scale prec parts := by
  obtain ⟨-, hparts⟩ := decimalFromI128_some ops h
  have hdecimal : hasDecimal ops unscaled scale parts = true := by
    simp [hasDecimal, h, hfour]
  unfold keptWords smallFloat
  rw [if_pos hdecimal, if_neg (fun hall => hsmall ⟨hall.1, hall.2.1⟩), hparts]

end Kept

theorem getCsNumeric_kept (data : Bytes) {prec scale digitCount : Int}
    (hshape : Numeric.Shaped prec scale digitCount)
    (h : Numeric.partCount prec digitCount * 4 ≤ data.length) :
    Numeric.getCsNumeric ops data prec scale digitCount =
      .ok (keptWords ops (Numeric.unscaledOf (Numeric.partCount prec digitCount) data) scale.toNat
        prec (Numeric.partCount prec digitCount)) := by
  have hnot := Numeric.not_shaped_iff.not.mp (not_not.mpr hshape)
  obtain ⟨hpos, hparts⟩ := Numeric.partCount_range hnot
  unfold Numeric.getCsNumeric
  rw [if_neg hnot]
  dsimp only
  rw [mulWord_eq (by omega), ok_bind, if_neg (by omega)]
  generalize Numeric.partCount prec digitCount = parts at *
  generalize scale.toNat = decimals
  by_cases hsmall : parts ≤ 2 ∧ prec ≤ 15
  · rw [if_pos hsmall, Numeric.readSmall_eq hpos hsmall.1 h, ok_bind]
    cases hdecimal : Numeric.decimalFromI128 ops (Numeric.unscaledOf parts data) decimals with
    | some value => exact congrArg Except.ok (keptWords_small ops hdecimal hsmall)
    | none =>
        dsimp only
        rw [Numeric.exactText_eq, keptWords_text ops (by simp [hasDecimal, hdecimal])]
  rw [if_neg hsmall]
  by_cases hfour : parts ≤ 4
  · rw [if_pos hfour, Numeric.readSignedI128_eq hpos hfour h, ok_bind]
    cases hdecimal : Numeric.decimalFromI128 ops (Numeric.unscaledOf parts data) decimals with
    | some value => exact congrArg Except.ok (keptWords_decimal ops hdecimal hfour hsmall)
    | none =>
        dsimp only
        rw [Numeric.exactText_eq, keptWords_text ops (by simp [hasDecimal, hdecimal])]
  · rw [if_neg hfour, Numeric.decodeWide_eq ops hpos hparts h,
      keptWords_text ops (show hasDecimal ops (Numeric.unscaledOf parts data) decimals parts = false
        by simp [hasDecimal, hfour])]

/-- A float that a field is kept as gives the number of the field back. A float from a `Decimal`
does, but only a column of the OID of NUMERIC is asked for it. -/
def WordsRetaken (column : ColumnDesc) (row : Bytes) (offset : Nat) (f : DbosField) : Prop :=
  ∀ parts, ReadableField row offset f parts →
    let unscaled := Numeric.unscaledOf parts (row.drop offset)
    let scale := (DbosTupleDesc.fieldScale f.size).toNat
    let prec := DbosTupleDesc.fieldPrecision f.size
    (∀ number, smallFloat ops unscaled scale prec parts = some number → column.typeOid = 1700) ∧
    ∀ number, textFloat ops unscaled scale prec parts = some number →
      column.typeOid = 1700 ∧ Retaken ops mantissa number unscaled scale

theorem smallFloat_retaken (hfacts : DecimalFacts ops mantissa) {unscaled : Int} {scale parts : Nat}
    {prec : Int} {number : N.F64} (h : smallFloat ops unscaled scale prec parts = some number) :
    Retaken ops mantissa number unscaled scale := by
  unfold smallFloat at h
  by_cases hshape : parts ≤ 2 ∧ prec ≤ 15 ∧ scale ≤ 28
  · rw [if_pos hshape] at h
    obtain ⟨value, hvalue, h⟩ := Option.bind_eq_some_iff.mp h
    obtain ⟨roundTripped, hround, h⟩ := Option.bind_eq_some_iff.mp h
    by_cases hsame : ops.decimalEq roundTripped value ∧
        ops.decimalScale roundTripped = ops.decimalScale value
    · rw [if_pos hsame] at h
      cases h
      obtain ⟨-, hmantissa, hscale⟩ := hfacts.parts _ _ _ hvalue
      have hequal := hfacts.equal _ _ hsame.1
      rw [hmantissa, hscale] at hequal
      exact ⟨roundTripped, hround, hequal⟩
    · rw [if_neg hsame] at h
      cases h
  · rw [if_neg hshape] at h
    cases h

theorem ofNumeric_number (hfacts : DecimalFacts ops mantissa) (typeOid : Int) (number : N.F64)
    (n : NzNumeric) :
    (∃ m, ofNumeric ops mantissa typeOid (.number number) = .ok m ∧ SameValue m n) ↔
      typeOid = 1700 ∧ Retaken ops mantissa number n.coefficient n.scale := by
  rw [ofNumeric]
  by_cases hoid : typeOid = 1700
  · rw [if_pos hoid, ofFloat_survives hfacts]
    simp [hoid]
  · rw [if_neg hoid]
    constructor
    · rintro ⟨m, hm, -⟩
      cases hm
    · rintro ⟨h, -⟩
      exact absurd h hoid

theorem smallFloat_none {unscaled : Int} {scale parts : Nat} (prec : Int)
    (h : hasDecimal ops unscaled scale parts = false) :
    smallFloat ops unscaled scale prec parts = none := by
  unfold smallFloat
  by_cases hshape : parts ≤ 2 ∧ prec ≤ 15 ∧ scale ≤ 28
  · rw [if_pos hshape]
    have hnone : Numeric.decimalFromI128 ops unscaled scale = none := by
      simpa [hasDecimal, show parts ≤ 4 by omega] using h
    rw [Numeric.decimalFromI128, if_pos hshape.2.2] at hnone
    rw [hnone]
    rfl
  · rw [if_neg hshape]

theorem keptWords_survives (hfacts : DecimalFacts ops mantissa) (n : NzNumeric) (prec : Int)
    (parts : Nat) (typeOid : Int) :
    (∃ m, ofNumeric ops mantissa typeOid (keptWords ops n.coefficient n.scale prec parts) = .ok m ∧
        SameValue m n) ↔
      (∀ number, smallFloat ops n.coefficient n.scale prec parts = some number →
        typeOid = 1700) ∧
      ∀ number, textFloat ops n.coefficient n.scale prec parts = some number →
        typeOid = 1700 ∧ Retaken ops mantissa number n.coefficient n.scale := by
  have hexact : ∃ m, ofNumeric ops mantissa typeOid (.exact (canonicalText n.coefficient n.scale)) =
      .ok m ∧ SameValue m n := by
    obtain ⟨text, hdisplay, hparse⟩ := n.parse_display
    rw [n.display_eq] at hdisplay
    cases hdisplay
    exact ⟨n, hparse, rfl⟩
  unfold keptWords
  cases hdecimal : hasDecimal ops n.coefficient n.scale parts with
  | true =>
      have htext : textFloat ops n.coefficient n.scale prec parts = none := by
        rw [textFloat, if_neg (by simp [hdecimal])]
      rw [if_pos rfl, htext]
      cases hsmall : smallFloat ops n.coefficient n.scale prec parts with
      | some number =>
          dsimp only
          rw [ofNumeric_number ops mantissa hfacts]
          have hretaken := smallFloat_retaken ops mantissa hfacts hsmall
          simp [hretaken]
      | none =>
          cases hparts : ops.decimalOfParts n.coefficient n.scale with
          | some value =>
              obtain ⟨-, hmantissa, hscale⟩ := hfacts.parts _ _ _ hparts
              have hread : ReadExactly ops mantissa value n.coefficient n.scale := by
                rw [ReadExactly, hmantissa, hscale]
              dsimp only
              rw [ofNumeric, ofDecimal_survives hfacts]
              simp [hread]
          | none =>
              dsimp only
              simp [hexact]
  | false =>
      rw [if_neg Bool.false_ne_true, smallFloat_none ops prec hdecimal]
      cases textFloat ops n.coefficient n.scale prec parts with
      | some number =>
          dsimp only
          rw [ofNumeric_number ops mantissa hfacts]
          simp
      | none =>
          dsimp only
          simp [hexact]

/-- What the eager row gives for a field. -/
def eagerField (desc : DbosTupleDesc) (row : Bytes) (offset i : Nat) (column : ColumnDesc) :
    Exec NzError NzNumeric := do
  let f ← index desc.fields i
  let value ← DbosTupleDesc.parseField ops row offset i f
  fromRaw ops mantissa (.eager value (some desc) column i)

theorem eagerField_eq {desc : DbosTupleDesc} {row : Bytes} {offset i parts : Nat} {f : DbosField}
    (column : ColumnDesc) (hf : desc.fields[i]? = some f) (htype : f.fieldType = 7)
    (hprec : DbosTupleDesc.fieldPrecision f.size ≤ 38) (h : ReadableField row offset f parts) :
    eagerField ops mantissa desc row offset i column =
      ofNumeric ops mantissa column.typeOid
        (keptWords ops (Numeric.unscaledOf parts (row.drop offset))
          (DbosTupleDesc.fieldScale f.size).toNat (DbosTupleDesc.fieldPrecision f.size) parts) := by
  have hpos := h.pos
  have hfive := h.five
  have hroom := h.room
  have hkind : f.kind = .numeric := by
    simp [DbosField.kind, FieldKind.ofType, htype]
  have hindex : (index desc.fields i : Exec NzError DbosField) = .ok f := by
    rw [index, hf]
  have hdata : (row.drop offset).take (row.length - offset) = row.drop offset :=
    List.take_of_length_le (by rw [List.length_drop])
  have hcount : f.trueSize.tdiv 4 = parts := by
    rw [h.size, Int.tdiv_eq_ediv_of_nonneg (by omega)]
    omega
  have hparts : Numeric.partCount (DbosTupleDesc.fieldPrecision f.size) parts = parts := by
    rw [Numeric.partCount, if_pos (by omega)]
    omega
  have hshape : Numeric.Shaped (DbosTupleDesc.fieldPrecision f.size)
      (DbosTupleDesc.fieldScale f.size) parts :=
    ⟨⟨Int.emod_nonneg _ (by decide), hprec⟩, ⟨fieldScale_nonneg f.size, h.scale⟩, by omega, by omega⟩
  have hdecoded := getCsNumeric_kept ops (row.drop offset) hshape (by
    rw [hparts, List.length_drop]
    omega)
  rw [hparts] at hdecoded
  unfold eagerField DbosTupleDesc.parseField
  rw [hindex, ok_bind, hkind]
  dsimp only
  rw [Nat.min_eq_left (by omega), slice_eq (by omega) (Nat.le_refl _), ok_bind, hdata, hcount,
    hdecoded, ok_bind]
  exact fromRaw_eager ops mantissa _ (some desc) column i

theorem fieldRead_survives_iff (hfacts : DecimalFacts ops mantissa) {desc : DbosTupleDesc}
    {row : Bytes} {offset i : Nat} {f : DbosField} (hf : desc.fields[i]? = some f)
    (htype : f.fieldType = 7) (hprec : DbosTupleDesc.fieldPrecision f.size ≤ 38)
    (column : ColumnDesc) (field : Bytes) :
    Survives (fromRaw ops mantissa (.lazyDbos column field desc row offset i))
        (eagerField ops mantissa desc row offset i column) ↔
      WordsRetaken ops mantissa column row offset f := by
  have hlazy : fromRaw ops mantissa (.lazyDbos column field desc row offset i) =
      fromDbos desc row offset i := rfl
  rw [hlazy]
  constructor
  · intro hsurvives parts hreadable
    let n : NzNumeric := ⟨Numeric.unscaledOf parts (row.drop offset),
      (DbosTupleDesc.fieldScale f.size).toNat, hreadable.digits, by
        have hscale := hreadable.scale
        omega⟩
    have hn : fromDbos desc row offset i = .ok n := by
      rw [fromDbos_readable hf htype hreadable, (new_ok_iff (n := n)).mpr ⟨rfl, rfl⟩]
      rfl
    have hkept := hsurvives n hn
    rw [eagerField_eq ops mantissa column hf htype hprec hreadable] at hkept
    exact (keptWords_survives ops mantissa hfacts n _ parts column.typeOid).mp hkept
  · intro hretaken n hn
    obtain ⟨parts, hreadable, hcoefficient, hscale⟩ := fromDbos_ok hf hn
    have hcondition := hretaken parts hreadable
    dsimp only at hcondition
    rw [eagerField_eq ops mantissa column hf htype hprec hreadable]
    rw [← hcoefficient, ← hscale] at hcondition ⊢
    exact (keptWords_survives ops mantissa hfacts n _ parts column.typeOid).mpr hcondition

/-- Eager and lazy rows agree on a NUMERIC just where the floats and the `Decimal`s that the eager
row keeps give the number back. -/
theorem exact_reads_survive_iff (hfacts : DecimalFacts ops mantissa) :
    (∀ column cell text value position, column.typeOid = 1700 → cell.length < 2 ^ 31 →
      fromUtf8 cell = some text →
      tryParseTextValue ops text column.typeOid column.typeMod = .ok value →
      (Survives (fromRaw ops mantissa (.lazyText column cell))
          (fromRaw ops mantissa (.eager value none column position)) ↔
        TextRetaken ops mantissa column cell)) ∧
    ∀ desc row offset i f column field, (DbosTupleDesc.fields desc)[i]? = some f →
      f.fieldType = 7 → DbosTupleDesc.fieldPrecision f.size ≤ 38 →
      (Survives (fromRaw ops mantissa (.lazyDbos column field desc row offset i))
          (eagerField ops mantissa desc row offset i column) ↔
        WordsRetaken ops mantissa column row offset f) := by
  constructor
  · intro column cell text value position hoid hcell htext haccepted
    exact textRead_survives_iff ops mantissa hfacts hoid hcell htext haccepted position
  · intro desc row offset i f column field hf htype hprec
    exact fieldRead_survives_iff ops mantissa hfacts hf htype hprec column field

end Decimals

/-! ## A cell that is lost -/

/-- Floats as the decimals that they print, and `Decimal`s as their parts. -/
def printedNumerics : Numerics where
  F32 := Unit
  F64 := NzNumeric
  Decimal := { parts : Int × Nat // parts.1.natAbs < 2 ^ 96 ∧ parts.2 ≤ 28 }
  f32ToF64 _ := ⟨0, 0, by decide⟩
  f64IsFinite _ := true
  displayF64 number := canonicalText number.coefficient number.scale
  displayDecimal value := canonicalText value.1.1 value.1.2

def printedDecimalOf (coefficient : Int) (scale : Nat) : Option printedNumerics.Decimal :=
  if h : coefficient.natAbs < 2 ^ 96 ∧ scale ≤ 28 then some ⟨(coefficient, scale), h⟩ else none

/-- A float without a `Decimal` underflows. -/
def printedOps : NumberOps printedNumerics where
  f32OfBits _ := ()
  f64OfBits _ := ⟨0, 0, by decide⟩
  parseF32 _ := none
  parseF64 text := (NzNumeric.parse text).toOption
  parseDecimal text :=
    (NzNumeric.parse text).toOption.bind fun n => printedDecimalOf n.coefficient n.scale
  quotient coefficient scale := ((NzNumeric.new coefficient scale).toOption).getD ⟨0, 0, by decide⟩
  decimalOfF64 number :=
    some ((printedDecimalOf number.coefficient number.scale).getD ⟨(0, 0), by decide⟩)
  decimalOfParts := printedDecimalOf
  decimalEq a b := a.1.1 * 10 ^ b.1.2 == b.1.1 * 10 ^ a.1.2
  decimalScale value := value.1.2

theorem printedOps_facts : DecimalFacts printedOps fun value => value.1.1 where
  parts coefficient scale value h := by
    change printedDecimalOf coefficient scale = some value at h
    unfold printedDecimalOf at h
    by_cases hfits : coefficient.natAbs < 2 ^ 96 ∧ scale ≤ 28
    · rw [dif_pos hfits] at h
      cases h
      exact ⟨hfits.1, rfl, rfl⟩
    · rw [dif_neg hfits] at h
      cases h
  limits value := value.2
  equal a b h := by
    exact beq_iff_eq.mp h

/-- The shortest text of a float is parsed to the float. -/
def ParsesShortest {N : Numerics} (ops : NumberOps N) : Prop :=
  ∀ number, N.f64IsFinite number = true → ops.parseF64 (N.displayF64 number) = some number

theorem printedOps_shortest : ParsesShortest printedOps := by
  have hparsed : ∀ n : NzNumeric,
      (NzNumeric.parse (canonicalText n.coefficient n.scale)).toOption = some n := by
    intro n
    obtain ⟨text, hdisplay, hparse⟩ := n.parse_display
    rw [n.display_eq] at hdisplay
    cases hdisplay
    rw [hparse]
    rfl
  intro number _
  exact hparsed number

def tinyText : Text :=
  "0.0000000000000000000000000000001".toList

def tinyCell : Bytes :=
  tinyText.map fun c => UInt8.ofNat c.toNat

def numericColumn : ColumnDesc where
  name := ['n']
  typeOid := 1700
  typeLen := -1
  typeMod := -1
  format := 0

theorem tiny_read :
    fromRaw printedOps (fun value => value.1.1) (.lazyText numericColumn tinyCell) =
        .ok ⟨1, 31, by decide⟩ ∧
      fromRaw printedOps (fun value => value.1.1)
        (.eager (.float8 ⟨1, 31, by decide⟩) none numericColumn 0) = .ok ⟨0, 0, by decide⟩ :=
  ⟨rfl, rfl⟩

/-- A text of 31 decimals is kept as a float, and no `Decimal` has as many. -/
theorem tiny_read_lost :
    ¬∀ (N : Numerics) (ops : NumberOps N) (mantissa : N.Decimal → Int),
      DecimalFacts ops mantissa → ParsesShortest ops →
      ∀ column cell text value position, column.typeOid = 1700 → cell.length < 2 ^ 31 →
        fromUtf8 cell = some text →
        tryParseTextValue ops text column.typeOid column.typeMod = .ok value →
        Survives (fromRaw ops mantissa (.lazyText column cell))
          (fromRaw ops mantissa (.eager value none column position)) := by
  intro h
  obtain ⟨m, hm, hsame⟩ := h printedNumerics printedOps _ printedOps_facts printedOps_shortest
    numericColumn tinyCell tinyText (.float8 ⟨1, 31, by decide⟩) 0 rfl (by decide) rfl rfl _
    tiny_read.1
  rw [tiny_read.2] at hm
  cases hm
  exact absurd hsame (by decide)

theorem tiny_not_retaken :
    ¬TextRetaken printedOps (fun value => value.1.1) numericColumn tinyCell := by
  intro hretaken
  obtain ⟨m, hm, hsame⟩ := ((exact_reads_survive_iff printedOps _ printedOps_facts).1 numericColumn
    tinyCell tinyText (.float8 ⟨1, 31, by decide⟩) 0 rfl (by decide) rfl rfl).mpr hretaken _
    tiny_read.1
  rw [tiny_read.2] at hm
  cases hm
  exact absurd hsame (by decide)

end NzNumeric

end NzRust
