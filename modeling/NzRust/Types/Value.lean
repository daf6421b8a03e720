import NzRust.Core.Digits
import NzRust.Core.Error

/-!
# Runtime values

`NzValue` over the number types of the driver. Binary floating point and
`rust_decimal` are not modelled: their types and the operations the driver
calls on them are the fields of `Numerics`.
-/

namespace NzRust

/-- `f32`, `f64` and `rust_decimal::Decimal`, as far as the driver uses them. -/
structure Numerics where
  F32 : Type
  F64 : Type
  Decimal : Type
  f32ToF64 : F32 → F64
  f64IsFinite : F64 → Bool
  displayF64 : F64 → Text
  displayDecimal : Decimal → Text

/-- A single Netezza value. -/
inductive NzValue (N : Numerics) where
  | null
  | bool (value : Bool)
  | int2 (value : Int16)
  | int4 (value : Int32)
  | int8 (value : Int64)
  | float4 (value : N.F32)
  | float8 (value : N.F64)
  | numeric (text : Text)
  | decimal (value : N.Decimal)
  | text (text : Text)
  | date (text : Text)
  | time (text : Text)
  | timetz (text : Text)
  | timestamp (text : Text)
  | interval (text : Text)
  | bytea (bytes : Bytes)

end NzRust
