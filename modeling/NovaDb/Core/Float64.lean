import Mathlib

namespace NovaDb
namespace Core

/-!
# The `f64` of the value type, by bit pattern

Values carry IEEE-754 binary64 numbers.  Equality, the total order and the
conversion from `i64` are what indexes and comparisons rest on, and they are
defined on the bit pattern.  Arithmetic is Lean's own binary64 arithmetic.
-/

/-- An IEEE-754 binary64 number by its bit pattern. -/
structure Float64 where
  bits : UInt64
  deriving DecidableEq, Repr

namespace Float64

/-- The bit pattern without its sign. -/
def magnitude (f : Float64) : Nat :=
  f.bits.toNat % 2 ^ 63

def signBit (f : Float64) : Bool :=
  decide (2 ^ 63 ≤ f.bits.toNat)

def isNan (f : Float64) : Bool :=
  decide (0x7FF0000000000000 < f.magnitude)

/-- IEEE equality: no NaN equals anything and the two zeros are equal. -/
def eq (left right : Float64) : Bool :=
  !left.isNan && !right.isNan &&
    (left.bits == right.bits || (left.magnitude == 0 && right.magnitude == 0))

/-- The signed number `f64::total_cmp` compares. -/
def totalKey (f : Float64) : Int :=
  if f.signBit then -1 - (f.magnitude : Int) else (f.magnitude : Int)

def totalCmp (left right : Float64) : Ordering :=
  compare left.totalKey right.totalKey

/-- The significand of `i64 as f64` for a number of binary exponent `exponent`:
53 bits, rounded to nearest with ties to even. -/
def roundSignificand (number exponent : Nat) : Nat :=
  if exponent ≤ 52 then number * 2 ^ (52 - exponent)
  else
    let shift := exponent - 52
    let kept := number / 2 ^ shift
    let dropped := number % 2 ^ shift
    let half := 2 ^ (shift - 1)
    if half < dropped ∨ (dropped = half ∧ kept % 2 = 1) then kept + 1 else kept

/-- `i64 as f64`.  A significand rounded up to `2 ^ 53` carries into the
exponent field by the addition itself. -/
def ofInt (number : Int) : Float64 :=
  if number = 0 then ⟨0⟩
  else
    let size := number.natAbs
    let exponent := Nat.log 2 size
    let field := (exponent + 1023) * 2 ^ 52 + (roundSignificand size exponent - 2 ^ 52)
    ⟨UInt64.ofNat (if number < 0 then 2 ^ 63 + field else field)⟩

/-- IEEE `<=`: false on NaN, and the two zeros count as one number. -/
def le (left right : Float64) : Bool :=
  !left.isNan && !right.isNan &&
    (decide (left.totalKey ≤ right.totalKey) || (left.magnitude == 0 && right.magnitude == 0))

/-- The biased exponent. -/
def exponentField (f : Float64) : Nat :=
  f.magnitude / 2 ^ 52

/-- The significand with its leading bit, which subnormal numbers lack. -/
def significand (f : Float64) : Nat :=
  if f.exponentField = 0 then f.magnitude % 2 ^ 52 else 2 ^ 52 + f.magnitude % 2 ^ 52

/-- The power of two of the significand's last bit, plus 1075. -/
def scale (f : Float64) : Nat :=
  max f.exponentField 1

/-- `f.fract() == 0.0`: a finite number without a fractional part. -/
def isIntegral (f : Float64) : Bool :=
  decide (f.exponentField < 2047) &&
    (decide (1075 ≤ f.scale) || f.significand % 2 ^ (1075 - f.scale) == 0)

/-- The number without its sign and its fractional part. -/
def truncated (f : Float64) : Nat :=
  if 1075 ≤ f.scale then f.significand * 2 ^ (f.scale - 1075)
  else f.significand / 2 ^ (1075 - f.scale)

/-- `f64 as i64`: truncation towards zero, saturating, with NaN to zero. -/
def toInt64 (f : Float64) : Int64 :=
  if f.isNan then 0
  else
    let whole : Int := if f.signBit then -(f.truncated : Int) else (f.truncated : Int)
    Int64.ofInt (max (-2 ^ 63) (min whole (2 ^ 63 - 1)))

/-- The quotient rounded to nearest with ties to even. -/
def roundQuotient (number divisor : Nat) : Nat :=
  let kept := number / divisor
  let dropped := 2 * (number % divisor)
  if divisor < dropped ∨ (dropped = divisor ∧ kept % 2 = 1) then kept + 1 else kept

/-- `str::parse` of decimal digits with a point, `digits / 10 ^ places`: the
nearest binary64 number, infinity beyond the largest. -/
def ofDecimal (negative : Bool) (digits places : Nat) : Float64 :=
  let sign := if negative then 2 ^ 63 else 0
  let divisor := 10 ^ places
  let exponent : Int :=
    if divisor ≤ digits then (Nat.log 2 (digits / divisor) : Int)
    else -(Nat.clog 2 ((divisor + digits - 1) / digits) : Int)
  -- The power of two of the last bit, which subnormal numbers share.
  let last := max (exponent - 52) (-1074)
  let significand :=
    if 0 ≤ last then roundQuotient digits (divisor * 2 ^ last.toNat)
    else roundQuotient (digits * 2 ^ (-last).toNat) divisor
  let field := (last + 1074).toNat * 2 ^ 52 + significand
  if digits = 0 then ⟨UInt64.ofNat sign⟩
  else ⟨UInt64.ofNat (sign + min field 0x7FF0000000000000)⟩

def toFloat (f : Float64) : Float :=
  Float.ofBits f.bits

/-- The bits of what an operation computes.  A NaN has the canonical bits here; the source
leaves its sign and payload to the processor. -/
def ofFloat (f : Float) : Float64 :=
  ⟨f.toBits⟩

def neg (f : Float64) : Float64 :=
  ⟨f.bits ^^^ 0x8000000000000000⟩

def add (left right : Float64) : Float64 :=
  ofFloat (left.toFloat + right.toFloat)

def sub (left right : Float64) : Float64 :=
  ofFloat (left.toFloat - right.toFloat)

def mul (left right : Float64) : Float64 :=
  ofFloat (left.toFloat * right.toFloat)

def div (left right : Float64) : Float64 :=
  ofFloat (left.toFloat / right.toFloat)

end Float64
end Core
end NovaDb
