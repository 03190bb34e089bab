/-!
# `Number.Binary` — binary floating-point formats, exactly

A finite magnitude of a binary format is a whole number of *units*, the least positive magnitude of
that format, so everything about rounding is said in natural numbers. The *code* of a magnitude is
its encoding without the sign bit; codes are ordered as the magnitudes are, and the code after the
last finite one is infinity.

## Contents
- `BinaryFormat` with `units` (code to magnitude) and `nearest` (magnitude to code).
- `Single` and `Double`: the codes of core's two floating-point types, and the change from one to
  the other.
-/

namespace EffectGraph

/-- The quotient `num / den` rounded to the nearest whole number, a half going to the even one. -/
def roundEven (num den : Nat) : Nat :=
  let q := num / den
  let r := num % den
  if 2 * r < den then q
  else if den < 2 * r then q + 1
  else q + q % 2

/-- A binary interchange format, given by the widths of its two fields. -/
structure BinaryFormat where
  /-- Bits of the stored fraction. -/
  fractionBits : Nat
  /-- Bits of the stored exponent. -/
  exponentBits : Nat
deriving DecidableEq, Repr

namespace BinaryFormat

/-- The 32-bit format. -/
def single : BinaryFormat := ⟨23, 8⟩

/-- The 64-bit format. -/
def double : BinaryFormat := ⟨52, 11⟩

/-- The code of infinity: every bit of the exponent is set and none of the fraction. -/
def infinity (f : BinaryFormat) : Nat := (Nat.pow 2 f.exponentBits - 1) * Nat.pow 2 f.fractionBits

/-- The weight of the sign bit, one more than the greatest code. -/
def signBit (f : BinaryFormat) : Nat := Nat.pow 2 (f.exponentBits + f.fractionBits)

/-- The unit is two to the power of minus this number. -/
def unitExponent (f : BinaryFormat) : Nat := Nat.pow 2 (f.exponentBits - 1) - 2 + f.fractionBits

/-- The magnitude of a finite code, in units. Below the second binade a code is its own
    magnitude; every further binade doubles the step. -/
def units (f : BinaryFormat) (code : Nat) : Nat :=
  let binade := code / Nat.pow 2 f.fractionBits - 1
  (code - binade * Nat.pow 2 f.fractionBits) * Nat.pow 2 binade

/-- The code nearest to the magnitude of `num / den` units, a half going to the even code; what is
    too large for a finite code is infinity. -/
def nearest (f : BinaryFormat) (num den : Nat) : Nat :=
  let binade := (num / den).log2 - f.fractionBits
  min (roundEven num (den * Nat.pow 2 binade) + binade * Nat.pow 2 f.fractionBits) f.infinity

end BinaryFormat

/-! ## The 32-bit numbers -/

namespace Single

/-- The code of a number: its bits without the sign. -/
def code (x : Float32) : Nat := x.toBits.toNat % BinaryFormat.single.signBit

/-- Whether the sign bit is set. -/
def isNegative (x : Float32) : Bool := BinaryFormat.single.signBit ≤ x.toBits.toNat

/-- The number with the given sign and code. -/
def ofCode (negative : Bool) (code : Nat) : Float32 :=
  Float32.ofBits (UInt32.ofNat (code + if negative then BinaryFormat.single.signBit else 0))

/-- A whole number, rounded once. -/
def ofInt (n : Int) : Float32 :=
  let units := n.natAbs * Nat.pow 2 BinaryFormat.single.unitExponent
  ofCode (n < 0) (BinaryFormat.single.nearest units 1)

/-- Not a number. -/
def nan : Float32 := ofCode false (BinaryFormat.single.infinity + Nat.pow 2 22)

/-- Whether the number is neither infinite nor `nan`. -/
def isFinite (x : Float32) : Bool := code x < BinaryFormat.single.infinity

/-- The remainder of the division that truncates toward zero. It has the sign of the dividend, is
    exact, and is `nan` for an infinite dividend and for a divisor of zero. -/
def remainder (x y : Float32) : Float32 :=
  let f := BinaryFormat.single
  if x.isNaN || y.isNaN || !isFinite x || code y == 0 then nan
  else if !isFinite y then x
  else ofCode (isNegative x) (f.nearest (f.units (code x) % f.units (code y)) 1)

end Single

/-! ## The 64-bit numbers -/

namespace Double

/-- The code of a number: its bits without the sign. -/
def code (x : Float) : Nat := x.toBits.toNat % BinaryFormat.double.signBit

/-- Whether the sign bit is set. -/
def isNegative (x : Float) : Bool := BinaryFormat.double.signBit ≤ x.toBits.toNat

/-- The number with the given sign and code. -/
def ofCode (negative : Bool) (code : Nat) : Float :=
  Float.ofBits (UInt64.ofNat (code + if negative then BinaryFormat.double.signBit else 0))

/-- Whether the number is neither infinite nor `nan`. -/
def isFinite (x : Float) : Bool := code x < BinaryFormat.double.infinity

/-- A natural number, rounded once. -/
def ofNat (n : Nat) : Float :=
  ofCode false (BinaryFormat.double.nearest (n * Nat.pow 2 BinaryFormat.double.unitExponent) 1)

end Double

/-- How many times the 64-bit unit goes into the 32-bit unit. -/
def unitRatio : Nat :=
  Nat.pow 2 (BinaryFormat.double.unitExponent - BinaryFormat.single.unitExponent)

/-- The 64-bit number equal to a finite 32-bit one. -/
def widen (x : Float32) : Float :=
  Double.ofCode (Single.isNegative x)
    (BinaryFormat.double.nearest (BinaryFormat.single.units (Single.code x) * unitRatio) 1)

/-- The 32-bit number nearest to a finite 64-bit one, infinite when it is out of range. -/
def narrow (x : Float) : Float32 :=
  Single.ofCode (Double.isNegative x)
    (BinaryFormat.single.nearest (BinaryFormat.double.units (Double.code x)) unitRatio)

end EffectGraph
