import EffectGraph.Number.Binary

/-!
# `Number.Decimal` — the fewest digits that read back

A magnitude of a binary format is written with the fewest decimal digits that `nearest` takes back
to it, and among those with the ones nearest to it. `BinaryFormat.shortest` finds them in exact
arithmetic: a magnitude of `u` units is `u * 5 ^ k` in units of `10 ^ -k`, so its first `n` digits
are a quotient by a power of ten, and the only candidates of `n` digits are that quotient and its
successor. `DecimalStyle` holds the choices that a written form still has.
-/

namespace EffectGraph

/-- The decimal `significand * 10 ^ exponent`. -/
structure Decimal where
  /-- The digits, read as a whole number. -/
  significand : Nat
  /-- The power of ten that they are scaled by. -/
  exponent : Int
deriving DecidableEq, Repr

/-- Which of two equally near candidates is taken. -/
inductive TieBreak where
  /-- The greater one. -/
  | up
  /-- The one whose last digit is even. -/
  | even
deriving DecidableEq, Repr

namespace Decimal

/-- The code that a decimal reads as. -/
def code (f : BinaryFormat) (d : Decimal) : Nat :=
  f.nearest (d.significand * Nat.pow 10 d.exponent.toNat * Nat.pow 2 f.unitExponent)
    (Nat.pow 10 (-d.exponent).toNat)

/-- The digits of the significand, without trailing zeros. -/
def digits (d : Decimal) : List Char :=
  ((Nat.toDigits 10 d.significand).reverse.dropWhile (· == '0')).reverse

/-- How many digits stand before the decimal point: the decimal is `0.d₁d₂… * 10 ^ point`. -/
def point (d : Decimal) : Int :=
  (Nat.toDigits 10 d.significand).length + d.exponent

end Decimal

namespace BinaryFormat

/-- The magnitude of a code, exactly. -/
def exact (f : BinaryFormat) (code : Nat) : Decimal :=
  ⟨f.units code * Nat.pow 5 f.unitExponent, -f.unitExponent⟩

/-- The decimal nearest to a magnitude among those of its digits before the last `dropped` ones
    that read back as its code. -/
def shortened? (f : BinaryFormat) (tie : TieBreak) (code dropped : Nat) : Option Decimal :=
  let whole := f.exact code
  let step := Nat.pow 10 dropped
  let below : Decimal := ⟨whole.significand / step, whole.exponent + dropped⟩
  let above : Decimal := ⟨below.significand + 1, below.exponent⟩
  let rest := whole.significand % step
  let upward := step < 2 * rest ||
    step == 2 * rest && (tie == .up || below.significand % 2 == 1)
  let first := if upward then above else below
  let second := if upward then below else above
  if first.code f == code then some first
  else if second.code f == code then some second
  else none

/-- The number of digits that always suffices. -/
def digitBound (f : BinaryFormat) : Nat := f.fractionBits * 3 / 10 + 3

/-- The shortest decimal that reads back as a code, and the nearest one of that length. -/
def shortest (f : BinaryFormat) (tie : TieBreak) (code : Nat) : Decimal :=
  let total := (Nat.toDigits 10 (f.exact code).significand).length
  ((List.range f.digitBound).findSome? fun n => f.shortened? tie code (total - (n + 1))).getD
    (f.exact code)

end BinaryFormat

/-! ## Written forms -/

/-- How a decimal is written. -/
structure DecimalStyle where
  /-- What a tie between two shortest decimals goes to. -/
  tie : TieBreak
  /-- The least number of places before the point that is written without an exponent. -/
  leastPoint : Int
  /-- The greatest such number. -/
  greatestPoint : Int
  /-- What stands before a positive exponent. -/
  exponentMark : String

namespace DecimalStyle

/-- The text of a positive decimal: digits around a point with at least one on either side, or one
    digit before the point and an exponent when the point would stand too far away. -/
def write (style : DecimalStyle) (d : Decimal) : String :=
  let ds := d.digits
  let zeros (n : Nat) := List.replicate n '0'
  if style.leastPoint ≤ d.point ∧ d.point ≤ style.greatestPoint then
    if d.point ≤ 0 then
      String.ofList (['0', '.'] ++ zeros (-d.point).toNat ++ ds)
    else
      let whole := d.point.toNat
      let fraction := ds.drop whole
      String.ofList (ds.take whole ++ zeros (whole - ds.length) ++ ['.'] ++
        if fraction.isEmpty then ['0'] else fraction)
  else
    let fraction := ds.drop 1
    let exponent := d.point - 1
    String.ofList (ds.take 1 ++ if fraction.isEmpty then [] else '.' :: fraction) ++ "e" ++
      (if exponent < 0 then "-" else style.exponentMark) ++
      String.ofList (Nat.toDigits 10 exponent.natAbs)

/-- The text of a code with its sign. Zero has no digits of its own. -/
def writeCode (style : DecimalStyle) (f : BinaryFormat) (negative : Bool) (code : Nat) : String :=
  (if negative then "-" else "") ++
    if code = 0 then "0.0" else style.write (f.shortest style.tie code)

end DecimalStyle

/-- A number in a formula has an exponent from `1e16` on and below `0.0001`. -/
def formulaStyle : DecimalStyle := ⟨.up, -3, 16, ""⟩

/-- A number in a document has an exponent from `1e+16` on and below `0.00001`. -/
def documentStyle : DecimalStyle := ⟨.even, -4, 16, "+"⟩

/-- The text of a 32-bit number in a formula. -/
def Single.text (x : Float32) : String :=
  if x.isNaN then "NaN"
  else if Single.isFinite x then
    formulaStyle.writeCode .single (Single.isNegative x) (Single.code x)
  else if Single.isNegative x then "-inf" else "inf"

/-- The text of a finite 64-bit number in a document. -/
def Double.text (x : Float) : String :=
  documentStyle.writeCode .double (Double.isNegative x) (Double.code x)

end EffectGraph
