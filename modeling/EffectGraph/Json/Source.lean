import EffectGraph.Json.Basic
import EffectGraph.Text.Digits

/-!
# `Json.Source` — the text of a document as it was written

Reading has two steps. The first, here, follows the grammar alone: `Source.ofText` gives the tree of
a text with its members in the order they were written, repeated names included. A number out of
range and a string with half of a surrogate pair are grammatical; they are kept as `none`, because
whether they matter depends on where they stand. The second step, `Json.Layout`, decides that.

## Contents
- `Source`, the tree.
- `NumberText` and its value: the digits are gathered in 64 bits and scaled by one power of ten, so
  the value is the correctly rounded one only when both fit their 53 bits.
- `Source.ofText`, the grammar.
-/

namespace EffectGraph

/-- The tree of a document text. -/
inductive Source where
  | null
  | bool (b : Bool)
  /-- A number, `none` when its magnitude is out of range. -/
  | number (n : Option JsonNumber)
  /-- A string, `none` when it has half of a surrogate pair. -/
  | string (s : Option String)
  | array (items : List Source)
  | object (members : List (Option String × Source))

instance : Inhabited Source := ⟨.null⟩

/-! ## Numbers -/

/-- The parts of a written number. -/
structure NumberText where
  /-- Whether a minus sign stands in front. -/
  negative : Bool
  /-- The digits before the point. -/
  whole : List Nat
  /-- The digits after the point. -/
  fraction : Option (List Nat)
  /-- The sign and the digits of the exponent. -/
  exponent : Option (Bool × List Nat)

namespace NumberText

/-- The digits gathered so far and the power of ten that they still have to be scaled by. -/
structure Gathered where
  /-- The digits as a number below `2 ^ 64`. -/
  significand : Nat
  /-- The power of ten. -/
  exponent : Int

/-- Gathers the digits before the point. From the first one that does not fit on, a digit only
    counts. -/
def gatherWhole : Nat → List Nat → Gathered
  | significand, [] => ⟨significand, 0⟩
  | significand, digit :: rest =>
    if significand * 10 + digit < UInt64.size then gatherWhole (significand * 10 + digit) rest
    else ⟨significand, rest.length + 1⟩

/-- Gathers the digits after the point. From the first one that does not fit on, digits are
    dropped. -/
def gatherFraction : Gathered → List Nat → Gathered
  | gathered, [] => gathered
  | ⟨significand, exponent⟩, digit :: rest =>
    if significand * 10 + digit < UInt64.size then
      gatherFraction ⟨significand * 10 + digit, exponent - 1⟩ rest
    else ⟨significand, exponent⟩

/-- The 64-bit number nearest to a power of ten that is in range. -/
def powerOfTen (k : Nat) : Float := Double.ofNat (Nat.pow 10 k)

/-- Divides by a power of ten, in steps that keep each divisor in range. -/
def scaleDown (x : Float) (k : Nat) : Float :=
  if k ≤ 308 then x / powerOfTen k
  else if x == 0 then x
  else scaleDown (x / powerOfTen 308) (k - 308)
termination_by k

/-- The magnitude of gathered digits, `none` when it is out of range. -/
def magnitude? (gathered : Gathered) : Option Float :=
  let x := Double.ofNat gathered.significand
  if gathered.exponent < 0 then some (scaleDown x gathered.exponent.natAbs)
  else if x == 0 then some x
  else if 308 < gathered.exponent then none
  else
    let scaled := x * powerOfTen gathered.exponent.toNat
    if Double.isFinite scaled then some scaled else none

/-- The value of a written number, `none` when it is out of range. Without a fraction and an
    exponent it is an integer, as long as it fits 64 bits and is not `-0`. -/
def value? (text : NumberText) : Option JsonNumber :=
  let whole := gatherWhole 0 text.whole
  let real : Option JsonNumber := do
    let gathered := match text.fraction with
      | none => whole
      | some digits => gatherFraction whole digits
    let shift : Int := match text.exponent with
      | none => 0
      | some (negative, digits) => if negative then -ofDigits digits else ofDigits digits
    let x ← magnitude? { gathered with exponent := gathered.exponent + shift }
    return .real (if text.negative then -x else x)
  if text.fraction.isSome || text.exponent.isSome || whole.exponent != 0 then real
  else if !text.negative then some (.integer whole.significand)
  else if 0 < whole.significand && whole.significand ≤ Nat.pow 2 63 then
    some (.integer (-whole.significand))
  else real

end NumberText

namespace Source

/-- The digits that a text starts with, and what follows them. -/
def readDigits (text : List Char) : List Nat × List Char :=
  ((text.takeWhile Char.isDigit).map digitValue, text.dropWhile Char.isDigit)

/-- The digits before the point: one zero, or digits that do not start with zero. -/
def readWhole (text : List Char) : Option (List Nat × List Char) :=
  match readDigits text with
  | ([], _) => none
  | (0 :: _ :: _, _) => none
  | (digits, rest) => some (digits, rest)

/-- The point and the digits after it, if there is a point. -/
def readFraction : List Char → Option (Option (List Nat) × List Char)
  | '.' :: rest =>
    match readDigits rest with
    | ([], _) => none
    | (digits, rest) => some (some digits, rest)
  | text => some (none, text)

/-- The digits of an exponent with the given sign. -/
def readPower (negative : Bool) (text : List Char) :
    Option (Option (Bool × List Nat) × List Char) :=
  match readDigits text with
  | ([], _) => none
  | (digits, rest) => some (some (negative, digits), rest)

/-- The exponent, if there is one. -/
def readExponent : List Char → Option (Option (Bool × List Nat) × List Char)
  | [] => some (none, [])
  | c :: rest =>
    if c = 'e' ∨ c = 'E' then
      match rest with
      | '-' :: rest => readPower true rest
      | '+' :: rest => readPower false rest
      | rest => readPower false rest
    else some (none, c :: rest)

/-- A number and what follows it. -/
def readNumber (text : List Char) : Option (NumberText × List Char) := do
  let (negative, text) := match text with
    | '-' :: rest => (true, rest)
    | text => (false, text)
  let (whole, text) ← readWhole text
  let (fraction, text) ← readFraction text
  let (exponent, text) ← readExponent text
  return (⟨negative, whole, fraction, exponent⟩, text)

/-! ## Strings -/

/-- A piece of a written string. -/
inductive Piece where
  /-- A character, plain or with an escape of its own. -/
  | char (c : Char)
  /-- A code unit given in hexadecimal. -/
  | unit (n : Nat)

/-- The string of a list of pieces, `none` when a surrogate is not in a pair. -/
def join : List Piece → Option (List Char)
  | [] => some []
  | .char c :: rest => (c :: ·) <$> join rest
  | .unit high :: rest =>
    if high < 0xD800 ∨ 0xDFFF < high then (Char.ofNat high :: ·) <$> join rest
    else
      match rest with
      | .unit low :: rest =>
        if high < 0xDC00 ∧ 0xDC00 ≤ low ∧ low ≤ 0xDFFF then
          (Char.ofNat (0x10000 + (high - 0xD800) * 0x400 + (low - 0xDC00)) :: ·) <$> join rest
        else none
      | _ => none

/-- The character that a one-letter escape stands for. -/
def escaped? : Char → Option Char
  | '"' => some '"'
  | '\\' => some '\\'
  | '/' => some '/'
  | 'b' => some '\x08'
  | 'f' => some '\x0c'
  | 'n' => some '\n'
  | 'r' => some '\r'
  | 't' => some '\t'
  | _ => none

/-- The pieces of a string up to its closing quote, and what follows that. -/
def readPieces : List Char → Option (List Piece × List Char)
  | [] => none
  | '"' :: rest => some ([], rest)
  | '\\' :: 'u' :: a :: b :: c :: d :: rest => do
    let unit := ((← hexValue? a) * 16 + (← hexValue? b)) * 256 +
      ((← hexValue? c) * 16 + (← hexValue? d))
    let (pieces, rest) ← readPieces rest
    return (.unit unit :: pieces, rest)
  | '\\' :: e :: rest => do
    let c ← escaped? e
    let (pieces, rest) ← readPieces rest
    return (.char c :: pieces, rest)
  | c :: rest => do
    if c.toNat < 0x20 then none
    let (pieces, rest) ← readPieces rest
    return (.char c :: pieces, rest)

/-- The string whose opening quote was just read, and what follows it. -/
def readString (text : List Char) : Option (Option String × List Char) := do
  let (pieces, rest) ← readPieces text
  return ((join pieces).map String.ofList, rest)

/-! ## Values -/

/-- The text after the blanks that it starts with. -/
def skipBlanks (text : List Char) : List Char :=
  text.dropWhile fun c => c == ' ' || c == '\t' || c == '\n' || c == '\r'

mutual

/-- A value and what follows it. Every step of the grammar reads a character, so the length of the
    text is enough fuel. -/
def readValue : Nat → List Char → Option (Source × List Char)
  | 0, _ => none
  | fuel + 1, text =>
    match skipBlanks text with
    | 'n' :: 'u' :: 'l' :: 'l' :: rest => some (.null, rest)
    | 't' :: 'r' :: 'u' :: 'e' :: rest => some (.bool true, rest)
    | 'f' :: 'a' :: 'l' :: 's' :: 'e' :: rest => some (.bool false, rest)
    | '"' :: rest => (readString rest).map fun (s, rest) => (.string s, rest)
    | '[' :: rest =>
      match skipBlanks rest with
      | ']' :: rest => some (.array [], rest)
      | rest => (readItems fuel rest).map fun (items, rest) => (.array items, rest)
    | '\x7b' :: rest =>
      match skipBlanks rest with
      | '\x7d' :: rest => some (.object [], rest)
      | rest => (readMembers fuel rest).map fun (members, rest) => (.object members, rest)
    | rest => (readNumber rest).map fun (n, rest) => (.number n.value?, rest)

/-- The items of an array up to its closing bracket, and what follows that. -/
def readItems : Nat → List Char → Option (List Source × List Char)
  | 0, _ => none
  | fuel + 1, text => do
    let (item, rest) ← readValue fuel text
    match skipBlanks rest with
    | ',' :: rest =>
      let (items, rest) ← readItems fuel rest
      return (item :: items, rest)
    | ']' :: rest => return ([item], rest)
    | _ => none

/-- The members of an object up to its closing brace, and what follows that. -/
def readMembers : Nat → List Char → Option (List (Option String × Source) × List Char)
  | 0, _ => none
  | fuel + 1, text => do
    let '"' :: rest := skipBlanks text | none
    let (name, rest) ← readString rest
    let ':' :: rest := skipBlanks rest | none
    let (value, rest) ← readValue fuel rest
    match skipBlanks rest with
    | ',' :: rest =>
      let (members, rest) ← readMembers fuel rest
      return ((name, value) :: members, rest)
    | '\x7d' :: rest => return ([(name, value)], rest)
    | _ => none

end

/-- The tree of a text, `none` when the text is not one value. -/
def ofText (text : String) : Option Source := do
  let (value, rest) ← readValue (text.length + 1) text.toList
  if (skipBlanks rest).isEmpty then some value else none

end Source
end EffectGraph
