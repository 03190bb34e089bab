import EffectGraph.Json.Decode
import EffectGraph.Text.Digits

/-!
# `Document.Uuid` — identifiers

An identifier has 128 bits, kept as the 32 hexadecimal digits that it is written with. The identifier
of zeros is nil and stands for "none yet".
-/

namespace EffectGraph

/-- An identifier, by its hexadecimal digits. -/
structure Uuid where
  /-- The digits, each below sixteen. -/
  digits : List (Fin 16)
  length_digits : digits.length = 32
deriving DecidableEq

namespace Uuid

/-- The identifier of zeros. -/
def nil : Uuid := ⟨List.replicate 32 0, by simp⟩

instance : Inhabited Uuid := ⟨nil⟩

/-- Whether an identifier is the one of zeros. -/
def isNil (id : Uuid) : Bool := id == nil

/-- The lower case digit of a number below sixteen. -/
def digitChar (d : Fin 16) : Char := Nat.digitChar d

/-- The value of a digit of either case. -/
def digit? (c : Char) : Option (Fin 16) := do
  let n ← hexValue? c
  if h : n < 16 then some ⟨n, h⟩ else none

/-- The text of an identifier: groups of eight, four, four, four and twelve digits. -/
def text (id : Uuid) : String :=
  let cs := id.digits.map digitChar
  String.ofList (cs.take 8 ++ '-' :: (cs.drop 8).take 4 ++ '-' :: (cs.drop 12).take 4 ++
    '-' :: (cs.drop 16).take 4 ++ '-' :: cs.drop 20)

/-- The identifier of a list of digits, if there are 32. -/
def ofDigits? (cs : List Char) : Option Uuid := do
  let digits ← cs.mapM digit?
  if h : digits.length = 32 then some ⟨digits, h⟩ else none

/-- The digits of a text in groups, if the hyphens stand where they should. -/
def ungroup? (cs : List Char) : Option (List Char) :=
  match cs.drop 8, cs.drop 13, cs.drop 18, cs.drop 23 with
  | '-' :: _, '-' :: _, '-' :: _, '-' :: last =>
    some (cs.take 8 ++ (cs.drop 9).take 4 ++ (cs.drop 14).take 4 ++ (cs.drop 19).take 4 ++ last)
  | _, _, _, _ => none

/-- The name of the scheme that identifiers may be written under, in lower case. -/
def scheme : List Char := "urn:uuid:".toList

/-- Reads an identifier: 32 digits, or digits in groups, which may stand in braces or after the name
    of the scheme. Letters may have either case throughout. -/
def ofText? (s : String) : Option Uuid :=
  let cs := s.toList
  let grouped (cs : List Char) : Option Uuid := (ungroup? cs).bind ofDigits?
  if cs.length = 32 then ofDigits? cs
  else if cs.length = 36 then grouped cs
  else if cs.length = 38 ∧ cs.head? = some '\x7b' ∧ cs.getLast? = some '\x7d' then
    grouped (cs.drop 1).dropLast
  else if cs.length = 45 ∧ (cs.take 9).map Char.toLower = scheme then grouped (cs.drop 9)
  else none

/-- The document form of an identifier. -/
def toJson (id : Uuid) : Json := .string id.text

/-- Reads an identifier from a document. -/
def ofJson : Json → Decoded Uuid
  | .string s =>
    match ofText? s with
    | none => .error (.outOfRange (.string s) .identifier)
    | some id => .ok id
  | found => .error (.mistyped found .identifier)

end Uuid
end EffectGraph
