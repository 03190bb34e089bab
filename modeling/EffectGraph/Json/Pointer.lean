import EffectGraph.Json.Basic
import EffectGraph.Text.Digits

/-!
# `Json.Pointer` — places in a document

A list of names leads from the root of a document to a place in it, one member or one array item
after the other. A pointer is such a list as text: each name stands after a slash, with `~` written
`~0` and a slash written `~1`.

## Contents
- `Json.follow?` and `Json.replaceAt`, reading and replacing along a list of names.
- `Pointer.escape` and `Pointer.unescape`, the written form of one name.
- `Pointer.names?`, the names that a pointer stands for.
- `Pointer.lend`, a change of the place that a pointer leads to.
-/

namespace EffectGraph

namespace Json

/-- The index that a name stands for in an array: decimal digits without a needless zero in front. -/
def arrayIndex? (name : String) : Option Nat :=
  match name.toList with
  | [] => none
  | '0' :: _ :: _ => none
  | cs =>
    if cs.all Char.isDigit then some (ofDigits (cs.map digitValue)) else none

/-- The place that a name leads to. -/
def step? (name : String) : Json → Option Json
  | .object members => Table.get? members name
  | .array items => (arrayIndex? name).bind fun index => items[index]?
  | _ => none

/-- The place that a list of names leads to. -/
def follow? : List String → Json → Option Json
  | [], json => some json
  | name :: rest, json => (json.step? name).bind (follow? rest)

/-- The value with another one in the place that a name leads to. -/
def replaceStep (name : String) (value : Json) : Json → Json
  | .object members => .object (Table.replace name value members)
  | .array items =>
    match arrayIndex? name with
    | none => .array items
    | some index => .array (items.set index value)
  | json => json

/-- The value with another one in the place that a list of names leads to, or itself if there is no
    such place. -/
def replaceAt : List String → Json → Json → Json
  | [], value, _ => value
  | name :: rest, value, json =>
    match json.step? name with
    | none => json
    | some child => replaceStep name (replaceAt rest value child) json

end Json

namespace Pointer

/-- A character of a name inside a pointer. -/
def escapeChar (c : Char) : List Char :=
  if c = '~' then ['~', '0'] else if c = '/' then ['~', '1'] else [c]

/-- A name inside a pointer. -/
def escape (name : List Char) : List Char := name.flatMap escapeChar

/-- The text with a character in place of every `~` that the given digit follows. -/
def replacePair (digit c : Char) : List Char → List Char
  | [] => []
  | [a] => [a]
  | a :: b :: rest =>
    if a = '~' ∧ b = digit then c :: replacePair digit c rest
    else a :: replacePair digit c (b :: rest)

/-- The name that a part of a pointer stands for: first the slashes are put back, then the rest. -/
def unescape (part : List Char) : List Char := replacePair '0' '~' (replacePair '1' '/' part)

/-- The names that a pointer stands for, `none` for a text that is neither empty nor starts with a
    slash. -/
def names? (pointer : List Char) : Option (List String) :=
  match pointer.splitOn '/' with
  | [[]] => some []
  | [] :: parts => some (parts.map fun part => String.ofList (unescape part))
  | _ => none

/-- The text before the last slash and the text after it, `none` without a slash. -/
def splitLast? (text : List Char) : Option (List Char × List Char) :=
  match text.reverse.dropWhile (· != '/') with
  | [] => none
  | _ :: parent => some (parent.reverse, (text.reverse.takeWhile (· != '/')).reverse)

/-- The place that a pointer leads to. -/
def resolve? (pointer : String) (document : Json) : Option Json :=
  (names? pointer.toList).bind fun names => Json.follow? names document

/-- Runs an action on the place that a pointer leads to, with what stands there as its state. What the
    action leaves stands there afterwards, also when it fails half way. -/
def lend {ε α : Type} (pointer : List Char) (missing : ε) (action : EStateM ε Json α) :
    EStateM ε Json α := fun document =>
  match names? pointer with
  | none => .error missing document
  | some names =>
    match Json.follow? names document with
    | none => .error missing document
    | some place =>
      match action place with
      | .ok a left => .ok a (Json.replaceAt names left document)
      | .error e left => .error e (Json.replaceAt names left document)

end Pointer
end EffectGraph
