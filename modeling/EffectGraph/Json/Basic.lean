import EffectGraph.Number.Decimal
import EffectGraph.Table

/-!
# `Json.Basic` — document values

A document is a JSON value. Integers and reals are different numbers (`1` is not `1.0`), and the
members of an object are a `Table`, so their order carries no information. `Json.render` writes a
value without blanks; reading is in `Json.Source`.
-/

namespace EffectGraph

/-- A number of a document. -/
inductive JsonNumber where
  /-- A number written without a fraction or an exponent. -/
  | integer (n : Int)
  /-- Any other number, and an integer too large for 64 bits. It is finite. -/
  | real (x : Float)

/-- The text of a number. -/
def JsonNumber.text : JsonNumber → String
  | .integer n => toString n
  | .real x => Double.text x

/-- A document value. -/
inductive Json where
  | null
  | bool (b : Bool)
  | number (n : JsonNumber)
  | string (s : String)
  | array (items : List Json)
  | object (members : List (String × Json))

instance : Inhabited Json := ⟨.null⟩

namespace Json

/-- Whether a value is `null`, which stands for "nothing" in the free parts of a document. -/
def isNull : Json → Bool
  | .null => true
  | _ => false

/-- A natural number. -/
def nat (n : Nat) : Json := .number (.integer n)

/-- A 32-bit number: the equal 64-bit one, or `null` when there is none. -/
def ofSingle (x : Float32) : Json :=
  if Single.isFinite x then .number (.real (widen x)) else .null

/-- The member list that holds `value` under `name` unless it is left out. -/
def member (name : String) (leftOut : Bool) (value : Json) : List (String × Json) :=
  if leftOut then [] else [(name, value)]

/-! ## Writing -/

/-- The hexadecimal digit of a number below sixteen. -/
def hexDigit (n : Nat) : Char := Nat.digitChar n

/-- A character inside a quoted string. -/
def quoteChar (c : Char) : List Char :=
  match c with
  | '"' => ['\\', '"']
  | '\\' => ['\\', '\\']
  | '\x08' => ['\\', 'b']
  | '\x0c' => ['\\', 'f']
  | '\n' => ['\\', 'n']
  | '\r' => ['\\', 'r']
  | '\t' => ['\\', 't']
  | c =>
    if c.toNat < 0x20 then
      ['\\', 'u', '0', '0', hexDigit (c.toNat / 16), hexDigit (c.toNat % 16)]
    else [c]

/-- A string in quotes. -/
def quote (s : String) : String :=
  "\"" ++ String.ofList (s.toList.flatMap quoteChar) ++ "\""

mutual

/-- The text of a value, without blanks. -/
def render : Json → String
  | .null => "null"
  | .bool b => if b then "true" else "false"
  | .number n => n.text
  | .string s => quote s
  | .array items => "[" ++ ",".intercalate (renderItems items) ++ "]"
  | .object members => "\x7b" ++ ",".intercalate (renderMembers members) ++ "\x7d"

/-- The texts of the items of an array. -/
def renderItems : List Json → List String
  | [] => []
  | item :: rest => render item :: renderItems rest

/-- The texts of the members of an object. -/
def renderMembers : List (String × Json) → List String
  | [] => []
  | (name, value) :: rest => (quote name ++ ":" ++ render value) :: renderMembers rest

end

end Json
end EffectGraph
