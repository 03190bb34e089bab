import EffectGraph.Json.Basic
import EffectGraph.Text.Quoted

/-!
# `Json.Decode` — reading typed values from a document

A decoder takes a `Json` value to a value of a type or to the reason why there is none. The decoders
here are for the shapes that the types of this library are written in: numbers, strings, plain
choices (a name), tagged choices (an object of one member) and records (an object, or an array of
the fields in order).
-/

namespace EffectGraph

/-- What a decoder wanted to see. -/
inductive Expectation where
  /-- A natural number below `2 ^ 32`. -/
  | uint32
  /-- Any number. -/
  | float32
  | boolean
  | string
  | map
  | sequence
  /-- Nothing: the `null` beside the name of a plain choice. -/
  | unit
  /-- A choice: a name, or a name with a value. -/
  | choice
  /-- An object of one member. -/
  | singleKey
  /-- The value that goes with the name of a choice. -/
  | payload
  /-- A record of the given name. -/
  | record (name : String)
  /-- A shorter array. -/
  | fewerItems
  /-- An identifier. -/
  | identifier

/-- How a message names an expectation. -/
def Expectation.text : Expectation → String
  | .uint32 => "u32"
  | .float32 => "f32"
  | .boolean => "a boolean"
  | .string => "a string"
  | .map => "a map"
  | .sequence => "a sequence"
  | .unit => "unit"
  | .choice => "string or map"
  | .singleKey => "map with a single key"
  | .payload => "newtype variant"
  | .record name => "struct " ++ name
  | .fewerItems => "fewer elements in array"
  | .identifier => "a UUID string"

/-- Why a value could not be decoded. -/
inductive DecodeError where
  /-- A value of another type than expected. -/
  | mistyped (found : Json) (expected : Expectation)
  /-- A value of the right type that is not one of those expected. -/
  | outOfRange (found : Json) (expected : Expectation)
  /-- A name without the value that has to go with it. -/
  | missingPayload (name : String)
  /-- An array of the wrong length. -/
  | length (found : Nat) (expected : Expectation)
  /-- A name that is none of the choices. -/
  | unknownVariant (name : String) (known : List String)
  /-- A record without a member that it needs. -/
  | missingField (name : String)
  /-- An object that would have a member whose name is not a string. -/
  | keyNotString
  /-- A value that its reader turned down for a reason of its own. -/
  | refused (reason : String)

namespace DecodeError

/-- How a message names what was found. -/
def describe : Json → String
  | .null => "null"
  | .bool b => "boolean " ++ Text.ticked (if b then "true" else "false")
  | .number (.integer n) => "integer " ++ Text.ticked (toString n)
  | .number (.real x) => "floating point " ++ Text.ticked (Double.text x)
  | .string s => "string " ++ Text.quoted s
  | .array _ => "sequence"
  | .object _ => "map"

/-- How a message lists the names of a choice. -/
def alternatives : List String → String
  | [] => "there are no variants"
  | [a] => "expected " ++ Text.ticked a
  | [a, b] => "expected " ++ Text.ticked a ++ " or " ++ Text.ticked b
  | names => "expected one of " ++ ", ".intercalate (names.map Text.ticked)

/-- The reason in words. -/
def message : DecodeError → String
  | .mistyped found expected => "invalid type: " ++ describe found ++ ", expected " ++ expected.text
  | .outOfRange found expected =>
    "invalid value: " ++ describe found ++ ", expected " ++ expected.text
  | .missingPayload _ => "invalid type: unit variant, expected " ++ Expectation.payload.text
  | .length found expected => "invalid length " ++ toString found ++ ", expected " ++ expected.text
  | .unknownVariant name known =>
    "unknown variant " ++ Text.ticked name ++ ", " ++ alternatives known
  | .missingField name => "missing field " ++ Text.ticked name
  | .keyNotString => "key must be a string"
  | .refused reason => reason

/-- The reason as it is shown inside another message. A decoder works on values and not on text, so
    the place in the text is always the origin. -/
def report (e : DecodeError) : String :=
  "Error(" ++ Text.quoted e.message ++ ", line: 0, column: 0)"

end DecodeError

/-- The outcome of decoding. -/
abbrev Decoded (α : Type) := Except DecodeError α

namespace Json

/-! ## Single values -/

/-- A natural number below `2 ^ 32`. A number with a fraction or an exponent is none. -/
def toUInt32 : Json → Decoded UInt32
  | .number (.integer n) =>
    if 0 ≤ n ∧ n < UInt32.size then .ok (UInt32.ofNat n.toNat)
    else .error (.outOfRange (.number (.integer n)) .uint32)
  | found => .error (.mistyped found .uint32)

/-- A 32-bit number: any number, rounded once. -/
def toSingle : Json → Decoded Float32
  | .number (.integer n) => .ok (Single.ofInt n)
  | .number (.real x) => .ok (narrow x)
  | found => .error (.mistyped found .float32)

/-- A truth value. -/
def toBool : Json → Decoded Bool
  | .bool b => .ok b
  | found => .error (.mistyped found .boolean)

/-- A string. -/
def toText : Json → Decoded String
  | .string s => .ok s
  | found => .error (.mistyped found .string)

/-- The `null` that may stand beside the name of a plain choice. -/
def toUnit : Json → Decoded Unit
  | .null => .ok ()
  | found => .error (.mistyped found .unit)

/-- The items of an array, each decoded. -/
def toList {α : Type} (decode : Json → Decoded α) : Json → Decoded (List α)
  | .array items => items.mapM decode
  | found => .error (.mistyped found .sequence)

/-! ## Choices -/

/-- The name of a choice, and the value that goes with it if there is one. -/
def toVariant : Json → Decoded (String × Option Json)
  | .string name => .ok (name, none)
  | .object [(name, payload)] => .ok (name, some payload)
  | .object members => .error (.outOfRange (.object members) .singleKey)
  | found => .error (.mistyped found .choice)

/-- A choice among names. -/
def toName {α : Type} (variants : List (String × α)) (json : Json) : Decoded α := do
  let (name, payload) ← json.toVariant
  match variants.lookup name with
  | none => throw (.unknownVariant name (variants.map (·.1)))
  | some value =>
    match payload with
    | none => return value
    | some payload => payload.toUnit *> return value

/-- A choice among names that each go with a value of their own type. -/
def toTagged {α : Type} (variants : List (String × (Json → Decoded α))) (json : Json) :
    Decoded α := do
  let (name, payload) ← json.toVariant
  match variants.lookup name with
  | none => throw (.unknownVariant name (variants.map (·.1)))
  | some decode =>
    match payload with
    | none => throw (.missingPayload name)
    | some payload => decode payload

/-! ## Records -/

/-- The members of a record. An array gives them in the order of the fields. -/
def toMembers (name : String) (fields : List String) : Json → Decoded (Table Json)
  | .object members => .ok members
  | .array items => .ok (fields.zip items)
  | found => .error (.mistyped found (.record name))

/-- Whether a record given as an array has no more items than fields. -/
def checkLength (fields : List String) : Json → Decoded Unit
  | .array items =>
    if fields.length < items.length then .error (.length items.length .fewerItems) else .ok ()
  | _ => .ok ()

/-- A record, built member by member from its defaults. `step` takes in one member and leaves the
    record alone for a name that is no field. -/
def toRecord {α : Type} (name : String) (fields : List String)
    (step : α → String → Json → Decoded α) (initial : α) (json : Json) : Decoded α := do
  let members ← json.toMembers name fields
  let record ← members.foldlM (fun record (name, value) => step record name value) initial
  json.checkLength fields
  return record

/-- Whether a record has the members that it cannot do without. -/
def requireFields (name : String) (fields required : List String) (json : Json) : Decoded Unit := do
  let members ← json.toMembers name fields
  match required.find? fun field => !members.has field with
  | none => return ()
  | some field => throw (.missingField field)

end Json
end EffectGraph
