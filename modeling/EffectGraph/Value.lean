import EffectGraph.Json.Decode

/-!
# `Value` — the values that expressions compute with

A value is an unsigned 32-bit integer, a 32-bit number or a vector of three of them. All arithmetic
on numbers rounds to 32 bits after every operation, in the order in which it is written here.
-/

namespace EffectGraph

/-- The type of a value. -/
inductive ValueType where
  | uint32
  | float
  | float3
deriving DecidableEq, Repr

/-- The name of a type in generated source. -/
def ValueType.sourceName : ValueType → String
  | .uint32 => "uint"
  | .float => "float"
  | .float3 => "float3"

/-! ## Vectors -/

/-- A vector of three numbers. -/
structure Vec3 where
  x : Float32
  y : Float32
  z : Float32

namespace Vec3

/-- The vector with three equal components. -/
def splat (a : Float32) : Vec3 := ⟨a, a, a⟩

/-- The origin. -/
def zero : Vec3 := splat 0

/-- The unit vector along the first axis. -/
def unitX : Vec3 := ⟨1, 0, 0⟩

/-- The unit vector along the second axis. -/
def unitY : Vec3 := ⟨0, 1, 0⟩

/-- The unit vector along the third axis. -/
def unitZ : Vec3 := ⟨0, 0, 1⟩

/-- The vector of the results of an operation on each component. -/
def zipWith (op : Float32 → Float32 → Float32) (a b : Vec3) : Vec3 :=
  ⟨op a.x b.x, op a.y b.y, op a.z b.z⟩

instance : Add Vec3 := ⟨zipWith (· + ·)⟩

instance : Sub Vec3 := ⟨zipWith (· - ·)⟩

/-- The vector with each component multiplied by a number. -/
def scale (a : Vec3) (factor : Float32) : Vec3 := zipWith (· * ·) a (splat factor)

/-- The inner product. -/
def dot (a b : Vec3) : Float32 := a.x * b.x + a.y * b.y + a.z * b.z

/-- The vector product. -/
def cross (a b : Vec3) : Vec3 :=
  ⟨a.y * b.z - b.y * a.z, a.z * b.x - b.z * a.x, a.x * b.y - b.x * a.y⟩

/-- The vector of length one in the same direction, or zero when the length has no positive finite
    reciprocal. -/
def normalized (a : Vec3) : Vec3 :=
  let reciprocal := 1 / (a.dot a).sqrt
  if Single.isFinite reciprocal && 0 < reciprocal then a.scale reciprocal else zero

/-- Equality of numbers in each component, so a vector with a `nan` differs from itself. -/
instance : BEq Vec3 := ⟨fun a b => a.x == b.x && a.y == b.y && a.z == b.z⟩

/-- The three components, as in generated source. -/
def text (a : Vec3) : String :=
  "float3(" ++ Single.text a.x ++ ", " ++ Single.text a.y ++ ", " ++ Single.text a.z ++ ")"

/-- A vector is written as the array of its components. -/
def toJson (a : Vec3) : Json := .array [.ofSingle a.x, .ofSingle a.y, .ofSingle a.z]

/-- Reads an array of exactly three numbers. -/
def ofJson : Json → Decoded Vec3
  | .array (x :: y :: z :: rest) => do
    let v : Vec3 := ⟨← x.toSingle, ← y.toSingle, ← z.toSingle⟩
    if rest.isEmpty then return v else throw (.length (3 + rest.length) .fewerItems)
  | .array items => items.forM (fun item => item.toSingle *> pure ()) *>
    throw (.length items.length (.record "Vec3"))
  | found => throw (.mistyped found (.record "Vec3"))

end Vec3

/-! ## Values -/

/-- A value of one of the types. -/
inductive Value where
  | uint (n : UInt32)
  | float (x : Float32)
  | float3 (v : Vec3)

namespace Value

/-- The type of a value. -/
def type : Value → ValueType
  | .uint _ => .uint32
  | .float _ => .float
  | .float3 _ => .float3

/-- The number one, or the vector of ones. -/
def one : ValueType → Value
  | .uint32 => .uint 1
  | .float => .float 1
  | .float3 => .float3 (.splat 1)

/-- The integer of a value that is one. -/
def asUint? : Value → Option UInt32
  | .uint n => some n
  | _ => none

/-- The number of a value that is one. -/
def asFloat? : Value → Option Float32
  | .float x => some x
  | _ => none

/-- The vector of a value that is one. -/
def asFloat3? : Value → Option Vec3
  | .float3 v => some v
  | _ => none

/-- Values of one type that are equal as numbers. -/
instance : BEq Value where
  beq
    | .uint a, .uint b => a == b
    | .float a, .float b => a == b
    | .float3 a, .float3 b => a == b
    | _, _ => false

/-- A value in generated source. -/
def text : Value → String
  | .uint n => toString n.toNat ++ "u"
  | .float x => Single.text x
  | .float3 v => v.text

end Value

/-! ## Documents -/

namespace ValueType

/-- The types by their names in documents. -/
def names : List (String × ValueType) :=
  [("uint32", .uint32), ("float", .float), ("float3", .float3)]

/-- The name of a type in documents. -/
def name : ValueType → String
  | .uint32 => "uint32"
  | .float => "float"
  | .float3 => "float3"

end ValueType

namespace Value

/-- A value under the name of its kind. -/
def toJson : Value → Json
  | .uint n => .object [("uint", .nat n.toNat)]
  | .float x => .object [("float", .ofSingle x)]
  | .float3 v => .object [("float3", v.toJson)]

/-- Reads a value under the name of its kind. -/
def ofJson : Json → Decoded Value :=
  Json.toTagged [
    ("uint", fun json => .uint <$> json.toUInt32),
    ("float", fun json => .float <$> json.toSingle),
    ("float3", fun json => .float3 <$> Vec3.ofJson json)]

end Value
end EffectGraph
