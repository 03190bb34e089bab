import EffectGraph.Expression.Formula

/-!
# `Input.Declaration` — the inputs that a block declares

A declaration names an input, gives it a type for authors and a default. The type decides the values
that the input takes and how the expression bound to it is wrapped: a direction is always made a unit
vector.
-/

namespace EffectGraph

/-- The type of an input as its author sees it. -/
inductive InputType where
  | uint
  | float
  | vector
  | position
  | direction
deriving DecidableEq, Repr

namespace InputType

/-- The type of the values that an input takes. -/
def valueType : InputType → ValueType
  | .uint => .uint32
  | .float => .float
  | .vector => .float3
  | .position => .float3
  | .direction => .float3

/-- The name of a type in documents. -/
def name : InputType → String
  | .uint => "uint"
  | .float => "float"
  | .vector => "vector"
  | .position => "position"
  | .direction => "direction"

/-- The types by their names in documents. -/
def names : List (String × InputType) :=
  [("uint", .uint), ("float", .float), ("vector", .vector), ("position", .position),
    ("direction", .direction)]

end InputType

/-- An input of a block. -/
structure Declaration where
  /-- The name that slots bind it by. -/
  name : String
  /-- Its type. -/
  type : InputType
  /-- The value that it has when nothing is bound to it. -/
  default : Value
  /-- What it is for. -/
  tooltip : String

namespace Declaration

/-- The type of the values that the input takes. -/
def valueType (declaration : Declaration) : ValueType := declaration.type.valueType

/-- An expression as it is bound to the input. -/
def wrap (declaration : Declaration) (e : Expression) : Expression :=
  match declaration.type with
  | .direction => .normalize e
  | _ => e

/-- The default as it is bound to the input. -/
def wrapDefault (declaration : Declaration) : Expression :=
  declaration.wrap (.constant declaration.default)

end Declaration
end EffectGraph
