import EffectGraph.Attribute

/-!
# `Expression.Basic` — expressions over the state of a particle

An expression is a tree of constants, attributes, exposed parameters, arithmetic and placements.

## Contents
- `Expression` and `Expression.type`, the type that its operands suggest. Numbers win over integers
  and vectors over both; whether the operands fit together shows only when it is evaluated.
- `Expression.operands` and `Expression.nodes`, the view as a tree.
- `Expression.attributes`, what an expression reads.
-/

namespace EffectGraph

/-- An arithmetic operation. -/
inductive Operator where
  | add
  | subtract
  | multiply
  | divide
  | modulus
deriving DecidableEq, Repr

namespace Operator

/-- The symbol of an operation in generated source. -/
def symbol : Operator → String
  | .add => "+"
  | .subtract => "-"
  | .multiply => "*"
  | .divide => "/"
  | .modulus => "%"

/-- The name of an operation in documents. -/
def name : Operator → String
  | .add => "add"
  | .subtract => "subtract"
  | .multiply => "multiply"
  | .divide => "divide"
  | .modulus => "modulus"

/-- The operations by their names in documents. -/
def names : List (String × Operator) :=
  [("add", .add), ("subtract", .subtract), ("multiply", .multiply), ("divide", .divide),
    ("modulus", .modulus)]

end Operator

/-- An expression. -/
inductive Expression where
  /-- A value. -/
  | constant (value : Value)
  /-- An attribute of the particle. -/
  | attr (which : Attribute)
  /-- A value that is exposed under a name and given from outside. -/
  | parameter (name : String) (type : ValueType)
  /-- An operation on two operands. -/
  | binary (op : Operator) (lhs rhs : Expression)
  /-- The unit vector in the direction of a vector. -/
  | normalize (operand : Expression)
  /-- An element of a segment. -/
  | line (start finish index count : Expression)
  /-- An element of a circle. -/
  | circle (center radius normal up index count : Expression)
  /-- An element of a lattice. -/
  | lattice (origin axisX axisY axisZ index countX countY countZ : Expression)

instance : Inhabited Expression := ⟨.constant (.uint 0)⟩

/-- The type of an operation on operands of two types. -/
def ValueType.promote : ValueType → ValueType → ValueType
  | .float3, _ => .float3
  | _, .float3 => .float3
  | .float, _ => .float
  | _, .float => .float
  | .uint32, .uint32 => .uint32

namespace Expression

/-- The constant one of a type. -/
def one (type : ValueType) : Expression := .constant (.one type)

/-- The type that an expression has if it can be evaluated. -/
def type : Expression → ValueType
  | .constant value => value.type
  | .attr which => which.type
  | .parameter _ type => type
  | .binary _ lhs rhs => lhs.type.promote rhs.type
  | .normalize _ => .float3
  | .line .. => .float3
  | .circle .. => .float3
  | .lattice .. => .float3

/-! ## The view as a tree -/

/-- The operands of an expression, in order. -/
def operands : Expression → List Expression
  | .constant _ => []
  | .attr _ => []
  | .parameter _ _ => []
  | .binary _ lhs rhs => [lhs, rhs]
  | .normalize operand => [operand]
  | .line start finish index count => [start, finish, index, count]
  | .circle center radius normal up index count => [center, radius, normal, up, index, count]
  | .lattice origin axisX axisY axisZ index countX countY countZ =>
    [origin, axisX, axisY, axisZ, index, countX, countY, countZ]

/-- An expression and everything below it, depth first and each before its operands. -/
def nodes (e : Expression) : List Expression :=
  e :: match e with
    | .constant _ => []
    | .attr _ => []
    | .parameter _ _ => []
    | .binary _ lhs rhs => lhs.nodes ++ rhs.nodes
    | .normalize operand => operand.nodes
    | .line start finish index count =>
      start.nodes ++ finish.nodes ++ index.nodes ++ count.nodes
    | .circle center radius normal up index count =>
      center.nodes ++ radius.nodes ++ normal.nodes ++ up.nodes ++ index.nodes ++ count.nodes
    | .lattice origin axisX axisY axisZ index countX countY countZ =>
      origin.nodes ++ axisX.nodes ++ axisY.nodes ++ axisZ.nodes ++ index.nodes ++
        countX.nodes ++ countY.nodes ++ countZ.nodes

/-- The name of the kind of an expression, as in documents. -/
def kind : Expression → String
  | .constant _ => "constant"
  | .attr _ => "attribute"
  | .parameter _ _ => "parameter"
  | .binary _ _ _ => "binary"
  | .normalize _ => "normalize"
  | .line .. => "sequential_line"
  | .circle .. => "sequential_circle"
  | .lattice .. => "sequential_3d"

/-- The attribute that an expression is. -/
def attribute? : Expression → Option Attribute
  | .attr which => some which
  | _ => none

/-- The attributes that an expression reads, in the order in which they first occur. -/
def attributes (e : Expression) : List Attribute :=
  (e.nodes.filterMap attribute?).eraseDups

/-! ## Equality -/

/-- Whether two expressions are equal node by node, with constants equal as numbers: an expression
    with a `nan` in it differs from itself. -/
def beq : Expression → Expression → Bool
  | .constant a, .constant b => a == b
  | .attr a, .attr b => a == b
  | .parameter n t, .parameter n' t' => n == n' && t == t'
  | .binary op l r, .binary op' l' r' => op == op' && beq l l' && beq r r'
  | .normalize e, .normalize e' => beq e e'
  | .line s f i c, .line s' f' i' c' => beq s s' && beq f f' && beq i i' && beq c c'
  | .circle c r n u i k, .circle c' r' n' u' i' k' =>
    beq c c' && beq r r' && beq n n' && beq u u' && beq i i' && beq k k'
  | .lattice o x y z i cx cy cz, .lattice o' x' y' z' i' cx' cy' cz' =>
    beq o o' && beq x x' && beq y y' && beq z z' && beq i i' && beq cx cx' && beq cy cy' &&
      beq cz cz'
  | _, _ => false

instance : BEq Expression := ⟨beq⟩

end Expression
end EffectGraph
