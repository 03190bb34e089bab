import EffectGraph.Expression.Basic
import EffectGraph.Placement

/-!
# `Expression.Evaluate` — the value of an expression for one particle

Operands are evaluated from left to right and checked one by one, so of several errors the leftmost
is reported. Integers wrap and only mix with integers; a number mixes with a vector by standing for
the vector of three times that number.
-/

namespace EffectGraph

/-- What an expression may read: the attributes of one particle and the exposed parameters. -/
structure Particle where
  /-- The value of an attribute. -/
  attribute? : Attribute → Option Value
  /-- The value of a parameter. -/
  parameter? : String → Option Value

namespace Particle

/-- The particle of which nothing is known. -/
def empty : Particle := ⟨fun _ => none, fun _ => none⟩

/-- The particle with a value for an attribute. -/
def withAttribute (particle : Particle) (which : Attribute) (value : Value) : Particle :=
  { particle with
    attribute? := fun other => if other = which then some value else particle.attribute? other }

/-- The particle with a value for a parameter. -/
def withParameter (particle : Particle) (name : String) (value : Value) : Particle :=
  { particle with
    parameter? := fun other => if other = name then some value else particle.parameter? other }

end Particle

/-- What asked for a value of some type. -/
inductive Site where
  | attribute
  | parameter
  | operator (op : Operator)
  | normalize
  | line
  | circle
  | lattice
deriving DecidableEq, Repr

/-- How a message names a site. -/
def Site.text : Site → String
  | .attribute => "attribute"
  | .parameter => "parameter"
  | .operator op => op.symbol
  | .normalize => "normalize"
  | .line => "sequentialLine"
  | .circle => "sequentialCircle"
  | .lattice => "sequential3D"

/-- Why an expression has no value. -/
inductive EvaluationError where
  /-- The particle has no value for an attribute. -/
  | missingAttribute (which : Attribute)
  /-- There is no parameter of a name. -/
  | missingParameter (name : String)
  /-- A value is of another type than asked for. -/
  | typeMismatch (site : Site) (expected actual : ValueType)
  /-- An integer is divided by zero. -/
  | divisionByZero
deriving DecidableEq, Repr

/-- The error in words. -/
def EvaluationError.message : EvaluationError → String
  | .missingAttribute which => "missing attribute: " ++ which.sourceName
  | .missingParameter name => "missing parameter: " ++ name
  | .typeMismatch site expected actual =>
    "type mismatch in " ++ site.text ++ ": expected " ++ expected.sourceName ++ ", got " ++
      actual.sourceName
  | .divisionByZero => "integer division by zero"

/-- The outcome of evaluation. -/
abbrev Evaluated (α : Type) := Except EvaluationError α

namespace Value

/-- The value itself, if it has the given type. -/
def ofType (site : Site) (expected : ValueType) (value : Value) : Evaluated Value :=
  if value.type = expected then .ok value
  else .error (.typeMismatch site expected value.type)

/-- The integer that a value is. -/
def toUint (site : Site) : Value → Evaluated UInt32
  | .uint n => .ok n
  | value => .error (.typeMismatch site .uint32 value.type)

/-- The number that a value is. -/
def toFloat (site : Site) : Value → Evaluated Float32
  | .float x => .ok x
  | value => .error (.typeMismatch site .float value.type)

/-- The vector that a value is. -/
def toFloat3 (site : Site) : Value → Evaluated Vec3
  | .float3 v => .ok v
  | value => .error (.typeMismatch site .float3 value.type)

end Value

namespace Operator

/-- An operation on integers, which wrap. -/
def onUint (op : Operator) (a b : UInt32) : Evaluated UInt32 :=
  match op with
  | .add => .ok (a + b)
  | .subtract => .ok (a - b)
  | .multiply => .ok (a * b)
  | .divide => if b = 0 then .error .divisionByZero else .ok (a / b)
  | .modulus => if b = 0 then .error .divisionByZero else .ok (a % b)

/-- An operation on numbers. -/
def onFloat (op : Operator) (a b : Float32) : Float32 :=
  match op with
  | .add => a + b
  | .subtract => a - b
  | .multiply => a * b
  | .divide => a / b
  | .modulus => Single.remainder a b

/-- An operation on vectors, component by component. -/
def onFloat3 (op : Operator) (a b : Vec3) : Vec3 := Vec3.zipWith op.onFloat a b

/-- An operation on values. -/
def apply (op : Operator) : Value → Value → Evaluated Value
  | .uint a, .uint b => .uint <$> op.onUint a b
  | .float a, .float b => .ok (.float (op.onFloat a b))
  | .float3 a, .float3 b => .ok (.float3 (op.onFloat3 a b))
  | .float3 a, .float b => .ok (.float3 (op.onFloat3 a (.splat b)))
  | .float a, .float3 b => .ok (.float3 (op.onFloat3 (.splat a) b))
  | a, b => .error (.typeMismatch (.operator op) a.type b.type)

end Operator

namespace Expression

/-- The value of an expression for a particle. -/
def evaluate (particle : Particle) : Expression → Evaluated Value
  | .constant value => .ok value
  | .attr which =>
    match particle.attribute? which with
    | none => .error (.missingAttribute which)
    | some value => value.ofType .attribute which.type
  | .parameter name type =>
    match particle.parameter? name with
    | none => .error (.missingParameter name)
    | some value => value.ofType .parameter type
  | .binary op lhs rhs => do
    let a ← lhs.evaluate particle
    let b ← rhs.evaluate particle
    op.apply a b
  | .normalize operand => do
    let v ← (← operand.evaluate particle).toFloat3 .normalize
    return .float3 v.normalized
  | .line start finish index count => do
    let start ← (← start.evaluate particle).toFloat3 .line
    let finish ← (← finish.evaluate particle).toFloat3 .line
    let index ← (← index.evaluate particle).toUint .line
    let count ← (← count.evaluate particle).toUint .line
    return .float3 (Placement.line start finish index count)
  | .circle center radius normal up index count => do
    let center ← (← center.evaluate particle).toFloat3 .circle
    let radius ← (← radius.evaluate particle).toFloat .circle
    let normal ← (← normal.evaluate particle).toFloat3 .circle
    let up ← (← up.evaluate particle).toFloat3 .circle
    let index ← (← index.evaluate particle).toUint .circle
    let count ← (← count.evaluate particle).toUint .circle
    return .float3 (Placement.circle center radius normal up index count)
  | .lattice origin axisX axisY axisZ index countX countY countZ => do
    let origin ← (← origin.evaluate particle).toFloat3 .lattice
    let axisX ← (← axisX.evaluate particle).toFloat3 .lattice
    let axisY ← (← axisY.evaluate particle).toFloat3 .lattice
    let axisZ ← (← axisZ.evaluate particle).toFloat3 .lattice
    let index ← (← index.evaluate particle).toUint .lattice
    let countX ← (← countX.evaluate particle).toUint .lattice
    let countY ← (← countY.evaluate particle).toUint .lattice
    let countZ ← (← countZ.evaluate particle).toUint .lattice
    return .float3 (Placement.lattice origin axisX axisY axisZ index countX countY countZ)

end Expression
end EffectGraph
