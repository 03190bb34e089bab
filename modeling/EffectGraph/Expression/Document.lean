import EffectGraph.Expression.Basic

/-!
# `Expression.Document` — expressions in documents

An expression is written as an object of one member, under the name of its kind. `toJson` writes
every kind, and `ofJson` reads back what it wrote. The reader takes more than the writer gives: what is
inside a kind may stand in any order and have other members beside it, an integer may stand for a
number, and the name of an operator, an attribute or a type may be an object with `null` under that name.
-/

namespace EffectGraph.Expression

/-- The document form of an expression. -/
def toJson : Expression → Json
  | .constant value => .object [("constant", value.toJson)]
  | .attr which => .object [("attribute", .string which.name)]
  | .parameter name type =>
    .object [("parameter", .object [("name", .string name), ("value_type", .string type.name)])]
  | .binary op lhs rhs => .object [("binary", .array [.string op.name, lhs.toJson, rhs.toJson])]
  | .normalize operand => .object [("normalize", operand.toJson)]
  | .line start finish index count =>
    .object [("sequential_line", .object [("count", count.toJson), ("end", finish.toJson),
      ("index", index.toJson), ("start", start.toJson)])]
  | .circle center radius normal up index count =>
    .object [("sequential_circle", .object [("center", center.toJson), ("count", count.toJson),
      ("index", index.toJson), ("normal", normal.toJson), ("radius", radius.toJson),
      ("up", up.toJson)])]
  | .lattice origin axisX axisY axisZ index countX countY countZ =>
    .object [("sequential_3d", .object [("axis_x", axisX.toJson), ("axis_y", axisY.toJson),
      ("axis_z", axisZ.toJson), ("count_x", countX.toJson), ("count_y", countY.toJson),
      ("count_z", countZ.toJson), ("index", index.toJson), ("origin", origin.toJson)])]

/-- The names of the kinds of expression. -/
def kinds : List String :=
  ["constant", "attribute", "parameter", "binary", "normalize", "sequential_line",
    "sequential_circle", "sequential_3d"]

/-- Reads the name and the type of a parameter. -/
def parameterOfJson : Json → Decoded Expression
  | .object members => do
    let name ← (← field members "name").toText
    let type ← (← field members "value_type").toName ValueType.names
    return .parameter name type
  | found => .error (.mistyped found (.record "parameter"))
where
  /-- The member of a name. -/
  field (members : Table Json) (name : String) : Decoded Json :=
    match members.get? name with
    | none => .error (.missingField name)
    | some value => .ok value

/-- The decoded member of a name. -/
def operand (operands : Table (Decoded Expression)) (name : String) : Decoded Expression :=
  (operands.get? name).getD (.error (.missingField name))

mutual

/-- Reads an expression. -/
def ofJson : Json → Decoded Expression
  | .object [(kind, payload)] =>
    match kind with
    | "constant" => .constant <$> Value.ofJson payload
    | "attribute" => .attr <$> payload.toName Attribute.names
    | "parameter" => parameterOfJson payload
    | "binary" =>
      match payload with
      | .array [op, lhs, rhs] => do
        let op ← op.toName Operator.names
        let lhs ← ofJson lhs
        let rhs ← ofJson rhs
        return .binary op lhs rhs
      | found => .error (.mistyped found .sequence)
    | "normalize" => .normalize <$> ofJson payload
    | "sequential_line" =>
      match payload with
      | .object members => do
        let operands := ofMembers members
        let start ← operand operands "start"
        let finish ← operand operands "end"
        let index ← operand operands "index"
        let count ← operand operands "count"
        return .line start finish index count
      | found => .error (.mistyped found (.record kind))
    | "sequential_circle" =>
      match payload with
      | .object members => do
        let operands := ofMembers members
        let center ← operand operands "center"
        let radius ← operand operands "radius"
        let normal ← operand operands "normal"
        let up ← operand operands "up"
        let index ← operand operands "index"
        let count ← operand operands "count"
        return .circle center radius normal up index count
      | found => .error (.mistyped found (.record kind))
    | "sequential_3d" =>
      match payload with
      | .object members => do
        let operands := ofMembers members
        let origin ← operand operands "origin"
        let axisX ← operand operands "axis_x"
        let axisY ← operand operands "axis_y"
        let axisZ ← operand operands "axis_z"
        let index ← operand operands "index"
        let countX ← operand operands "count_x"
        let countY ← operand operands "count_y"
        let countZ ← operand operands "count_z"
        return .lattice origin axisX axisY axisZ index countX countY countZ
      | found => .error (.mistyped found (.record kind))
    | kind => .error (.unknownVariant kind kinds)
  | .string name =>
    if name ∈ kinds then .error (.missingPayload name) else .error (.unknownVariant name kinds)
  | .object members => .error (.outOfRange (.object members) .singleKey)
  | found => .error (.mistyped found .choice)

/-- Reads every member of an object as an expression. Only the ones that are asked for have to be
    one. -/
def ofMembers : List (String × Json) → List (String × Decoded Expression)
  | [] => []
  | (name, value) :: rest => (name, ofJson value) :: ofMembers rest

end

end EffectGraph.Expression
