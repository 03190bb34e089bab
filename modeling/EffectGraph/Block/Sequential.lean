import EffectGraph.Block.Basic
import EffectGraph.Block.Variants

/-!
# `Block.Sequential` — placing particles one after another

This block moves each particle to an element of a sequence: on a segment, on a circle or in a
lattice. The index of the element is the identifier of the particle or an input of its own. The block
can also compute a target position, at the same element or at the next one.

## Contents
- `Shape`, `IndexSource`, `TargetMode` and `Settings`.
- The declared inputs, the attributes in use and the source, which follow from the settings.
- `ShapeInputs`, the inputs of a shape by role, and `ComputedPositions`, the expressions.
- `Settings.block`.
-/

namespace EffectGraph.Sequential

/-- Where the elements lie. -/
inductive Shape where
  | line
  | circle
  | threeDimensional
deriving DecidableEq, Repr

namespace Shape

/-- The name of a shape. -/
def name : Shape → String
  | .line => "Line"
  | .circle => "Circle"
  | .threeDimensional => "ThreeDimensional"

/-- The shape after this one. -/
def next? : Shape → Option Shape
  | .line => some .circle
  | .circle => some .threeDimensional
  | .threeDimensional => none

/-- Every shape, each followed by its `next?`. -/
def all : List Shape := [.line, .circle, .threeDimensional]

/-- The shapes by their names in documents. -/
def names : List (String × Shape) := all.map fun shape => (shape.name, shape)

end Shape

/-- Where the index of an element comes from. -/
inductive IndexSource where
  /-- It is the identifier of the particle. -/
  | particleId
  /-- It is an input. -/
  | custom
deriving DecidableEq, Repr

namespace IndexSource

/-- The name of an index source in documents. -/
def name : IndexSource → String
  | .particleId => "ParticleId"
  | .custom => "Custom"

/-- The index sources by their names in documents. -/
def names : List (String × IndexSource) := [("ParticleId", .particleId), ("Custom", .custom)]

end IndexSource

/-- Whether a target position is computed, and at which element. -/
inductive TargetMode where
  | none
  | same
  | next
deriving DecidableEq, Repr

namespace TargetMode

/-- Whether there is a target position. -/
def hasTarget : TargetMode → Bool
  | .none => false
  | .same => true
  | .next => true

/-- The name of a mode in documents. -/
def name : TargetMode → String
  | .none => "None"
  | .same => "Same"
  | .next => "Next"

/-- The modes by their names in documents. -/
def names : List (String × TargetMode) := [("None", .none), ("Same", .same), ("Next", .next)]

end TargetMode

/-- The configuration of the block. -/
structure Settings where
  shape : Shape := .line
  index : IndexSource := .particleId
  target : TargetMode := .next
deriving DecidableEq, Repr

namespace Settings

/-- The document form of the settings. -/
def toJson (settings : Settings) : Json :=
  .object [("index", .string settings.index.name), ("shape", .string settings.shape.name),
    ("target_position", .string settings.target.name)]

/-- The fields of the settings in documents, in order. -/
def fields : List String := ["shape", "index", "target_position"]

/-- Reads settings. What is not given has its default. -/
def ofJson : Json → Decoded Settings :=
  Json.toRecord "SequentialPosition" fields
    (fun (settings : Settings) name value =>
      match name with
      | "shape" => return { settings with shape := ← value.toName Shape.names }
      | "index" => return { settings with index := ← value.toName IndexSource.names }
      | "target_position" => return { settings with target := ← value.toName TargetMode.names }
      | _ => return settings)
    {}

end Settings

/-! ## Declared inputs -/

/-- What a count is for. -/
def countTooltip : String := "Element count used to loop over the sequence"

/-- The inputs that a shape declares. -/
def shapeDeclarations : Shape → List Declaration
  | .line => [
    ⟨"Count", .uint, .uint 64, countTooltip⟩,
    ⟨"Start", .position, .float3 .zero, "Start Position"⟩,
    ⟨"End", .position, .float3 .unitX, "End Position"⟩]
  | .circle => [
    ⟨"Count", .uint, .uint 64, countTooltip⟩,
    ⟨"Center", .position, .float3 .zero, "Center of the circle"⟩,
    ⟨"Normal", .direction, .float3 .unitZ, "Rotation Axis"⟩,
    ⟨"Up", .direction, .float3 .unitY, "Start Angle (Midnight direction)"⟩,
    ⟨"Radius", .float, .float 1, "Radius of the circle"⟩]
  | .threeDimensional => [
    ⟨"Origin", .position, .float3 .zero, ""⟩,
    ⟨"AxisX", .vector, .float3 .unitX, ""⟩,
    ⟨"AxisY", .vector, .float3 .unitY, ""⟩,
    ⟨"AxisZ", .vector, .float3 .unitZ, ""⟩,
    ⟨"CountX", .uint, .uint 8, "Element X count used to loop over the sequence"⟩,
    ⟨"CountY", .uint, .uint 8, "Element Y count used to loop over the sequence"⟩,
    ⟨"CountZ", .uint, .uint 8, "Element Z count used to loop over the sequence"⟩]

/-- The inputs that an index source declares. -/
def indexDeclarations : IndexSource → List Declaration
  | .particleId => []
  | .custom => [⟨"Index", .uint, .uint 0, "Index used to sample the sequential distribution"⟩]

/-- The inputs that the block declares. -/
def declarations (shape : Shape) (index : IndexSource) : List Declaration :=
  shapeDeclarations shape ++ indexDeclarations index

/-! ## Attributes and source -/

/-- The attributes that the source and its expressions use. -/
def requirements (index : IndexSource) (target : TargetMode) : List Requirement :=
  (match index with
    | .particleId => [⟨.particleId, .read⟩]
    | .custom => []) ++
  ⟨.position, .readWrite⟩ :: if target.hasTarget then [⟨.targetPosition, .readWrite⟩] else []

/-- The name of the expression for the position. -/
def computedPosition : String := "computedPosition"

/-- The name of the expression for the target position. -/
def computedTargetPosition : String := "computedTargetPosition"

/-- The statement that adds a computed value to an attribute. -/
def addition (attr : Attribute) (computed : String) : String :=
  attr.sourceName ++ " += " ++ computed ++ ";"

/-- The source: one statement per computed position. -/
def source (hasTarget : Bool) : String :=
  addition .position computedPosition ++
    if hasTarget then "\n" ++ addition .targetPosition computedTargetPosition else ""

/-! ## Expressions -/

/-- The expressions bound to the inputs of a shape. -/
inductive ShapeInputs where
  | line (count start finish : Expression)
  | circle (count center normal up radius : Expression)
  | threeDimensional (origin axisX axisY axisZ countX countY countZ : Expression)

namespace ShapeInputs

/-- The inputs of a shape, looked up in the order of their declarations. -/
def resolve (shape : Shape) (inputs : BoundInputs) : Except MissingInput ShapeInputs :=
  match shape with
  | .line => do
    let count ← inputs.required "Count"
    let start ← inputs.required "Start"
    let finish ← inputs.required "End"
    return .line count start finish
  | .circle => do
    let count ← inputs.required "Count"
    let center ← inputs.required "Center"
    let normal ← inputs.required "Normal"
    let up ← inputs.required "Up"
    let radius ← inputs.required "Radius"
    return .circle count center normal up radius
  | .threeDimensional => do
    let origin ← inputs.required "Origin"
    let axisX ← inputs.required "AxisX"
    let axisY ← inputs.required "AxisY"
    let axisZ ← inputs.required "AxisZ"
    let countX ← inputs.required "CountX"
    let countY ← inputs.required "CountY"
    let countZ ← inputs.required "CountZ"
    return .threeDimensional origin axisX axisY axisZ countX countY countZ

/-- The shape that the inputs are of. -/
def shape : ShapeInputs → Shape
  | .line .. => .line
  | .circle .. => .circle
  | .threeDimensional .. => .threeDimensional

/-- The position of the element of an index. -/
def position (index : Expression) : ShapeInputs → Expression
  | .line count start finish => .line start finish index count
  | .circle count center normal up radius => .circle center radius normal up index count
  | .threeDimensional origin axisX axisY axisZ countX countY countZ =>
    .lattice origin axisX axisY axisZ index countX countY countZ

end ShapeInputs

/-- The index of the element of a particle. -/
def indexExpression (index : IndexSource) (inputs : BoundInputs) : Except MissingInput Expression :=
  match index with
  | .particleId => .ok (.attr .particleId)
  | .custom => inputs.required "Index"

/-- A target position beside a position. -/
inductive Target where
  /-- There is none. -/
  | absent
  /-- It is the very expression of the position. -/
  | shared
  /-- It is an expression of its own. -/
  | separate (e : Expression)

/-- The expressions that the block computes. -/
structure ComputedPositions where
  position : Expression
  target : Target

namespace ComputedPositions

/-- The expression of the target position. -/
def target? (computed : ComputedPositions) : Option Expression :=
  match computed.target with
  | .absent => none
  | .shared => some computed.position
  | .separate e => some e

/-- The expressions under the names that the source refers to. -/
def named (computed : ComputedPositions) : List NamedExpression :=
  ⟨computedPosition, computed.position⟩ ::
    (computed.target?.map (NamedExpression.mk computedTargetPosition)).toList

end ComputedPositions

/-- The index of the next element. -/
def nextIndex (index : Expression) : Expression := .binary .add index (.one .uint32)

/-- The expressions for given settings and bound inputs. -/
def computePositions (settings : Settings) (inputs : BoundInputs) :
    Except MissingInput ComputedPositions := do
  let shape ← ShapeInputs.resolve settings.shape inputs
  let index ← indexExpression settings.index inputs
  return ⟨shape.position index,
    match settings.target with
    | .none => .absent
    | .same => .shared
    | .next => .separate (shape.position (nextIndex index))⟩

/-! ## The block -/

/-- The block of given settings. -/
def Settings.block (settings : Settings) : Block where
  name := "Position : Sequential (" ++ settings.shape.name ++ ")"
  category := "Position"
  stages := Stage.particleStages
  data := .particle
  declarations := declarations settings.shape settings.index
  requirements := requirements settings.index settings.target
  parameters inputs := (computePositions settings inputs).map (·.named)
  source := source settings.target.hasTarget

/-- The axes of ready-made configurations: every shape. -/
def variants : Variants := [("shape", Shape.all.map fun shape => .string shape.name)]

/-- The name that the kind of block is registered under. -/
def identity : String := "position_sequential"

end EffectGraph.Sequential
