import EffectGraph.Value

/-!
# `Attribute` — the state of a particle and how code uses it

A particle has a few attributes. A `Requirement` says that a piece of code reads or writes one of
them; the requirements of several pieces are merged into one list without repeated attributes.
-/

namespace EffectGraph

/-- A field of the state of a particle. -/
inductive Attribute where
  | particleId
  | position
  | targetPosition
deriving DecidableEq, Repr

namespace Attribute

/-- The name of an attribute in generated source. -/
def sourceName : Attribute → String
  | .particleId => "particleId"
  | .position => "position"
  | .targetPosition => "targetPosition"

/-- The type of an attribute. -/
def type : Attribute → ValueType
  | .particleId => .uint32
  | .position => .float3
  | .targetPosition => .float3

/-- The name of an attribute in documents. -/
def name : Attribute → String
  | .particleId => "particle_id"
  | .position => "position"
  | .targetPosition => "target_position"

/-- The attributes by their names in documents. -/
def names : List (String × Attribute) :=
  [("particle_id", .particleId), ("position", .position), ("target_position", .targetPosition)]

end Attribute

/-- How code uses an attribute. -/
inductive AccessMode where
  | read
  | write
  | readWrite
deriving DecidableEq, Repr

namespace AccessMode

/-- Whether the attribute is read. -/
def reads : AccessMode → Bool
  | .read => true
  | .write => false
  | .readWrite => true

/-- Whether the attribute is written. -/
def writes : AccessMode → Bool
  | .read => false
  | .write => true
  | .readWrite => true

/-- The mode that allows what either of two modes allows. -/
def union (a b : AccessMode) : AccessMode :=
  match a.reads || b.reads, a.writes || b.writes with
  | true, true => .readWrite
  | false, true => .write
  | _, false => .read

/-- The name of a mode in documents. -/
def name : AccessMode → String
  | .read => "read"
  | .write => "write"
  | .readWrite => "read_write"

/-- The modes by their names in documents. -/
def names : List (String × AccessMode) :=
  [("read", .read), ("write", .write), ("read_write", .readWrite)]

end AccessMode

/-- The use that a piece of code makes of an attribute. -/
structure Requirement where
  attr : Attribute
  mode : AccessMode
deriving DecidableEq, Repr

namespace Requirement

/-- The list with one more requirement: the mode of the attribute is widened where it already
    stands, and a new attribute goes to the end. -/
def add : List Requirement → Requirement → List Requirement
  | [], new => [new]
  | old :: rest, new =>
    if old.attr = new.attr then ⟨old.attr, old.mode.union new.mode⟩ :: rest
    else old :: add rest new

/-- The list with more requirements, in the order of first appearance. -/
def merge (list more : List Requirement) : List Requirement :=
  more.foldl add list

/-- A requirement is written as a record. -/
def toJson (requirement : Requirement) : Json :=
  .object [("attribute", .string requirement.attr.name), ("mode", .string requirement.mode.name)]

/-- The fields of a requirement in documents, in order. -/
def fields : List String := ["attribute", "mode"]

/-- Reads a requirement. -/
def ofJson (json : Json) : Decoded Requirement := do
  let requirement ← json.toRecord "Requirement" fields
    (fun (requirement : Requirement) name value =>
      match name with
      | "attribute" => return { requirement with attr := ← value.toName Attribute.names }
      | "mode" => return { requirement with mode := ← value.toName AccessMode.names }
      | _ => return requirement)
    ⟨.particleId, .read⟩
  json.requireFields "Requirement" fields fields
  return requirement

end Requirement
end EffectGraph
