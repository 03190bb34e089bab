import EffectGraph.Document.Uuid
import EffectGraph.Expression.Basic

/-!
# `Document.Slot` — authored bindings

A slot binds one input of a block, by name, to a value or to an exposed parameter.
-/

namespace EffectGraph

/-- What a slot binds an input to. -/
inductive SlotValue where
  /-- A value. -/
  | literal (value : Value)
  /-- A parameter that is exposed under a name. -/
  | parameter (name : String)

namespace SlotValue

/-- The document form of what a slot binds to. -/
def toJson : SlotValue → Json
  | .literal value => .object [("value", value.toJson)]
  | .parameter name => .object [("parameter", .string name)]

/-- Reads what a slot binds to. -/
def ofJson : Json → Decoded SlotValue :=
  Json.toTagged [
    ("value", fun json => .literal <$> Value.ofJson json),
    ("parameter", fun json => .parameter <$> json.toText)]

end SlotValue

/-- An authored binding of one input. -/
structure Slot where
  id : Uuid
  /-- The name of the input. -/
  name : String
  value : SlotValue
  /-- What other tools keep with the slot. -/
  extras : Json

namespace Slot

/-- A slot without an identifier and without extras. -/
def new (name : String) (value : SlotValue) : Slot := ⟨.nil, name, value, .null⟩

/-- The slot that binds an input to a value. -/
def ofValue (name : String) (value : Value) : Slot := new name (.literal value)

/-- The slot that binds an input to a parameter. -/
def ofParameter (name parameter : String) : Slot := new name (.parameter parameter)

/-- The document form of a slot. -/
def toJson (slot : Slot) : Json :=
  .object (Json.member "extras" slot.extras.isNull slot.extras ++
    Json.member "id" slot.id.isNil slot.id.toJson ++
    [("name", .string slot.name), ("value", slot.value.toJson)])

/-- The fields of a slot in documents, in order. -/
def fields : List String := ["id", "name", "value", "extras"]

/-- The slot with one member of its document form read. -/
def readMember (slot : Slot) (name : String) (value : Json) : Decoded Slot := do
  match name with
  | "id" => return { slot with id := ← Uuid.ofJson value }
  | "name" => return { slot with name := ← value.toText }
  | "value" => return { slot with value := ← SlotValue.ofJson value }
  | "extras" => return { slot with extras := value }
  | _ => return slot

/-- Reads a slot. -/
def ofJson (json : Json) : Decoded Slot := do
  let slot ← json.toRecord "Slot" fields readMember (new "" (.parameter ""))
  json.requireFields "Slot" fields ["name", "value"]
  return slot

end Slot
end EffectGraph
