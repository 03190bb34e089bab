import EffectGraph.Block.Sequential
import EffectGraph.Document.Slot

/-!
# `Document.Model` — authored contexts

A context is authored as an ordered list of nodes; each names a kind of block with its settings and
binds its inputs by slots. Identifiers may be missing and are completed from a supply of fresh ones;
`Context.complete` draws them in document order.
-/

namespace EffectGraph

/-- An authored block. -/
structure Node where
  id : Uuid
  /-- The identity of the kind of block. -/
  block : String
  /-- The settings, `null` for the default ones. -/
  settings : Json
  /-- The bindings of its inputs. -/
  slots : List Slot
  /-- Whether it is passed over. -/
  disabled : Bool
  /-- What other tools keep with the node. -/
  extras : Json

/-- An authored context. -/
structure Context where
  id : Uuid
  name : String
  stage : Stage
  data : DataKind
  nodes : List Node
  /-- What other tools keep with the context. -/
  extras : Json

namespace Node

/-- An enabled node without an identifier and without extras. -/
def new (block : String) (settings : Json) (slots : List Slot) : Node :=
  ⟨.nil, block, settings, slots, false, .null⟩

/-- A node that places particles one after another. -/
def sequential (settings : Sequential.Settings) (slots : List Slot) : Node :=
  new Sequential.identity settings.toJson slots

/-- The node, to be passed over. -/
def disable (node : Node) : Node := { node with disabled := true }

/-- The document form of a node. -/
def toJson (node : Node) : Json :=
  .object ([("block", .string node.block)] ++
    Json.member "disabled" (!node.disabled) (.bool node.disabled) ++
    Json.member "extras" node.extras.isNull node.extras ++
    Json.member "id" node.id.isNil node.id.toJson ++
    Json.member "inputs" node.slots.isEmpty (.array (node.slots.map Slot.toJson)) ++
    Json.member "settings" node.settings.isNull node.settings)

/-- The fields of a node in documents, in order. -/
def fields : List String := ["id", "block", "settings", "inputs", "disabled", "extras"]

/-- The node with one member of its document form read. -/
def readMember (node : Node) (name : String) (value : Json) : Decoded Node := do
  match name with
  | "id" => return { node with id := ← Uuid.ofJson value }
  | "block" => return { node with block := ← value.toText }
  | "settings" => return { node with settings := value }
  | "inputs" => return { node with slots := ← value.toList Slot.ofJson }
  | "disabled" => return { node with disabled := ← value.toBool }
  | "extras" => return { node with extras := value }
  | _ => return node

/-- Reads a node. -/
def ofJson (json : Json) : Decoded Node := do
  let node ← json.toRecord "Node" fields readMember (new "" .null [])
  json.requireFields "Node" fields ["block"]
  return node

/-- The node with its missing identifiers drawn from a supply: its own, then those of its slots. -/
def complete (draw : Uuid → StateM Nat Uuid) (node : Node) : StateM Nat Node := do
  let id ← draw node.id
  let slots ← node.slots.mapM fun slot => return { slot with id := ← draw slot.id }
  return { node with id, slots }

end Node

namespace Context

/-- A context of particles without an identifier and without extras. -/
def new (name : String) (stage : Stage) (nodes : List Node) : Context :=
  ⟨.nil, name, stage, .particle, nodes, .null⟩

/-- The context with other nodes. -/
def withNodes (context : Context) (nodes : List Node) : Context := { context with nodes }

/-- The context with another kind of data. -/
def withData (context : Context) (data : DataKind) : Context := { context with data }

/-- The document form of a context. -/
def toJson (context : Context) : Json :=
  .object (Json.member "blocks" context.nodes.isEmpty (.array (context.nodes.map Node.toJson)) ++
    [("context", .string context.name), ("context_type", .string context.stage.name),
      ("data_type", .string context.data.name)] ++
    Json.member "extras" context.extras.isNull context.extras ++
    Json.member "id" context.id.isNil context.id.toJson)

/-- The fields of a context in documents, in order. -/
def fields : List String := ["id", "context", "context_type", "data_type", "blocks", "extras"]

/-- The context with one member of its document form read. -/
def readMember (context : Context) (name : String) (value : Json) : Decoded Context := do
  match name with
  | "id" => return { context with id := ← Uuid.ofJson value }
  | "context" => return { context with name := ← value.toText }
  | "context_type" => return { context with stage := ← value.toName Stage.names }
  | "data_type" => return { context with data := ← value.toName DataKind.names }
  | "blocks" => return { context with nodes := ← value.toList Node.ofJson }
  | "extras" => return { context with extras := value }
  | _ => return context

/-- Reads a context. -/
def ofJson (json : Json) : Decoded Context := do
  let context ← json.toRecord "Context" fields readMember (new "" .update [])
  json.requireFields "Context" fields ["context"]
  return context

/-! ## Identifiers -/

/-- An identifier itself, or the next one of a supply if it is nil. The state counts how many were
    drawn. -/
def draw (supply : Nat → Uuid) (id : Uuid) : StateM Nat Uuid :=
  if id.isNil then modifyGet fun drawn => (supply drawn, drawn + 1) else pure id

/-- The context with its missing identifiers drawn from a supply: its own, then those of each node
    in order. -/
def complete (supply : Nat → Uuid) (context : Context) : StateM Nat Context := do
  let id ← draw supply context.id
  let nodes ← context.nodes.mapM (Node.complete (draw supply))
  return { context with id, nodes }

end Context
end EffectGraph
