import EffectGraph.Document.Model
import EffectGraph.Expression.Document
import EffectGraph.Json.Layout
import EffectGraph.PostProcess.Settings

/-!
# `Document.Part` — the texts that documents come as

The kinds of part that a document is made of, each with its layout, and
the loading of an authored context from text.
-/

namespace EffectGraph

/-- A kind of part of a document. -/
inductive Part where
  /-- A part of which everything is read. -/
  | free
  /-- One of a list of names. -/
  | name (names : List String)
  | vec3
  | value
  | expression
  | parameter
  | binary
  | line
  | circle
  | lattice
  | requirement
  | sequentialSettings
  | postProcessSettings
  | slotValue
  | slot
  | slots
  | node
  | nodes
  | context

namespace Part

/-- The names of a plain choice as a kind of part. -/
def ofNames {α : Type} (names : List (String × α)) : Part := .name (names.map (·.1))

/-- What is read of each kind of part. -/
def layout : Part → Layout Part
  | .free => .free
  | .name names => .choice (names.map fun name => (name, .free))
  | .vec3 => .tuple [.free, .free, .free]
  | .value => .choice [("uint", .free), ("float", .free), ("float3", .vec3)]
  | .expression => .choice [("constant", .value), ("attribute", ofNames Attribute.names),
    ("parameter", .parameter), ("binary", .binary), ("normalize", .expression),
    ("sequential_line", .line), ("sequential_circle", .circle), ("sequential_3d", .lattice)]
  | .parameter => .record [("name", .free), ("value_type", ofNames ValueType.names)]
  | .binary => .tuple [ofNames Operator.names, .expression, .expression]
  | .line => .record [("start", .expression), ("end", .expression), ("index", .expression),
    ("count", .expression)]
  | .circle => .record [("center", .expression), ("radius", .expression), ("normal", .expression),
    ("up", .expression), ("index", .expression), ("count", .expression)]
  | .lattice => .record [("origin", .expression), ("axis_x", .expression), ("axis_y", .expression),
    ("axis_z", .expression), ("index", .expression), ("count_x", .expression),
    ("count_y", .expression), ("count_z", .expression)]
  | .requirement => .record [("attribute", ofNames Attribute.names),
    ("mode", ofNames AccessMode.names)]
  | .sequentialSettings => .record [("shape", ofNames Sequential.Shape.names),
    ("index", ofNames Sequential.IndexSource.names),
    ("target_position", ofNames Sequential.TargetMode.names)]
  | .postProcessSettings => .record [(PostProcessSettings.lutSizeName, .free),
    (PostProcessSettings.lutFormatName, ofNames LutFormat.names)]
  | .slotValue => .choice [("value", .value), ("parameter", .free)]
  | .slot => .record [("id", .free), ("name", .free), ("value", .slotValue), ("extras", .free)]
  | .slots => .sequence .slot
  | .node => .record [("id", .free), ("block", .free), ("settings", .free), ("inputs", .slots),
    ("disabled", .free), ("extras", .free)]
  | .nodes => .sequence .node
  | .context => .record [("id", .free), ("context", .free),
    ("context_type", ofNames Stage.names), ("data_type", ofNames DataKind.names),
    ("blocks", .nodes), ("extras", .free)]

/-- What the text of a part holds, `none` when it cannot be read. -/
def decode? {α : Type} (part : Part) (decode : Json → Decoded α) (text : String) : Option α :=
  (Layout.read layout part text).bind fun json => (decode json).toOption

end Part

namespace Context

/-- The failure to load a context. -/
inductive LoadError where
  /-- The text is no context. -/
  | unreadable
deriving DecidableEq, Repr

/-- The failure in words. -/
def LoadError.message : LoadError → String
  | .unreadable => "failed to parse context document"

/-- The context that a text holds, as it is written there. -/
def ofText (text : String) : Except LoadError Context :=
  match Part.context.decode? ofJson text with
  | none => .error .unreadable
  | some context => .ok context

/-- The context that a text holds, with its missing identifiers drawn from a supply. -/
def load (supply : Nat → Uuid) (text : String) : Except LoadError Context :=
  (ofText text).map fun context => (context.complete supply 0).1

end Context
end EffectGraph
