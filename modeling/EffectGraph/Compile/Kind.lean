import EffectGraph.Document.Model

/-!
# `Compile.Kind` — kinds of block

A kind of block turns authored settings into a block. `BlockKind.ofSettings` makes one from a type of
settings; settings that are `null` stand for the default ones.
-/

namespace EffectGraph

/-- Why settings do not make a block. -/
inductive KindError where
  /-- They cannot be read. -/
  | settings (e : DecodeError)
  /-- They can be read but no block can be built. The messages go from the last one to be added to
      the first cause. -/
  | build (message : String) (causes : List String)

/-- A kind of block. -/
structure BlockKind where
  /-- The name that nodes refer to it by. -/
  identity : String
  /-- The group that authors find it in. -/
  category : String
  /-- Whether it is still being tried out. -/
  experimental : Bool
  /-- The axes of its ready-made configurations. -/
  variants : Variants
  /-- The document form of its default settings. -/
  defaultSettings : Json
  /-- The block of given settings. -/
  build : Json → Except KindError Block

namespace BlockKind

/-- The kind whose settings are read, and built into a block, by the given functions. -/
def ofSettings {σ : Type} (identity category : String) (experimental : Bool) (variants : Variants)
    (initial : σ) (encode : σ → Json) (decode : Json → Decoded σ)
    (build : σ → Except KindError Block) : BlockKind where
  identity := identity
  category := category
  experimental := experimental
  variants := variants
  defaultSettings := encode initial
  build json :=
    if json.isNull then build initial
    else (decode json).mapError .settings >>= build

/-- A node of this kind with its default settings. -/
def defaultNode (kind : BlockKind) : Node := .new kind.identity kind.defaultSettings []

/-- The kind that places particles one after another. -/
def sequential : BlockKind :=
  ofSettings Sequential.identity "Position" true Sequential.variants {} Sequential.Settings.toJson
    Sequential.Settings.ofJson fun settings => .ok settings.block

end BlockKind
end EffectGraph
