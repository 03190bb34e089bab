import EffectGraph.Compile.Error

/-!
# `Compile.Registry` — the known kinds of block

A registry maps identities to kinds of block, in ascending order of the identities. Its palette lists
the ready-made configurations of every kind.
-/

namespace EffectGraph

/-- The known kinds of block. -/
structure Registry where
  kinds : Table BlockKind

/-- An entry of the palette. -/
structure PaletteEntry where
  /-- The name of the block. -/
  name : String
  identity : String
  category : String
  experimental : Bool
  /-- The settings of the block. -/
  settings : Json

namespace Registry

/-- No kinds. -/
def empty : Registry := ⟨[]⟩

/-- The kind of an identity. -/
def get? (registry : Registry) (identity : String) : Option BlockKind :=
  registry.kinds.get? identity

/-- The registry with a kind, in place of an earlier one of its identity. -/
def register (registry : Registry) (kind : BlockKind) : Registry :=
  ⟨registry.kinds.insert kind.identity kind⟩

/-- What there is to say about registering a kind. -/
def notices (registry : Registry) (kind : BlockKind) : List Notice :=
  if registry.kinds.has kind.identity then [.replacedBlock kind.identity] else []

/-- How many kinds are known. -/
def size (registry : Registry) : Nat := registry.kinds.length

/-- The kinds that are always there. -/
def builtin : List BlockKind := [.sequential]

/-- The registry of the kinds that are always there. -/
def default : Registry := builtin.foldl register empty

/-! ## Palette -/

/-- The palette entry of a configuration of a kind. -/
def paletteEntry (identity : String) (kind : BlockKind) (configuration : Table Json) :
    Except CompileError PaletteEntry :=
  let settings := Json.object configuration
  match kind.build settings with
  | .error e => .error (.ofKind identity e)
  | .ok block => .ok ⟨block.name, kind.identity, kind.category, kind.experimental, settings⟩

/-- The palette: for each kind, its ready-made configurations in order. -/
def palette (registry : Registry) : Except CompileError (List PaletteEntry) := do
  let entries ← registry.kinds.mapM fun (identity, kind) =>
    kind.variants.combinations.mapM (paletteEntry identity kind)
  return entries.flatten

end Registry
end EffectGraph
