import EffectGraph.Compile.Registry

/-!
# `Compile.Context` — compiling blocks and contexts

A block compiles to its bound inputs, the expressions that they make and its source. A context
compiles node by node; the first failure ends it, and a disabled node is passed over before anything
about it is looked at.
-/

namespace EffectGraph

/-- A compiled block. -/
structure CompiledBlock where
  name : String
  requirements : List Requirement
  inputs : BoundInputs
  /-- The expressions that the source refers to. -/
  parameters : List NamedExpression
  source : String

namespace CompiledBlock

/-- The expression of a name that the source refers to. -/
def parameter? (compiled : CompiledBlock) (name : String) : Option NamedExpression :=
  compiled.parameters.find? (·.name == name)

end CompiledBlock

/-- Compiles a block with its slots. -/
def Block.compile (block : Block) (slots : List Slot) : Noted BlockError CompiledBlock := do
  let inputs ← (BoundInputs.ofSlots block.declarations slots).mapError .binding
  let parameters ← Noted.ofExcept ((block.parameters inputs).mapError .missingInput)
  Noted.note (.compiledBlock block.name inputs.size parameters.length)
  return ⟨block.name, block.requirements, inputs, parameters, block.source⟩

/-- A compiled context. -/
structure CompiledContext where
  name : String
  stage : Stage
  /-- The compiled blocks of the nodes that are not disabled, in order. -/
  blocks : List CompiledBlock
  /-- The merged requirements of the blocks. -/
  requirements : List Requirement

namespace Node

/-- The block of a node: its kind is known, its settings make a block, and the block may stand in a
    context of the given stage and data. -/
def build (registry : Registry) (stage : Stage) (data : DataKind) (path : String) (node : Node) :
    Except CompileError Block := do
  let some kind := registry.get? node.block | throw (.unknownBlock node.block path)
  let block ← (kind.build node.settings).mapError (.ofKind path)
  if stage ∉ block.stages then throw (.incompatibleStage path stage)
  if block.data ≠ data then throw (.incompatibleData path data)
  return block

/-- Compiles a node that is not disabled. -/
def compile (registry : Registry) (stage : Stage) (data : DataKind) (path : String) (node : Node) :
    Noted CompileError CompiledBlock := do
  let block ← Noted.ofExcept (node.build registry stage data path)
  (block.compile node.slots).mapError (.ofBlock path)

end Node

namespace Context

/-- Compiles the nodes of a context from an index on, in order. -/
def compileNodes (registry : Registry) (context : Context) :
    Nat → List Node → Noted CompileError (List CompiledBlock)
  | _, [] => pure []
  | index, node :: rest => do
    let path := blockPath context.name index node.block
    if node.disabled then
      Noted.note (.skippedBlock path)
      compileNodes registry context (index + 1) rest
    else
      let compiled ← node.compile registry context.stage context.data path
      let others ← compileNodes registry context (index + 1) rest
      return compiled :: others

/-- Compiles a context. -/
def compile (registry : Registry) (context : Context) : Noted CompileError CompiledContext := do
  let blocks ← context.compileNodes registry 0 context.nodes
  let requirements := Requirement.merge [] (blocks.flatMap (·.requirements))
  Noted.note (.compiledContext context.name blocks.length requirements.length)
  return ⟨context.name, context.stage, blocks, requirements⟩

end Context

namespace CompiledContext

/-- The sources of the blocks, each under a comment that names the block. -/
def source (compiled : CompiledContext) : String :=
  "\n".intercalate (compiled.blocks.map fun block => "// " ++ block.name ++ "\n" ++ block.source)

end CompiledContext
end EffectGraph
