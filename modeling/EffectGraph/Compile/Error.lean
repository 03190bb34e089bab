import EffectGraph.Compile.Kind
import EffectGraph.Input.Binding

/-!
# `Compile.Error` — why a context does not compile

Every error names the block that it is about by its path, `context/index#identity`.
-/

namespace EffectGraph

/-- The path of the node at an index of a context. -/
def blockPath (context : String) (index : Nat) (identity : String) : String :=
  context ++ "/" ++ toString index ++ "#" ++ identity

/-- Why one block does not compile. -/
inductive BlockError where
  /-- Its slots cannot be bound. -/
  | binding (e : BindError)
  /-- It asks for an input that it did not declare. -/
  | missingInput (e : MissingInput)

/-- Why a context does not compile. -/
inductive CompileError where
  /-- There is no kind of block of that identity. -/
  | unknownBlock (identity path : String)
  /-- The settings cannot be read. -/
  | settings (path : String) (e : DecodeError)
  /-- The block cannot be built. -/
  | build (path message : String) (causes : List String)
  /-- The block may not stand in a context of this stage. -/
  | incompatibleStage (path : String) (stage : Stage)
  /-- The block does not work on the data of the context. -/
  | incompatibleData (path : String) (data : DataKind)
  /-- The slots of the block cannot be bound. -/
  | binding (path : String) (e : BindError)
  /-- The block asks for an input that it did not declare. -/
  | missingInput (e : MissingInput)

namespace CompileError

/-- The error of a kind of block, at a path. -/
def ofKind (path : String) : KindError → CompileError
  | .settings e => .settings path e
  | .build message causes => .build path message causes

/-- The error of one block, at a path. -/
def ofBlock (path : String) : BlockError → CompileError
  | .binding e => .binding path e
  | .missingInput e => .missingInput e

/-- A text whose lines after the first stand under the given margin. -/
def hang (margin text : String) : String :=
  ("\n" ++ margin).intercalate (text.splitOn "\n")

/-- A number of a list of causes, right-aligned. -/
def causeNumber (n : Nat) : String :=
  let digits := toString n
  String.ofList (List.replicate (5 - digits.length) ' ') ++ digits ++ ": "

/-- A message with what caused it: one cause stands by itself, several are numbered. -/
def report (message : String) (causes : List String) : String :=
  match causes with
  | [] => message
  | [cause] => message ++ "\n\nCaused by:\n    " ++ hang "    " cause
  | causes =>
    message ++ "\n\nCaused by:" ++
      String.join (causes.mapIdx fun n cause => "\n" ++ causeNumber n ++ hang "       " cause)

/-- The error in words. -/
def message : CompileError → String
  | .unknownBlock identity path => "missing block meta: " ++ identity ++ ", \"" ++ path ++ "\""
  | .settings path e => "serialization error for " ++ path ++ ": " ++ e.report
  | .build path text causes => "build error for " ++ path ++ ": " ++ report text causes
  | .incompatibleStage path stage =>
    "block " ++ path ++ " is not compatible with " ++ stage.title ++ " contexts"
  | .incompatibleData path data =>
    "block " ++ path ++ " is not compatible with " ++ data.title ++ " data"
  | .binding path e => "binding error for " ++ path ++ ": " ++ e.message
  | .missingInput e => e.message

end CompileError
end EffectGraph
