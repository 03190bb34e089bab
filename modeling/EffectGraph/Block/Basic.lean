import EffectGraph.Attribute
import EffectGraph.Input.Bound

/-!
# `Block.Basic` — what a block is made of

A block is one configured step of a particle system. It says where it may stand, which inputs it
declares and which attributes it uses, and it turns bound inputs into the named expressions that its
source refers to.
-/

namespace EffectGraph

/-- The stage of a particle system that a context runs in. -/
inductive Stage where
  | spawner
  | init
  | update
  | output
deriving DecidableEq, Repr

namespace Stage

/-- The name of a stage in documents. -/
def name : Stage → String
  | .spawner => "spawner"
  | .init => "init"
  | .update => "update"
  | .output => "output"

/-- The stages by their names in documents. -/
def names : List (String × Stage) :=
  [("spawner", .spawner), ("init", .init), ("update", .update), ("output", .output)]

/-- The name of a stage in messages. -/
def title : Stage → String
  | .spawner => "Spawner"
  | .init => "Init"
  | .update => "Update"
  | .output => "Output"

/-- The stages in which particles exist. -/
def particleStages : List Stage := [.init, .update, .output]

end Stage

/-- What a context works on. -/
inductive DataKind where
  | spawnEvent
  | particle
deriving DecidableEq, Repr

namespace DataKind

/-- The name of a kind of data in documents. -/
def name : DataKind → String
  | .spawnEvent => "spawn_event"
  | .particle => "particle"

/-- The kinds of data by their names in documents. -/
def names : List (String × DataKind) := [("spawn_event", .spawnEvent), ("particle", .particle)]

/-- The name of a kind of data in messages. -/
def title : DataKind → String
  | .spawnEvent => "SpawnEvent"
  | .particle => "Particle"

end DataKind

/-- A configured block. -/
structure Block where
  /-- The name that authors see. -/
  name : String
  /-- The group that authors find it in. -/
  category : String
  /-- The stages it may stand in. -/
  stages : List Stage
  /-- The data it works on. -/
  data : DataKind
  /-- The inputs it declares. -/
  declarations : List Declaration
  /-- The attributes its source uses. -/
  requirements : List Requirement
  /-- The named expressions that its source refers to, given its bound inputs. -/
  parameters : BoundInputs → Except MissingInput (List NamedExpression)
  /-- Its source. -/
  source : String

end EffectGraph
