import EffectGraph.Json.Basic

/-!
# `Block.Variants` — ready-made configurations of a block

A block kind may offer a table of axes, each with its values in order. Its ready-made configurations
are all combinations of one value per axis; the last axis varies fastest, and an axis without values
is left out.
-/

namespace EffectGraph

/-- The axes of a block kind with their values. -/
abbrev Variants := Table (List Json)

namespace Variants

/-- The combinations of one value per axis, in order. -/
def combinations : Variants → List (Table Json)
  | [] => [[]]
  | (axis, values) :: rest =>
    if values.isEmpty then combinations rest
    else values.flatMap fun value => (combinations rest).map ((axis, value) :: ·)

end Variants
end EffectGraph
