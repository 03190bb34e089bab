/-!
# `Table` — associations kept in ascending order of their names

The members of an object, the axes of a variant set and the kinds of a registry are all small maps
whose names come out in ascending order. A table is such a map as a list of pairs. Replacing the
value of a name leaves its place alone and a new name goes before the first greater one, so a table
stays ascending when it was, and the order of two insertions of different names does not show.
-/

namespace EffectGraph

/-- A map from names to values, as a list of pairs. -/
abbrev Table (α : Type) := List (String × α)

namespace Table

variable {α β : Type}

/-- The value of a name. -/
def get? (table : Table α) (name : String) : Option α :=
  List.lookup name table

/-- Whether a name has a value. -/
def has (table : Table α) (name : String) : Bool :=
  (table.get? name).isSome

/-- The names, in order. -/
def names (table : Table α) : List String :=
  table.map (·.1)

/-- The table with another value for the first entry of a name. -/
def replace (name : String) (value : α) : Table α → Table α
  | [] => []
  | (key, old) :: rest =>
    if key = name then (key, value) :: rest else (key, old) :: replace name value rest

/-- The table with a new entry before the first one of a greater name. -/
def place (name : String) (value : α) : Table α → Table α
  | [] => [(name, value)]
  | (key, old) :: rest =>
    if name < key then (name, value) :: (key, old) :: rest
    else (key, old) :: place name value rest

/-- The table in which a name has the given value, whatever it had before. -/
def insert (table : Table α) (name : String) (value : α) : Table α :=
  if table.has name then replace name value table else place name value table

/-- The table of a list of pairs, the last pair of a name winning. -/
def ofPairs (pairs : List (String × α)) : Table α :=
  pairs.foldl (fun table (name, value) => table.insert name value) []

end Table
end EffectGraph
