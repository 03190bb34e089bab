import EffectGraph.Input.Declaration

/-!
# `Input.Bound` — expressions bound to inputs

`BoundInputs` maps the names of inputs to the expressions bound to them and keeps the names in the
order in which they were first bound. Looking up a name that its user takes for granted can fail; the
failure is a value, `MissingInput`.
-/

namespace EffectGraph

/-- An expression under a name. -/
structure NamedExpression where
  name : String
  expression : Expression

/-- Equality of names and of expressions, the latter as numbers. -/
instance : BEq NamedExpression := ⟨fun a b => a.name == b.name && a.expression == b.expression⟩

/-- The expressions bound to inputs. -/
structure BoundInputs where
  /-- The bindings in the order in which their names were first bound. -/
  entries : List NamedExpression

/-- An input that should be bound and is not. -/
structure MissingInput where
  name : String
deriving DecidableEq, Repr

/-- The failure in words. -/
def MissingInput.message (e : MissingInput) : String :=
  "missing bound input \"" ++ e.name ++ "\""

namespace BoundInputs

/-- Nothing bound. -/
def empty : BoundInputs := ⟨[]⟩

/-- Whether the same names are bound in the same order to equal expressions. -/
instance : BEq BoundInputs := ⟨fun a b => a.entries == b.entries⟩

/-- The expression bound to a name. -/
def get? (inputs : BoundInputs) (name : String) : Option Expression :=
  (inputs.entries.find? (·.name == name)).map (·.expression)

/-- The bound names, in order. -/
def names (inputs : BoundInputs) : List String := inputs.entries.map (·.name)

/-- How many names are bound. -/
def size (inputs : BoundInputs) : Nat := inputs.entries.length

/-- The bindings with the first one of a name changed, or with a new one at the end. -/
def put (name : String) (e : Expression) : List NamedExpression → List NamedExpression
  | [] => [⟨name, e⟩]
  | old :: rest => if old.name = name then ⟨name, e⟩ :: rest else old :: put name e rest

/-- Binds a name, in place of what was bound to it before. -/
def insert (inputs : BoundInputs) (name : String) (e : Expression) : BoundInputs :=
  ⟨put name e inputs.entries⟩

/-- The bindings as `put` leaves them, with the expression that the name had among them: it is found
    and replaced in one pass. -/
def exchange (name : String) (e : Expression) :
    List NamedExpression → Option Expression × List NamedExpression
  | [] => (none, [⟨name, e⟩])
  | old :: rest =>
    if old.name = name then (some old.expression, ⟨name, e⟩ :: rest)
    else
      let (previous, changed) := exchange name e rest
      (previous, old :: changed)

/-- Binds a name as `insert` does, and gives the expression that was bound to it before. -/
def getThenInsert? (inputs : BoundInputs) (name : String) (e : Expression) :
    Option Expression × BoundInputs :=
  let (previous, entries) := exchange name e inputs.entries
  (previous, ⟨entries⟩)

/-- Every input bound to its default. -/
def ofDefaults (declarations : List Declaration) : BoundInputs :=
  declarations.foldl (fun inputs d => inputs.insert d.name d.wrapDefault) empty

/-- The expression bound to a name that has to be bound. -/
def required (inputs : BoundInputs) (name : String) : Except MissingInput Expression :=
  match inputs.get? name with
  | none => .error ⟨name⟩
  | some e => .ok e

end BoundInputs
end EffectGraph
