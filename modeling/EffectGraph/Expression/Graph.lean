import EffectGraph.Expression.Basic

/-!
# `Expression.Graph` — expressions that share their operands

While expressions are put together, an operand is used by reference: two expressions may be built on
the very same one. A `Graph` holds every expression that was made, each with the places of its
operands. Being the same expression means being at the same place; two equal expressions that were
made apart are at two.
-/

namespace EffectGraph

/-- An expression of a graph. -/
structure GraphNode where
  /-- The expression itself. -/
  expression : Expression
  /-- The places of its operands. -/
  operands : List Nat

/-- The expressions that were made, in order. -/
structure Graph where
  nodes : Array GraphNode

namespace Graph

/-- The graph without expressions. -/
def empty : Graph := ⟨#[]⟩

/-- The expression at a place. -/
def expression (graph : Graph) (place : Nat) : Expression :=
  (graph.nodes[place]?.map (·.expression)).getD default

/-- The places of the operands of the expression at a place. -/
def operands (graph : Graph) (place : Nat) : List Nat :=
  (graph.nodes[place]?.map (·.operands)).getD []

/-- The graph with one more expression, and its place. -/
def add (graph : Graph) (expression : Expression) (operands : List Nat) : Graph × Nat :=
  (⟨graph.nodes.push ⟨expression, operands⟩⟩, graph.nodes.size)

/-- The graph with an operation on the expressions at two places. -/
def binary (graph : Graph) (op : Operator) (lhs rhs : Nat) : Graph × Nat :=
  graph.add (.binary op (graph.expression lhs) (graph.expression rhs)) [lhs, rhs]

/-- The graph with the unit vector of the expression at a place. -/
def normalize (graph : Graph) (operand : Nat) : Graph × Nat :=
  graph.add (.normalize (graph.expression operand)) [operand]

/-- The graph with an element of a segment. -/
def line (graph : Graph) (start finish index count : Nat) : Graph × Nat :=
  let e := graph.expression
  graph.add (.line (e start) (e finish) (e index) (e count)) [start, finish, index, count]

/-- The graph with an element of a circle. -/
def circle (graph : Graph) (center radius normal up index count : Nat) : Graph × Nat :=
  let e := graph.expression
  graph.add (.circle (e center) (e radius) (e normal) (e up) (e index) (e count))
    [center, radius, normal, up, index, count]

/-- The graph with an element of a lattice. -/
def lattice (graph : Graph) (origin axisX axisY axisZ index countX countY countZ : Nat) :
    Graph × Nat :=
  let e := graph.expression
  graph.add
    (.lattice (e origin) (e axisX) (e axisY) (e axisZ) (e index) (e countX) (e countY) (e countZ))
    [origin, axisX, axisY, axisZ, index, countX, countY, countZ]

end Graph
end EffectGraph
