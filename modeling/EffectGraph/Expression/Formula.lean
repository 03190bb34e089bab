import EffectGraph.Expression.Basic

/-!
# `Expression.Formula` — expressions as formulas

The text of an expression in generated source. Operations stand in parentheses of their own and
everything else is a call, so no precedence is needed to read a formula.
-/

namespace EffectGraph.Expression

/-- A call of a function. -/
def call (function : String) (arguments : List String) : String :=
  function ++ "(" ++ ", ".intercalate arguments ++ ")"

/-- The formula of an expression. -/
def text : Expression → String
  | .constant value => value.text
  | .attr which => which.sourceName
  | .parameter name _ => name
  | .binary op lhs rhs => "(" ++ lhs.text ++ " " ++ op.symbol ++ " " ++ rhs.text ++ ")"
  | .normalize operand => call "normalize" [operand.text]
  | .line start finish index count =>
    call "sequentialLine" [start.text, finish.text, index.text, count.text]
  | .circle center radius normal up index count =>
    call "sequentialCircle"
      [center.text, radius.text, normal.text, up.text, index.text, count.text]
  | .lattice origin axisX axisY axisZ index countX countY countZ =>
    call "sequential3D"
      [origin.text, axisX.text, axisY.text, axisZ.text, index.text, countX.text, countY.text,
        countZ.text]

end EffectGraph.Expression
