import EffectGraph.Expression.Document
import EffectGraph.Proofs.Decoding
import EffectGraph.Proofs.Typing

/-!
# `Proofs.ExpressionDocument` — expressions come back from documents

An expression is written under the name of its kind, with its operands under their names or in a row.
Decoding takes each operand from where it was written, so by induction an expression comes back as it
was (`Expression.ofJson_toJson`) when each of its constants does, and a constant does exactly when
every number in it is finite.
-/

namespace EffectGraph.Expression

open Json

/-! ## Names -/

theorem gives_operator (op : Operator) :
    Gives ((Json.string op.name).toName Operator.names) True op :=
  gives_name (by cases op <;> rfl)

theorem gives_attribute (which : Attribute) :
    Gives ((Json.string which.name).toName Attribute.names) True which :=
  gives_name (by cases which <;> rfl)

theorem gives_valueType (type : ValueType) :
    Gives ((Json.string type.name).toName ValueType.names) True type :=
  gives_name (by cases type <;> rfl)

/-! ## Expressions -/

/-- Whether every 32-bit number in the constants of an expression is finite. -/
def Finite (e : Expression) : Prop :=
  ∀ node ∈ e.nodes, ∀ value, node = .constant value → value.Finite

theorem finite_constant {value : Value} : (constant value).Finite ↔ value.Finite := by
  constructor
  · intro h
    exact h _ (self_mem_nodes _) value rfl
  · intro h
    refine forall_nodes_iff.mpr ⟨?_, nofun⟩
    rintro _ ⟨⟩
    exact h

/-- Numbers of an expression that is no constant itself are those of its operands. -/
theorem finite_iff_of_ne_constant {e : Expression} (h : ∀ value, e ≠ .constant value) :
    e.Finite ↔ ∀ operand ∈ e.operands, operand.Finite := by
  have hself : ∀ value, e = .constant value → value.Finite := fun value he => absurd he (h value)
  exact forall_nodes_iff.trans (and_iff_right hself)

/-- **An expression comes back from its document form as it was**, with every bit of its numbers,
    exactly when all of them are finite; else decoding fails. -/
theorem ofJson_toJson (e decoded : Expression) :
    ofJson e.toJson = .ok decoded ↔ e.Finite ∧ decoded = e := by
  suffices h : Gives (ofJson e.toJson) e.Finite e from h decoded
  clear decoded
  induction e with
  | constant value =>
    show Gives (constant <$> Value.ofJson value.toJson) _ _
    exact ((Value.readsBack value).map constant).congr finite_constant.symm
  | attr which =>
    show Gives (attr <$> (Json.string which.name).toName Attribute.names) _ _
    refine ((gives_attribute which).map attr).congr ?_
    simp [finite_iff_of_ne_constant, operands]
  | parameter name type =>
    show Gives (do
      let name ← (Json.string name).toText
      let type ← (Json.string type.name).toName ValueType.names
      return parameter name type) _ _
    refine ((gives_ok name).bind ((gives_valueType type).bind_pure (parameter name))).congr ?_
    simp [finite_iff_of_ne_constant, operands]
  | binary op lhs rhs ihl ihr =>
    show Gives (do
      let op ← (Json.string op.name).toName Operator.names
      let lhs ← ofJson lhs.toJson
      let rhs ← ofJson rhs.toJson
      return binary op lhs rhs) _ _
    refine ((gives_operator op).bind (ihl.bind (ihr.bind_pure (binary op lhs)))).congr ?_
    simp [finite_iff_of_ne_constant, operands]
  | normalize operand ih =>
    show Gives (normalize <$> ofJson operand.toJson) _ _
    refine (ih.map normalize).congr ?_
    simp [finite_iff_of_ne_constant, operands]
  | line start finish index count ihs ihf ihi ihc =>
    show Gives (do
      let start ← ofJson start.toJson
      let finish ← ofJson finish.toJson
      let index ← ofJson index.toJson
      let count ← ofJson count.toJson
      return line start finish index count) _ _
    refine (ihs.bind (ihf.bind (ihi.bind (ihc.bind_pure (line start finish index))))).congr ?_
    simp [finite_iff_of_ne_constant, operands]
  | circle center radius normal up index count ihc ihr ihn ihu ihi ihk =>
    show Gives (do
      let center ← ofJson center.toJson
      let radius ← ofJson radius.toJson
      let normal ← ofJson normal.toJson
      let up ← ofJson up.toJson
      let index ← ofJson index.toJson
      let count ← ofJson count.toJson
      return circle center radius normal up index count) _ _
    refine (ihc.bind (ihr.bind (ihn.bind (ihu.bind (ihi.bind (ihk.bind_pure
      (circle center radius normal up index))))))).congr ?_
    simp [finite_iff_of_ne_constant, operands]
  | lattice origin axisX axisY axisZ index countX countY countZ iho ihx ihy ihz ihi ihcx ihcy ihcz =>
    show Gives (do
      let origin ← ofJson origin.toJson
      let axisX ← ofJson axisX.toJson
      let axisY ← ofJson axisY.toJson
      let axisZ ← ofJson axisZ.toJson
      let index ← ofJson index.toJson
      let countX ← ofJson countX.toJson
      let countY ← ofJson countY.toJson
      let countZ ← ofJson countZ.toJson
      return lattice origin axisX axisY axisZ index countX countY countZ) _ _
    refine (iho.bind (ihx.bind (ihy.bind (ihz.bind (ihi.bind (ihcx.bind (ihcy.bind (ihcz.bind_pure
      (lattice origin axisX axisY axisZ index countX countY))))))))).congr ?_
    simp [finite_iff_of_ne_constant, operands]

end EffectGraph.Expression
