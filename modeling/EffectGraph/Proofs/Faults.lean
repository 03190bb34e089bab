import EffectGraph.Proofs.FirstAppearance
import EffectGraph.Proofs.Typing

/-!
# `Proofs.Faults` — evaluation reports the first node that is not supplied

Evaluation and the list of the nodes go through an expression in two separate ways. On well-typed
expressions without integer divisions they agree on the order: the only nodes that can fail are the ones
that read something, and of those that do, evaluation reports the one that stands first in the list.

`Particle.Reports` carries this along a sequence of operands: the outcome belongs to a list of nodes, and
the outcome of two steps belongs to the nodes of the first followed by those of the second.
-/

namespace EffectGraph

open Outcome

namespace Particle

/-- What is wrong with a node that reads something: it finds no value, or one of another type. -/
inductive Fault (particle : Particle) : Expression → EvaluationError → Prop where
  | missingAttribute {which : Attribute} (h : particle.attribute? which = none) :
    Fault particle (.attr which) (.missingAttribute which)
  | mistypedAttribute {which : Attribute} {value : Value}
    (h : particle.attribute? which = some value) (ht : value.type ≠ which.type) :
    Fault particle (.attr which) (.typeMismatch .attribute which.type value.type)
  | missingParameter {name : String} {type : ValueType} (h : particle.parameter? name = none) :
    Fault particle (.parameter name type) (.missingParameter name)
  | mistypedParameter {name : String} {type : ValueType} {value : Value}
    (h : particle.parameter? name = some value) (ht : value.type ≠ type) :
    Fault particle (.parameter name type) (.typeMismatch .parameter type value.type)

variable {particle : Particle} {node : Expression}

/-- A node is either supplied or has a fault. -/
theorem exists_fault_iff : (∃ error, particle.Fault node error) ↔ ¬ particle.SuppliesNode node := by
  constructor
  · rintro ⟨error, hfault⟩ hsupplies
    cases hfault with
    | missingAttribute h => simp [SuppliesNode, h] at hsupplies
    | mistypedAttribute h ht => simp [SuppliesNode, h, ht] at hsupplies
    | missingParameter h => simp [SuppliesNode, h] at hsupplies
    | mistypedParameter h ht => simp [SuppliesNode, h, ht] at hsupplies
  · intro hnot
    cases node with
    | attr which =>
      cases h : particle.attribute? which with
      | none => exact ⟨_, .missingAttribute h⟩
      | some value =>
        have ht : value.type ≠ which.type := by simpa [SuppliesNode, h] using hnot
        exact ⟨_, .mistypedAttribute h ht⟩
    | parameter name type =>
      cases h : particle.parameter? name with
      | none => exact ⟨_, .missingParameter h⟩
      | some value =>
        have ht : value.type ≠ type := by simpa [SuppliesNode, h] using hnot
        exact ⟨_, .mistypedParameter h ht⟩
    | _ => exact absurd trivial hnot

/-- A node with a fault evaluates to it. -/
theorem Fault.evaluate_eq {error : EvaluationError} (h : particle.Fault node error) :
    node.evaluate particle = .error error := by
  cases h with
  | missingAttribute h => simp [Expression.evaluate, h]
  | mistypedAttribute h ht => simp [Expression.evaluate, h, Value.ofType, ht]
  | missingParameter h => simp [Expression.evaluate, h]
  | mistypedParameter h ht => simp [Expression.evaluate, h, Value.ofType, ht]

/-- A fault of a node is the only one. -/
theorem Fault.unique {error other : EvaluationError} (h : particle.Fault node error)
    (ho : particle.Fault node other) : error = other :=
  Except.error.inj (h.evaluate_eq.symm.trans ho.evaluate_eq)

/-! ## Outcomes of lists of nodes -/

/-- An outcome reports on nodes: it is a value if all of them are supplied, and otherwise the fault of
    the first one that is not. -/
def Reports {α : Type} (particle : Particle) (nodes : List Expression) (outcome : Evaluated α) : Prop :=
  (∀ node ∈ nodes, particle.SuppliesNode node) ∧ (∃ a, outcome = .ok a) ∨
  ∃ before node after error, nodes = before ++ node :: after ∧
    (∀ earlier ∈ before, particle.SuppliesNode earlier) ∧ particle.Fault node error ∧
    outcome = .error error

namespace Reports

variable {α β : Type} {nodes more : List Expression} {outcome : Evaluated α}

/-- A supplied node in front makes no difference. -/
theorem cons (h : Reports particle nodes outcome) (hnode : particle.SuppliesNode node) :
    Reports particle (node :: nodes) outcome := by
  rcases h with ⟨hnodes, hvalue⟩ | ⟨before, first, after, error, rfl, hbefore, hfault, he⟩
  · exact .inl ⟨List.forall_mem_cons.mpr ⟨hnode, hnodes⟩, hvalue⟩
  · exact .inr ⟨node :: before, first, after, error, rfl,
      List.forall_mem_cons.mpr ⟨hnode, hbefore⟩, hfault, he⟩

/-- A step that reports on some nodes, and then one that reports on more. -/
theorem bind {first : Evaluated α} {next : α → Evaluated β} (h : Reports particle nodes first)
    (hn : ∀ a, first = .ok a → Reports particle more (next a)) :
    Reports particle (nodes ++ more) (first >>= next) := by
  rcases h with ⟨hnodes, a, rfl⟩ | ⟨before, node, after, error, rfl, hbefore, hfault, rfl⟩
  · show Reports particle (nodes ++ more) (next a)
    rcases hn a rfl with ⟨hmore, hvalue⟩ | ⟨before, node, after, error, rfl, hbefore, hfault, he⟩
    · exact .inl ⟨List.forall_mem_append.mpr ⟨hnodes, hmore⟩, hvalue⟩
    · exact .inr ⟨nodes ++ before, node, after, error, by rw [List.append_assoc],
        List.forall_mem_append.mpr ⟨hnodes, hbefore⟩, hfault, he⟩
  · -- the second step is never reached
    exact .inr ⟨before, node, after ++ more, error, by rw [List.append_assoc, List.cons_append],
      hbefore, hfault, rfl⟩

/-- The outcome is a value exactly if all nodes are supplied. -/
theorem exists_ok_iff (h : Reports particle nodes outcome) :
    (∃ a, outcome = .ok a) ↔ ∀ node ∈ nodes, particle.SuppliesNode node := by
  rcases h with ⟨hnodes, hvalue⟩ | ⟨before, node, after, error, rfl, -, hfault, rfl⟩
  · exact ⟨fun _ => hnodes, fun _ => hvalue⟩
  · constructor
    · rintro ⟨a, ha⟩
      cases ha
    · intro hnodes
      have hsupplied : particle.SuppliesNode node := hnodes node (by simp)
      exact absurd hsupplied (exists_fault_iff.mp ⟨error, hfault⟩)

/-- The outcome is an error exactly if it is the fault of the first node that is not supplied. -/
theorem eq_error_iff (h : Reports particle nodes outcome) {error : EvaluationError} :
    outcome = .error error ↔ ∃ before node after, nodes = before ++ node :: after ∧
      (∀ earlier ∈ before, particle.SuppliesNode earlier) ∧ particle.Fault node error := by
  constructor
  · rintro rfl
    rcases h with ⟨-, a, ha⟩ | ⟨before, node, after, error, hsplit, hbefore, hfault, he⟩
    · cases ha
    · obtain rfl := Except.error.inj he
      exact ⟨before, node, after, hsplit, hbefore, hfault⟩
  · rintro ⟨before, node, after, hsplit, hbefore, hfault⟩
    have hnode : ¬ particle.SuppliesNode node := exists_fault_iff.mp ⟨error, hfault⟩
    rcases h with ⟨hnodes, -⟩ | ⟨before', node', after', error', rfl, hbefore', hfault', rfl⟩
    · exact absurd (hnodes node (by simp [hsplit])) hnode
    · -- both are the first node that is not supplied
      have hnode' : ¬ particle.SuppliesNode node' := exists_fault_iff.mp ⟨error', hfault'⟩
      obtain ⟨-, rfl, -⟩ := first_unique hsplit hbefore' hbefore hnode' hnode
      rw [hfault'.unique hfault]

end Reports
end Particle

namespace Expression

variable {particle : Particle}

/-- A division, or its remainder, on integers. -/
def IsIntegerDivision : Expression → Prop
  | .binary op lhs rhs =>
    (op = .divide ∨ op = .modulus) ∧ (Expression.binary op lhs rhs).type = .uint32
  | _ => False

instance : DecidablePred IsIntegerDivision
  | .constant _ => isFalse id
  | .attr _ => isFalse id
  | .parameter _ _ => isFalse id
  | .binary .. => inferInstanceAs (Decidable (_ ∧ _))
  | .normalize _ => isFalse id
  | .line .. => isFalse id
  | .circle .. => isFalse id
  | .lattice .. => isFalse id

/-- Nowhere in the expression integers are divided. -/
def DividesNoIntegers (e : Expression) : Prop := ∀ node ∈ e.nodes, ¬ node.IsIntegerDivision

instance (e : Expression) : Decidable e.DividesNoIntegers :=
  inferInstanceAs (Decidable (∀ node ∈ e.nodes, ¬ node.IsIntegerDivision))

/-- A node with operands reads nothing itself. -/
theorem suppliesNode_of_inner {e : Expression} (hinner : e.operands ≠ []) :
    particle.SuppliesNode e := by
  cases e with
  | attr which => exact absurd rfl hinner
  | parameter name type => exact absurd rfl hinner
  | _ => trivial

theorem reports_leaf {e : Expression} (hleaf : e.operands = []) :
    particle.Reports [e] (e.evaluate particle) := by
  by_cases hs : particle.SuppliesNode e
  · exact .inl ⟨by simpa using hs, exists_evaluate_of_leaf hleaf hs⟩
  · obtain ⟨error, hfault⟩ := Particle.exists_fault_iff.mpr hs
    exact .inr ⟨[], e, [], error, rfl, by simp, hfault, hfault.evaluate_eq⟩

/-- **The outcome of a well-typed expression without integer divisions reports on its nodes.** -/
theorem reports_evaluate {e : Expression} (hw : e.WellTyped) (hd : e.DividesNoIntegers) :
    particle.Reports e.nodes (e.evaluate particle) := by
  induction e using induction_on_operands with
  | step e ih =>
    obtain ⟨hfit, hws⟩ := wellTyped_iff.mp hw
    obtain ⟨hself, hds⟩ := forall_nodes_iff.mp hd
    rw [nodes_eq]
    by_cases hleaf : e.operands = []
    · rw [hleaf]
      exact reports_leaf hleaf
    refine Particle.Reports.cons ?_ (suppliesNode_of_inner hleaf)
    refine evaluate_in_order
      (motive := fun rest outcome => particle.Reports (rest.flatMap nodes) outcome) hleaf hfit
      ?operands ?operation fun v => ?value
    case operands =>
      intro operand ho rest next hn
      rw [List.flatMap_cons]
      exact (ih operand ho (hws operand ho) (hds operand ho)).bind hn
    case operation =>
      rintro op lhs rhs a b rfl ha hb hmix
      rcases op.apply_cases hmix with hv | ⟨-, hop, huint, rfl⟩
      · exact .inl ⟨by simp, hv⟩
      · -- an integer division was excluded
        have htype : (binary op lhs rhs).type = .uint32 := by
          show lhs.type.promote rhs.type = .uint32
          rw [← type_of_evaluate ha, ← type_of_evaluate hb, huint]; rfl
        exact absurd ⟨hop, htype⟩ hself
    case value => exact .inl ⟨by simp, v, rfl⟩

/-- **Evaluation reports the first node that is not supplied.** A well-typed expression in which no
    integers are divided has a value exactly if every attribute and every parameter among its nodes has a
    value of the type of its node. Otherwise the outcome is the fault of the first node, in the order of
    the nodes, for which this is not so. -/
theorem evaluation_reports_first_fault {e : Expression} (hw : e.WellTyped)
    (hd : e.DividesNoIntegers) (particle : Particle) :
    ((∃ v, e.evaluate particle = .ok v) ↔ particle.Supplies e) ∧
    (∀ error, e.evaluate particle = .error error ↔
      ∃ before node after, e.nodes = before ++ node :: after ∧
        (∀ earlier ∈ before, particle.SuppliesNode earlier) ∧ particle.Fault node error) := by
  have hreports : particle.Reports e.nodes (e.evaluate particle) := reports_evaluate hw hd
  refine ⟨hreports.exists_ok_iff, ?_⟩
  intro error
  exact hreports.eq_error_iff

/-- The element of a segment, with its end in the direction of the target, that the identifier of the
    particle picks. -/
def towardsDirection : Expression :=
  .line (.binary .multiply (.parameter "speed" .float) (.attr .position))
    (.normalize (.attr .targetPosition)) (.attr .particleId) (.parameter "count" .uint32)

/-- A particle without an identifier, for a value of the target and with a number for the count. -/
def unidentified (target : Value) : Particle :=
  (((Particle.empty.withAttribute .position (.float3 .zero)).withAttribute .targetPosition target
    ).withParameter "speed" (.float 2)).withParameter "count" (.float 1)

/-- With a number for the target, three nodes are not supplied and the target is reported, which is met
    first. With a vector for it, the identifier is reported before the count. With both mended there is a
    value. -/
theorem towardsDirection_reports :
    towardsDirection.WellTyped ∧ towardsDirection.DividesNoIntegers ∧
      towardsDirection.evaluate (unidentified (.float 1)) =
        .error (.typeMismatch .attribute .float3 .float) ∧
      towardsDirection.evaluate (unidentified (.float3 .unitX)) =
        .error (.missingAttribute .particleId) ∧
      ∃ v, towardsDirection.evaluate (((unidentified (.float3 .unitX)).withAttribute .particleId
        (.uint 5)).withParameter "count" (.uint 8)) = .ok v := by
  have hw : towardsDirection.WellTyped := by decide
  have hd : towardsDirection.DividesNoIntegers := by decide
  obtain ⟨-, htarget⟩ := evaluation_reports_first_fault hw hd (unidentified (.float 1))
  obtain ⟨-, hidentifier⟩ := evaluation_reports_first_fault hw hd (unidentified (.float3 .unitX))
  obtain ⟨hvalue, -⟩ := evaluation_reports_first_fault hw hd
    (((unidentified (.float3 .unitX)).withAttribute .particleId (.uint 5)).withParameter "count"
      (.uint 8))
  have hmistyped : (unidentified (.float 1)).Fault (.attr .targetPosition)
      (.typeMismatch .attribute .float3 (Value.float 1).type) := .mistypedAttribute rfl (by decide)
  refine ⟨hw, hd, (htarget _).mpr ?_, (hidentifier _).mpr ?_, hvalue.mpr (by decide)⟩
  · exact ⟨towardsDirection.nodes.take 5, .attr .targetPosition, towardsDirection.nodes.drop 6, rfl,
      by decide, hmistyped⟩
  · exact ⟨towardsDirection.nodes.take 6, .attr .particleId, towardsDirection.nodes.drop 7, rfl,
      by decide, .missingAttribute rfl⟩

end Expression
end EffectGraph
