import EffectGraph.Proofs.Usage

/-!
# `Proofs.Dependence` — the value of an expression depends on what it reads and on nothing else

An expression says what it reads by its nodes: the attributes that it lists and the parameters among
them. Evaluation goes its own way through the operands. The two meet here: particles that agree on
what an expression reads give it one outcome (`evaluate_congr`), and an outcome that is a value shows
that all of it was there (`supplies_of_evaluate`). No attribute is listed twice, and the list has the
order in which the attributes are first met on the way through the nodes.
-/

namespace EffectGraph

namespace Particle

/-- The particles have the same for all that an expression reads: one value, or none in both. -/
structure AgreesOn (particle other : Particle) (e : Expression) : Prop where
  attributes : ∀ a ∈ e.attributes, particle.attribute? a = other.attribute? a
  parameters : ∀ name type, .parameter name type ∈ e.nodes →
    particle.parameter? name = other.parameter? name

theorem AgreesOn.of_operand {particle other : Particle} {e operand : Expression}
    (h : particle.AgreesOn other e) (ho : operand ∈ e.operands) : particle.AgreesOn other operand where
  attributes := by
    intro a ha
    apply h.attributes
    rw [Expression.mem_attributes] at ha ⊢
    exact Expression.mem_nodes_of_operand ho ha
  parameters := by
    intro name type hn
    exact h.parameters name type (Expression.mem_nodes_of_operand ho hn)

end Particle

namespace Expression

variable {particle other : Particle}

attribute [local simp] evaluate

/-- **Particles that agree on what an expression reads give it one outcome**, value or error. -/
theorem evaluate_congr {e : Expression} (h : particle.AgreesOn other e) :
    e.evaluate particle = e.evaluate other := by
  induction e using induction_on_operands with
  | step e ih =>
    have ho : ∀ operand ∈ e.operands, operand.evaluate particle = operand.evaluate other := by
      intro operand hmem
      exact ih operand hmem (h.of_operand hmem)
    cases e with
    | constant value => rfl
    | attr which =>
      have hread : particle.attribute? which = other.attribute? which :=
        h.attributes which (mem_attributes.mpr (self_mem_nodes _))
      rw [evaluate, evaluate, hread]
    | parameter name type =>
      have hread : particle.parameter? name = other.parameter? name :=
        h.parameters name type (self_mem_nodes _)
      rw [evaluate, evaluate, hread]
    | binary op lhs rhs =>
      simp only [operands, List.forall_mem_cons] at ho
      obtain ⟨hl, hr, -⟩ := ho
      rw [evaluate, evaluate, hl, hr]
    | normalize operand =>
      have hoperand := ho operand (by simp [operands])
      rw [evaluate, evaluate, hoperand]
    | line start finish index count =>
      simp only [operands, List.forall_mem_cons] at ho
      obtain ⟨hs, hf, hi, hc, -⟩ := ho
      rw [evaluate, evaluate, hs, hf, hi, hc]
    | circle center radius normal up index count =>
      simp only [operands, List.forall_mem_cons] at ho
      obtain ⟨hc, hr, hz, hy, hi, hn, -⟩ := ho
      rw [evaluate, evaluate, hc, hr, hz, hy, hi, hn]
    | lattice origin axisX axisY axisZ index countX countY countZ =>
      simp only [operands, List.forall_mem_cons] at ho
      obtain ⟨ho, hx, hy, hz, hi, hk, hm, hn, -⟩ := ho
      rw [evaluate, evaluate, ho, hx, hy, hz, hi, hk, hm, hn]

/-- An attribute is listed before another one exactly when it is met first. -/
theorem pair_sublist_attributes {e : Expression} {a b : Attribute} (hab : a ≠ b) :
    [a, b].Sublist e.attributes ↔
      ∃ before after, e.nodes = before ++ .attr a :: after ∧ .attr b ∉ before ∧ .attr b ∈ after := by
  rw [attributes, pair_sublist_eraseDups hab]
  constructor
  · rintro ⟨_, _, hsplit, hbefore, hafter⟩
    -- the nodes that are no attributes go to either side
    obtain ⟨start, rest, hnodes, rfl, hrest⟩ := List.filterMap_eq_append_iff.mp hsplit
    obtain ⟨others, node, after, rfl, hothers, hnode, rfl⟩ := List.filterMap_eq_cons_iff.mp hrest
    obtain rfl := attribute?_eq_some.mp hnode
    rw [mem_filterMap_attribute?] at hbefore hafter
    refine ⟨start ++ others, after, by rw [hnodes, List.append_assoc], ?_, hafter⟩
    intro hb
    rcases List.mem_append.mp hb with hb | hb
    · exact hbefore hb
    · exact absurd (hothers _ hb) (by simp [attribute?])
  · rintro ⟨before, after, hnodes, hbefore, hafter⟩
    refine ⟨before.filterMap attribute?, after.filterMap attribute?, ?_, ?_, ?_⟩
    · have hcons : (attr a :: after).filterMap attribute? = a :: after.filterMap attribute? := rfl
      rw [hnodes, List.filterMap_append, hcons]
    · rwa [mem_filterMap_attribute?]
    · rwa [mem_filterMap_attribute?]

/-- **The value of an expression depends on what it reads and on nothing else.**

    * Particles that agree on the attributes that the expression lists, and on the names of the
      parameters among its nodes, give it one outcome, value or error.
    * Where it has a value, all these attributes and parameters are there, each with a value of the
      type of its node.
    * The attributes that it lists are those among its nodes, each once, in the order in which they
      are first met. -/
theorem evaluation_depends_on_reads (e : Expression) :
    (∀ particle other : Particle, particle.AgreesOn other e →
      e.evaluate particle = e.evaluate other) ∧
    (∀ (particle : Particle) (v : Value), e.evaluate particle = .ok v →
      (∀ a ∈ e.attributes, ∃ w, particle.attribute? a = some w ∧ w.type = a.type) ∧
      ∀ name type, .parameter name type ∈ e.nodes →
        ∃ w, particle.parameter? name = some w ∧ w.type = type) ∧
    e.attributes.Nodup ∧ (∀ a, a ∈ e.attributes ↔ .attr a ∈ e.nodes) ∧
    ∀ a b, a ≠ b → ([a, b].Sublist e.attributes ↔
      ∃ before after, e.nodes = before ++ .attr a :: after ∧ .attr b ∉ before ∧ .attr b ∈ after) := by
  refine ⟨?agreement, ?supply, nodup_eraseDups _, fun a => mem_attributes, ?order⟩
  case agreement =>
    intro particle other h
    exact evaluate_congr h
  case supply =>
    intro particle v h
    have hsupplies : particle.Supplies e := supplies_of_evaluate h
    constructor
    · intro a ha
      have hattr : particle.SuppliesNode (.attr a) := hsupplies _ (mem_attributes.mp ha)
      exact Option.map_eq_some_iff.mp hattr
    · intro name type hn
      have hparameter : particle.SuppliesNode (.parameter name type) := hsupplies _ hn
      exact Option.map_eq_some_iff.mp hparameter
  case order =>
    intro a b hab
    exact pair_sublist_attributes hab

/-- The element of the segment from a particle to its target that the identifier of the particle
    picks, among a number of elements that is exposed as a parameter. -/
def towardsTarget : Expression :=
  .line (.attr .position) (.attr .targetPosition)
    (.binary .modulus (.attr .particleId) (.parameter "count" .uint32)) (.parameter "count" .uint32)

/-- A particle on its way, for a value of the count. -/
def travelling (count : Value) : Particle :=
  (((Particle.empty.withAttribute .particleId (.uint 7)).withAttribute .position (.float3 .zero)
    ).withAttribute .targetPosition (.float3 .unitX)).withParameter "count" count

/-- A parameter of another name changes nothing, here the error for the count 0. With the count 3 there
    is a value, so all that is read is there. Of the three attributes the identifier comes last. -/
theorem towardsTarget_depends :
    (travelling (.uint 0)).AgreesOn ((travelling (.uint 0)).withParameter "speed" (.float 1))
        towardsTarget ∧
      towardsTarget.evaluate (travelling (.uint 0)) = .error .divisionByZero ∧
      towardsTarget.evaluate ((travelling (.uint 0)).withParameter "speed" (.float 1)) =
        .error .divisionByZero ∧
      (∃ v, towardsTarget.evaluate (travelling (.uint 3)) = .ok v) ∧
      (∃ w, (travelling (.uint 3)).attribute? .targetPosition = some w ∧ w.type = .float3) ∧
      (∃ w, (travelling (.uint 3)).parameter? "count" = some w ∧ w.type = .uint32) ∧
      [.targetPosition, .particleId].Sublist towardsTarget.attributes := by
  obtain ⟨agreement, supply, -, members, order⟩ := evaluation_depends_on_reads towardsTarget
  have hagree : (travelling (.uint 0)).AgreesOn
      ((travelling (.uint 0)).withParameter "speed" (.float 1)) towardsTarget := by
    refine ⟨fun a _ => rfl, ?_⟩
    intro name type hn
    obtain ⟨rfl, -⟩ : name = "count" ∧ type = .uint32 := by simpa [towardsTarget, nodes] using hn
    rfl
  have herror : towardsTarget.evaluate (travelling (.uint 0)) = .error .divisionByZero := rfl
  obtain ⟨v, hv⟩ : ∃ v, towardsTarget.evaluate (travelling (.uint 3)) = .ok v := ⟨_, rfl⟩
  obtain ⟨hattributes, hparameters⟩ := supply _ v hv
  have htarget : .attr .targetPosition ∈ towardsTarget.nodes := by simp [towardsTarget, nodes]
  have hcount : .parameter "count" .uint32 ∈ towardsTarget.nodes := by simp [towardsTarget, nodes]
  refine ⟨hagree, herror, (agreement _ _ hagree).symm.trans herror, ⟨v, hv⟩,
    hattributes _ ((members _).mpr htarget), hparameters _ _ hcount, ?_⟩
  exact (order _ _ (by decide)).mpr
    ⟨[towardsTarget, .attr .position], _, rfl, by simp [towardsTarget], by simp [nodes]⟩

end Expression
end EffectGraph
