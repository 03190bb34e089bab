import EffectGraph.Expression.Evaluate
import EffectGraph.Proofs.Outcome

/-!
# `Proofs.Typing` — the type of an expression against the type of its value

`Expression.type` is inferred from the operands alone and promotes an integer beside a number, while
evaluation refuses that mix. The two agree on *well-typed* expressions, those in which every node
has operands of the types that evaluation asks for:

* an expression that has a value is well-typed, and its type is the type of the value;
* a well-typed expression that is supplied with what it reads has a value, or somewhere in it an
  integer is divided by zero.

## Contents
- `WellTyped`, `Particle.Supplies` and `HasZeroDivisor`, each a condition on the nodes.
- What evaluation of each kind of node comes to (`evaluate_line`, …).
- Soundness by induction over the operands.
- `evaluate_in_order`, from what carries over one operand to the node, and progress by it (`Settles`).
-/

namespace EffectGraph

open Outcome

/-! ## Well-typed expressions -/

/-- Two types of operands that an operation takes: two integers, or two numbers or vectors. -/
def ValueType.Mixes (a b : ValueType) : Prop :=
  (a = .uint32 ∧ b = .uint32) ∨ (a ∈ [.float, .float3] ∧ b ∈ [.float, .float3])

instance (a b : ValueType) : Decidable (a.Mixes b) :=
  inferInstanceAs (Decidable (_ ∨ _))

namespace Expression

/-- The operands of a node have the types that its evaluation asks for. -/
def OperandsFit : Expression → Prop
  | .constant _ => True
  | .attr _ => True
  | .parameter _ _ => True
  | .binary _ lhs rhs => lhs.type.Mixes rhs.type
  | .normalize operand => operand.type = .float3
  | .line start finish index count =>
    start.type = .float3 ∧ finish.type = .float3 ∧ index.type = .uint32 ∧ count.type = .uint32
  | .circle center radius normal up index count =>
    center.type = .float3 ∧ radius.type = .float ∧ normal.type = .float3 ∧ up.type = .float3 ∧
      index.type = .uint32 ∧ count.type = .uint32
  | .lattice origin axisX axisY axisZ index countX countY countZ =>
    origin.type = .float3 ∧ axisX.type = .float3 ∧ axisY.type = .float3 ∧ axisZ.type = .float3 ∧
      index.type = .uint32 ∧ countX.type = .uint32 ∧ countY.type = .uint32 ∧ countZ.type = .uint32

instance : DecidablePred OperandsFit
  | .constant _ => isTrue trivial
  | .attr _ => isTrue trivial
  | .parameter _ _ => isTrue trivial
  | .binary _ lhs rhs => inferInstanceAs (Decidable (lhs.type.Mixes rhs.type))
  | .normalize _ => inferInstanceAs (Decidable (_ = _))
  | .line .. => inferInstanceAs (Decidable (_ ∧ _))
  | .circle .. => inferInstanceAs (Decidable (_ ∧ _))
  | .lattice .. => inferInstanceAs (Decidable (_ ∧ _))

/-- Every node has operands of the types that its evaluation asks for. -/
def WellTyped (e : Expression) : Prop := ∀ node ∈ e.nodes, node.OperandsFit

instance (e : Expression) : Decidable e.WellTyped :=
  inferInstanceAs (Decidable (∀ node ∈ e.nodes, node.OperandsFit))

/-- Somewhere an integer is divided by an operand whose value is zero. -/
def HasZeroDivisor (particle : Particle) (e : Expression) : Prop :=
  ∃ op lhs rhs, .binary op lhs rhs ∈ e.nodes ∧ (op = .divide ∨ op = .modulus) ∧
    (binary op lhs rhs).type = .uint32 ∧ rhs.evaluate particle = .ok (.uint 0)

end Expression

namespace Particle

/-- If the node reads an attribute or a parameter, it finds a value of its own type. -/
def SuppliesNode (particle : Particle) : Expression → Prop
  | .attr which => (particle.attribute? which).map Value.type = some which.type
  | .parameter name type => (particle.parameter? name).map Value.type = some type
  | _ => True

instance (particle : Particle) : DecidablePred particle.SuppliesNode
  | .constant _ => isTrue trivial
  | .attr _ => inferInstanceAs (Decidable (_ = _))
  | .parameter _ _ => inferInstanceAs (Decidable (_ = _))
  | .binary .. => isTrue trivial
  | .normalize _ => isTrue trivial
  | .line .. => isTrue trivial
  | .circle .. => isTrue trivial
  | .lattice .. => isTrue trivial

/-- Every attribute and every parameter in an expression has a value, of the type of its node. -/
def Supplies (particle : Particle) (e : Expression) : Prop :=
  ∀ node ∈ e.nodes, particle.SuppliesNode node

instance (particle : Particle) (e : Expression) : Decidable (particle.Supplies e) :=
  inferInstanceAs (Decidable (∀ node ∈ e.nodes, particle.SuppliesNode node))

end Particle

/-! ## Nodes by operands -/

namespace Expression

theorem nodes_eq (e : Expression) : e.nodes = e :: e.operands.flatMap nodes := by
  cases e <;> simp [nodes, operands]

theorem self_mem_nodes (e : Expression) : e ∈ e.nodes := by
  rw [nodes_eq]
  exact List.mem_cons_self

theorem mem_nodes_of_operand {e operand node : Expression} (ho : operand ∈ e.operands)
    (hn : node ∈ operand.nodes) : node ∈ e.nodes := by
  rw [nodes_eq]
  have hbelow : node ∈ e.operands.flatMap nodes := List.mem_flatMap.mpr ⟨operand, ho, hn⟩
  exact List.mem_cons_of_mem _ hbelow

/-- A node of an expression is the root or a node of an operand. -/
theorem eq_or_exists_operand_of_mem_nodes {e node : Expression} (hn : node ∈ e.nodes) :
    node = e ∨ ∃ operand ∈ e.operands, node ∈ operand.nodes := by
  rw [nodes_eq] at hn
  rcases List.mem_cons.mp hn with hself | hbelow
  · exact .inl hself
  · exact .inr (List.mem_flatMap.mp hbelow)

/-- A condition on all nodes is one on the root and one on all nodes of each operand. -/
theorem forall_nodes_iff {e : Expression} {p : Expression → Prop} :
    (∀ node ∈ e.nodes, p node) ↔ p e ∧ ∀ operand ∈ e.operands, ∀ node ∈ operand.nodes, p node := by
  constructor
  · intro h
    refine ⟨h e (self_mem_nodes e), ?_⟩
    intro operand ho node hn
    exact h node (mem_nodes_of_operand ho hn)
  · rintro ⟨hself, hbelow⟩ node hn
    rcases eq_or_exists_operand_of_mem_nodes hn with rfl | ⟨operand, ho, hn⟩
    · exact hself
    · exact hbelow operand ho node hn

theorem wellTyped_iff {e : Expression} :
    e.WellTyped ↔ e.OperandsFit ∧ ∀ operand ∈ e.operands, operand.WellTyped :=
  forall_nodes_iff

theorem HasZeroDivisor.of_operand {particle : Particle} {e operand : Expression}
    (ho : operand ∈ e.operands) (h : operand.HasZeroDivisor particle) :
    e.HasZeroDivisor particle := by
  obtain ⟨op, lhs, rhs, hn, hop, ht, hz⟩ := h
  exact ⟨op, lhs, rhs, mem_nodes_of_operand ho hn, hop, ht, hz⟩

/-- Induction with one hypothesis for all operands, whatever the kind of the node. -/
theorem induction_on_operands {motive : Expression → Prop}
    (step : ∀ e, (∀ operand ∈ e.operands, motive operand) → motive e) (e : Expression) :
    motive e := by
  induction e with
  | constant value => exact step _ (by simp [operands])
  | attr which => exact step _ (by simp [operands])
  | parameter name type => exact step _ (by simp [operands])
  | binary op lhs rhs hl hr => exact step _ (by simp [operands, hl, hr])
  | normalize operand h => exact step _ (by simp [operands, h])
  | line _ _ _ _ hs hf hi hc => exact step _ (by simp [operands, hs, hf, hi, hc])
  | circle _ _ _ _ _ _ hc hr hn hu hi hk =>
    exact step _ (by simp [operands, hc, hr, hn, hu, hi, hk])
  | lattice _ _ _ _ _ _ _ _ ho hx hy hz hi hcx hcy hcz =>
    exact step _ (by simp [operands, ho, hx, hy, hz, hi, hcx, hcy, hcz])

end Expression

/-! ## What evaluation asks of single values -/

namespace Value

variable {site : Site} {value v : Value}

@[simp] theorem toUint_eq_ok {n : UInt32} : value.toUint site = .ok n ↔ value = .uint n := by
  cases value <;> simp [toUint]

@[simp] theorem toFloat_eq_ok {x : Float32} : value.toFloat site = .ok x ↔ value = .float x := by
  cases value <;> simp [toFloat]

@[simp] theorem toFloat3_eq_ok {w : Vec3} : value.toFloat3 site = .ok w ↔ value = .float3 w := by
  cases value <;> simp [toFloat3]

@[simp] theorem ofType_eq_ok {expected : ValueType} :
    value.ofType site expected = .ok v ↔ value.type = expected ∧ value = v := by
  by_cases h : value.type = expected <;> simp [ofType, h]

theorem exists_uint (h : value.type = .uint32) : ∃ n, value = .uint n := by
  cases value <;> simp_all [type]

theorem exists_float (h : value.type = .float) : ∃ x, value = .float x := by
  cases value <;> simp_all [type]

theorem exists_float3 (h : value.type = .float3) : ∃ w, value = .float3 w := by
  cases value <;> simp_all [type]

end Value

namespace Operator

/-- An operation that succeeds was given types that mix, and gives the promoted type. -/
theorem types_of_apply {op : Operator} {a b v : Value} (h : op.apply a b = .ok v) :
    a.type.Mixes b.type ∧ v.type = a.type.promote b.type := by
  cases a <;> cases b <;> simp only [apply, map_eq_ok, Except.ok.injEq, reduceCtorEq] at h
  case uint.uint =>
    obtain ⟨n, -, rfl⟩ := h
    simp [Value.type, ValueType.Mixes, ValueType.promote]
  -- numbers and vectors, in any pairing; a mix with an integer did not succeed
  all_goals subst h; simp [Value.type, ValueType.Mixes, ValueType.promote]

/-- An operation on integers succeeds unless it divides by zero. -/
theorem onUint_cases (op : Operator) (a b : UInt32) :
    (∃ n, op.onUint a b = .ok n) ∨
      op.onUint a b = .error .divisionByZero ∧ (op = .divide ∨ op = .modulus) ∧ b = 0 := by
  cases op <;> by_cases hb : b = 0 <;> simp [onUint, hb]

/-- An operation on types that mix succeeds unless it divides an integer by zero. -/
theorem apply_cases (op : Operator) {a b : Value} (h : a.type.Mixes b.type) :
    (∃ v, op.apply a b = .ok v) ∨
      op.apply a b = .error .divisionByZero ∧ (op = .divide ∨ op = .modulus) ∧
        a.type = .uint32 ∧ b = .uint 0 := by
  cases a <;> cases b <;> simp [ValueType.Mixes, Value.type] at h
  case uint.uint n m =>
    rcases onUint_cases op n m with ⟨k, hk⟩ | ⟨hk, hop, rfl⟩
    · exact .inl ⟨.uint k, by simp [apply, hk]⟩
    · exact .inr ⟨by simp [apply, hk], hop, rfl, rfl⟩
  -- operations on numbers and vectors are total
  all_goals exact .inl ⟨_, rfl⟩

end Operator

/-! ## What the evaluation of each kind of node comes to -/

namespace Expression

variable {particle : Particle} {v : Value}

attribute [local simp] evaluate

theorem evaluate_attr {which : Attribute} :
    (attr which).evaluate particle = .ok v ↔
      particle.attribute? which = some v ∧ v.type = which.type := by
  cases h : particle.attribute? which with
  | none => simp [h]
  | some w =>
    simp only [evaluate, h, Value.ofType_eq_ok, Option.some.injEq]
    constructor
    · rintro ⟨ht, rfl⟩; exact ⟨rfl, ht⟩
    · rintro ⟨rfl, ht⟩; exact ⟨ht, rfl⟩

theorem evaluate_parameter {name : String} {type : ValueType} :
    (parameter name type).evaluate particle = .ok v ↔
      particle.parameter? name = some v ∧ v.type = type := by
  cases h : particle.parameter? name with
  | none => simp [h]
  | some w =>
    simp only [evaluate, h, Value.ofType_eq_ok, Option.some.injEq]
    constructor
    · rintro ⟨ht, rfl⟩; exact ⟨rfl, ht⟩
    · rintro ⟨rfl, ht⟩; exact ⟨ht, rfl⟩

theorem evaluate_binary {op : Operator} {lhs rhs : Expression} :
    (binary op lhs rhs).evaluate particle = .ok v ↔
      ∃ a b, lhs.evaluate particle = .ok a ∧ rhs.evaluate particle = .ok b ∧
        op.apply a b = .ok v := by
  simp only [evaluate, bind_eq_ok]
  constructor
  · rintro ⟨a, ha, b, hb, h⟩; exact ⟨a, b, ha, hb, h⟩
  · rintro ⟨a, b, ha, hb, h⟩; exact ⟨a, ha, b, hb, h⟩

theorem evaluate_normalize {operand : Expression} :
    operand.normalize.evaluate particle = .ok v ↔
      ∃ w, operand.evaluate particle = .ok (.float3 w) ∧ v = .float3 w.normalized := by
  simp only [evaluate, bind_eq_ok, pure_eq_ok, Value.toFloat3_eq_ok]
  constructor
  · rintro ⟨_, h, w, rfl, rfl⟩; exact ⟨w, h, rfl⟩
  · rintro ⟨w, h, rfl⟩; exact ⟨_, h, w, rfl, rfl⟩

theorem evaluate_line {start finish index count : Expression} :
    (line start finish index count).evaluate particle = .ok v ↔
      ∃ a b i n, start.evaluate particle = .ok (.float3 a) ∧
        finish.evaluate particle = .ok (.float3 b) ∧ index.evaluate particle = .ok (.uint i) ∧
        count.evaluate particle = .ok (.uint n) ∧ v = .float3 (Placement.line a b i n) := by
  simp only [evaluate, bind_eq_ok, pure_eq_ok, Value.toFloat3_eq_ok, Value.toUint_eq_ok]
  constructor
  · rintro ⟨_, ha, a, rfl, _, hb, b, rfl, _, hi, i, rfl, _, hn, n, rfl, rfl⟩
    exact ⟨a, b, i, n, ha, hb, hi, hn, rfl⟩
  · rintro ⟨a, b, i, n, ha, hb, hi, hn, rfl⟩
    exact ⟨_, ha, a, rfl, _, hb, b, rfl, _, hi, i, rfl, _, hn, n, rfl, rfl⟩

theorem evaluate_circle {center radius normal up index count : Expression} :
    (circle center radius normal up index count).evaluate particle = .ok v ↔
      ∃ c r z y i n, center.evaluate particle = .ok (.float3 c) ∧
        radius.evaluate particle = .ok (.float r) ∧ normal.evaluate particle = .ok (.float3 z) ∧
        up.evaluate particle = .ok (.float3 y) ∧ index.evaluate particle = .ok (.uint i) ∧
        count.evaluate particle = .ok (.uint n) ∧ v = .float3 (Placement.circle c r z y i n) := by
  simp only [evaluate, bind_eq_ok, pure_eq_ok, Value.toFloat3_eq_ok, Value.toFloat_eq_ok,
    Value.toUint_eq_ok]
  constructor
  · rintro ⟨_, hc, c, rfl, _, hr, r, rfl, _, hz, z, rfl, _, hy, y, rfl, _, hi, i, rfl, _, hn, n,
      rfl, rfl⟩
    exact ⟨c, r, z, y, i, n, hc, hr, hz, hy, hi, hn, rfl⟩
  · rintro ⟨c, r, z, y, i, n, hc, hr, hz, hy, hi, hn, rfl⟩
    exact ⟨_, hc, c, rfl, _, hr, r, rfl, _, hz, z, rfl, _, hy, y, rfl, _, hi, i, rfl, _, hn, n,
      rfl, rfl⟩

theorem evaluate_lattice {origin axisX axisY axisZ index countX countY countZ : Expression} :
    (lattice origin axisX axisY axisZ index countX countY countZ).evaluate particle = .ok v ↔
      ∃ o x y z i k m n, origin.evaluate particle = .ok (.float3 o) ∧
        axisX.evaluate particle = .ok (.float3 x) ∧ axisY.evaluate particle = .ok (.float3 y) ∧
        axisZ.evaluate particle = .ok (.float3 z) ∧ index.evaluate particle = .ok (.uint i) ∧
        countX.evaluate particle = .ok (.uint k) ∧ countY.evaluate particle = .ok (.uint m) ∧
        countZ.evaluate particle = .ok (.uint n) ∧
        v = .float3 (Placement.lattice o x y z i k m n) := by
  simp only [evaluate, bind_eq_ok, pure_eq_ok, Value.toFloat3_eq_ok, Value.toUint_eq_ok]
  constructor
  · rintro ⟨_, ho, o, rfl, _, hx, x, rfl, _, hy, y, rfl, _, hz, z, rfl, _, hi, i, rfl, _, hk, k, rfl,
      _, hm, m, rfl, _, hn, n, rfl, rfl⟩
    exact ⟨o, x, y, z, i, k, m, n, ho, hx, hy, hz, hi, hk, hm, hn, rfl⟩
  · rintro ⟨o, x, y, z, i, k, m, n, ho, hx, hy, hz, hi, hk, hm, hn, rfl⟩
    exact ⟨_, ho, o, rfl, _, hx, x, rfl, _, hy, y, rfl, _, hz, z, rfl, _, hi, i, rfl, _, hk, k, rfl,
      _, hm, m, rfl, _, hn, n, rfl, rfl⟩

/-- An expression has a value only if all its operands have one. -/
theorem evaluate_operands {e : Expression} (h : e.evaluate particle = .ok v) :
    ∀ operand ∈ e.operands, ∃ w, operand.evaluate particle = .ok w := by
  cases e with
  | constant value => simp [operands]
  | attr which => simp [operands]
  | parameter name type => simp [operands]
  | binary op lhs rhs =>
    obtain ⟨a, b, ha, hb, -⟩ := evaluate_binary.mp h
    simp [operands, ha, hb]
  | normalize operand =>
    obtain ⟨w, hw, -⟩ := evaluate_normalize.mp h
    simp [operands, hw]
  | line start finish index count =>
    obtain ⟨a, b, i, n, ha, hb, hi, hn, -⟩ := evaluate_line.mp h
    simp [operands, ha, hb, hi, hn]
  | circle center radius normal up index count =>
    obtain ⟨c, r, z, y, i, n, hc, hr, hz, hy, hi, hn, -⟩ := evaluate_circle.mp h
    simp [operands, hc, hr, hz, hy, hi, hn]
  | lattice origin axisX axisY axisZ index countX countY countZ =>
    obtain ⟨o, x, y, z, i, k, m, n, ho, hx, hy, hz, hi, hk, hm, hn, -⟩ := evaluate_lattice.mp h
    simp [operands, ho, hx, hy, hz, hi, hk, hm, hn]

/-! ## Soundness -/

/-- If the values of the operands have the types of the operands, then these types fit, and the
    value of the node has the type of the node. -/
theorem operandsFit_of_evaluate {e : Expression} (h : e.evaluate particle = .ok v)
    (ho : ∀ operand ∈ e.operands, ∀ w, operand.evaluate particle = .ok w → w.type = operand.type) :
    v.type = e.type ∧ e.OperandsFit := by
  cases e with
  | constant value => cases h; exact ⟨rfl, trivial⟩
  | attr which => exact ⟨(evaluate_attr.mp h).2, trivial⟩
  | parameter name type => exact ⟨(evaluate_parameter.mp h).2, trivial⟩
  | binary op lhs rhs =>
    obtain ⟨a, b, ha, hb, hv⟩ := evaluate_binary.mp h
    simp only [operands, List.forall_mem_cons] at ho
    have hta : a.type = lhs.type := ho.1 a ha
    have htb : b.type = rhs.type := ho.2.1 b hb
    obtain ⟨hmix, htype⟩ := Operator.types_of_apply hv
    show v.type = lhs.type.promote rhs.type ∧ lhs.type.Mixes rhs.type
    rw [← hta, ← htb]
    exact ⟨htype, hmix⟩
  | normalize operand =>
    obtain ⟨w, hw, rfl⟩ := evaluate_normalize.mp h
    have htw : ValueType.float3 = operand.type := ho operand (by simp [operands]) _ hw
    exact ⟨rfl, htw.symm⟩
  | line start finish index count =>
    obtain ⟨a, b, i, n, ha, hb, hi, hn, rfl⟩ := evaluate_line.mp h
    simp only [operands, List.forall_mem_cons] at ho
    obtain ⟨ta, tb, ti, tn, -⟩ := ho
    exact ⟨rfl, (ta _ ha).symm, (tb _ hb).symm, (ti _ hi).symm, (tn _ hn).symm⟩
  | circle center radius normal up index count =>
    obtain ⟨c, r, z, y, i, n, hc, hr, hz, hy, hi, hn, rfl⟩ := evaluate_circle.mp h
    simp only [operands, List.forall_mem_cons] at ho
    obtain ⟨tc, tr, tz, ty, ti, tn, -⟩ := ho
    exact ⟨rfl, (tc _ hc).symm, (tr _ hr).symm, (tz _ hz).symm, (ty _ hy).symm, (ti _ hi).symm,
      (tn _ hn).symm⟩
  | lattice origin axisX axisY axisZ index countX countY countZ =>
    obtain ⟨o, x, y, z, i, k, m, n, horigin, hx, hy, hz, hi, hk, hm, hn, rfl⟩ :=
      evaluate_lattice.mp h
    simp only [operands, List.forall_mem_cons] at ho
    obtain ⟨torigin, tx, ty, tz, ti, tk, tm, tn, -⟩ := ho
    exact ⟨rfl, (torigin _ horigin).symm, (tx _ hx).symm, (ty _ hy).symm, (tz _ hz).symm,
      (ti _ hi).symm, (tk _ hk).symm, (tm _ hm).symm, (tn _ hn).symm⟩

/-- The value of an expression has the type of the expression. -/
theorem type_of_evaluate {e : Expression} (h : e.evaluate particle = .ok v) : v.type = e.type := by
  induction e using induction_on_operands generalizing v with
  | step e ih =>
    have hoperands : ∀ operand ∈ e.operands, ∀ w, operand.evaluate particle = .ok w →
        w.type = operand.type := by
      intro operand ho w hw
      exact ih operand ho hw
    exact (operandsFit_of_evaluate h hoperands).1

/-- An expression with a value is well-typed. -/
theorem wellTyped_of_evaluate {e : Expression} (h : e.evaluate particle = .ok v) : e.WellTyped := by
  induction e using induction_on_operands generalizing v with
  | step e ih =>
    have hfit : e.OperandsFit :=
      (operandsFit_of_evaluate h fun _ _ _ hw => type_of_evaluate hw).2
    refine wellTyped_iff.mpr ⟨hfit, ?_⟩
    intro operand ho
    obtain ⟨w, hw⟩ := evaluate_operands h operand ho
    exact ih operand ho hw

/-- An expression with a value is supplied with everything that it reads. -/
theorem supplies_of_evaluate {e : Expression} (h : e.evaluate particle = .ok v) :
    particle.Supplies e := by
  induction e using induction_on_operands generalizing v with
  | step e ih =>
    refine forall_nodes_iff.mpr ⟨?_, ?_⟩
    · cases e with
      | attr which =>
        obtain ⟨hv, ht⟩ := evaluate_attr.mp h
        show (particle.attribute? which).map Value.type = some which.type
        rw [hv, Option.map_some, ht]
      | parameter name type =>
        obtain ⟨hv, ht⟩ := evaluate_parameter.mp h
        show (particle.parameter? name).map Value.type = some type
        rw [hv, Option.map_some, ht]
      | _ => trivial
    · intro operand ho
      obtain ⟨w, hw⟩ := evaluate_operands h operand ho
      exact ih operand ho hw

/-! ## Operands in order

The operands of a node are evaluated one after another, and each is checked as soon as it has a value.
Where the operands fit, no check fails, so the node is the sequence of its operands and a last step that
puts their values together. What carries over each operand therefore holds of the node. -/

/-- What holds after an operand, whatever its value, holds of the sequence with the operand in front. -/
def CarriesOver (particle : Particle) (motive : List Expression → Evaluated Value → Prop)
    (operand : Expression) : Prop :=
  ∀ rest (next : Value → Evaluated Value),
    (∀ v, operand.evaluate particle = .ok v → motive rest (next v)) →
      motive (operand :: rest) (operand.evaluate particle >>= next)

namespace CarriesOver

variable {motive : List Expression → Evaluated Value → Prop} {operand : Expression} {site : Site}
  {rest : List Expression}

/-- An operand that has to be an integer, and is of that type, passes its check. -/
theorem uint {next : UInt32 → Evaluated Value} (h : CarriesOver particle motive operand)
    (ht : operand.type = .uint32) (hn : ∀ n, motive rest (next n)) :
    motive (operand :: rest) (operand.evaluate particle >>= fun value =>
      value.toUint site >>= next) := by
  refine h rest _ fun value hv => ?_
  have htype : value.type = .uint32 := (type_of_evaluate hv).trans ht
  obtain ⟨n, rfl⟩ := Value.exists_uint htype
  exact hn n

theorem float {next : Float32 → Evaluated Value} (h : CarriesOver particle motive operand)
    (ht : operand.type = .float) (hn : ∀ x, motive rest (next x)) :
    motive (operand :: rest) (operand.evaluate particle >>= fun value =>
      value.toFloat site >>= next) := by
  refine h rest _ fun value hv => ?_
  have htype : value.type = .float := (type_of_evaluate hv).trans ht
  obtain ⟨x, rfl⟩ := Value.exists_float htype
  exact hn x

theorem float3 {next : Vec3 → Evaluated Value} (h : CarriesOver particle motive operand)
    (ht : operand.type = .float3) (hn : ∀ w, motive rest (next w)) :
    motive (operand :: rest) (operand.evaluate particle >>= fun value =>
      value.toFloat3 site >>= next) := by
  refine h rest _ fun value hv => ?_
  have htype : value.type = .float3 := (type_of_evaluate hv).trans ht
  obtain ⟨w, rfl⟩ := Value.exists_float3 htype
  exact hn w

end CarriesOver

/-- **What carries over the operands holds of a node that has some**, provided that it holds of an
    operation on two values whose types mix, and of any value at the end. -/
theorem evaluate_in_order {e : Expression} {motive : List Expression → Evaluated Value → Prop}
    (hinner : e.operands ≠ []) (hfit : e.OperandsFit)
    (hcarry : ∀ operand ∈ e.operands, CarriesOver particle motive operand)
    (happly : ∀ op lhs rhs a b, e = .binary op lhs rhs → lhs.evaluate particle = .ok a →
      rhs.evaluate particle = .ok b → a.type.Mixes b.type → motive [] (op.apply a b))
    (hvalue : ∀ v, motive [] (.ok v)) : motive e.operands (e.evaluate particle) := by
  cases e with
  | constant value => exact absurd rfl hinner
  | attr which => exact absurd rfl hinner
  | parameter name type => exact absurd rfl hinner
  | binary op lhs rhs =>
    simp only [operands, List.forall_mem_cons] at hcarry
    obtain ⟨hl, hr, -⟩ := hcarry
    refine hl [rhs] _ fun a ha => ?_
    refine hr [] _ fun b hb => ?_
    have hmix : a.type.Mixes b.type := by
      rw [type_of_evaluate ha, type_of_evaluate hb]
      exact hfit
    exact happly op lhs rhs a b rfl ha hb hmix
  | normalize operand =>
    have hoperand := hcarry operand (by simp [operands])
    exact hoperand.float3 hfit fun w => hvalue _
  | line start finish index count =>
    simp only [operands, List.forall_mem_cons] at hcarry
    obtain ⟨hs, hf, hi, hc, -⟩ := hcarry
    obtain ⟨ts, tf, ti, tc⟩ := hfit
    refine hs.float3 ts fun a => ?_
    refine hf.float3 tf fun b => ?_
    refine hi.uint ti fun i => ?_
    exact hc.uint tc fun n => hvalue _
  | circle center radius normal up index count =>
    simp only [operands, List.forall_mem_cons] at hcarry
    obtain ⟨hc, hr, hz, hy, hi, hn, -⟩ := hcarry
    obtain ⟨tc, tr, tz, ty, ti, tn⟩ := hfit
    refine hc.float3 tc fun c => ?_
    refine hr.float tr fun r => ?_
    refine hz.float3 tz fun z => ?_
    refine hy.float3 ty fun y => ?_
    refine hi.uint ti fun i => ?_
    exact hn.uint tn fun n => hvalue _
  | lattice origin axisX axisY axisZ index countX countY countZ =>
    simp only [operands, List.forall_mem_cons] at hcarry
    obtain ⟨ho, hx, hy, hz, hi, hk, hm, hn, -⟩ := hcarry
    obtain ⟨torigin, tx, ty, tz, ti, tk, tm, tn⟩ := hfit
    refine ho.float3 torigin fun o => ?_
    refine hx.float3 tx fun x => ?_
    refine hy.float3 ty fun y => ?_
    refine hz.float3 tz fun z => ?_
    refine hi.uint ti fun i => ?_
    refine hk.uint tk fun k => ?_
    refine hm.uint tm fun m => ?_
    exact hn.uint tn fun n => hvalue _

/-- A node without operands has a value if it is supplied. -/
theorem exists_evaluate_of_leaf {e : Expression} (hleaf : e.operands = [])
    (hs : particle.SuppliesNode e) : ∃ v, e.evaluate particle = .ok v := by
  cases e with
  | constant value => exact ⟨value, rfl⟩
  | attr which =>
    obtain ⟨v, hv⟩ := Option.map_eq_some_iff.mp hs
    exact ⟨v, evaluate_attr.mpr hv⟩
  | parameter name type =>
    obtain ⟨v, hv⟩ := Option.map_eq_some_iff.mp hs
    exact ⟨v, evaluate_parameter.mpr hv⟩
  | _ => simp [operands] at hleaf

/-! ## Progress -/

/-- There is a value, or an integer was divided by zero and there is a cause for that. -/
def Settles {α : Type} (cause : Prop) (outcome : Evaluated α) : Prop :=
  (∃ a, outcome = .ok a) ∨ outcome = .error .divisionByZero ∧ cause

namespace Settles

variable {α β : Type} {cause cause' : Prop}

theorem of_ok {outcome : Evaluated α} {a : α} (h : outcome = .ok a) : Settles cause outcome :=
  .inl ⟨a, h⟩

theorem mono {outcome : Evaluated α} (h : Settles cause outcome) (hc : cause → cause') :
    Settles cause' outcome :=
  h.imp_right fun ⟨he, hz⟩ => ⟨he, hc hz⟩

theorem bind {first : Evaluated α} {next : α → Evaluated β} (h : Settles cause first)
    (hn : ∀ a, first = .ok a → Settles cause (next a)) : Settles cause (first >>= next) := by
  rcases h with ⟨a, ha⟩ | ⟨he, hz⟩
  · rw [ha]
    exact hn a ha
  · -- the rest is never reached
    refine .inr ⟨?_, hz⟩
    rw [he]; rfl

end Settles

/-- A well-typed expression that is supplied with what it reads has a value or divides by zero. -/
theorem settles_evaluate {e : Expression} (hw : e.WellTyped) (hs : particle.Supplies e) :
    Settles (e.HasZeroDivisor particle) (e.evaluate particle) := by
  induction e using induction_on_operands with
  | step e ih =>
    obtain ⟨hfit, hws⟩ := wellTyped_iff.mp hw
    obtain ⟨hself, hss⟩ := forall_nodes_iff.mp hs
    by_cases hleaf : e.operands = []
    · exact .inl (exists_evaluate_of_leaf hleaf hself)
    refine evaluate_in_order
      (motive := fun _ outcome => Settles (e.HasZeroDivisor particle) outcome) hleaf hfit ?operands
      ?operation fun v => .of_ok rfl
    case operands =>
      intro operand ho rest next hn
      have hsettles := ih operand ho (hws operand ho) (hss operand ho)
      -- a cause within an operand is one within the whole expression
      exact (hsettles.mono fun hz => hz.of_operand ho).bind hn
    case operation =>
      rintro op lhs rhs a b rfl ha hb hmix
      rcases op.apply_cases hmix with hv | ⟨he, hop, huint, rfl⟩
      · exact .inl hv
      · -- this very node is the division by zero
        have htype : (binary op lhs rhs).type = .uint32 := by
          show lhs.type.promote rhs.type = .uint32
          rw [← type_of_evaluate ha, ← type_of_evaluate hb, huint]; rfl
        exact .inr ⟨he, op, lhs, rhs, self_mem_nodes _, hop, htype, hb⟩

/-! ## Agreement -/

/-- **Typing agrees with evaluation.** A value is only ever had by a well-typed expression and is of
    its type; and a well-typed expression that is supplied with what it reads either has a value or
    ends in a division by zero, which some integer division in it accounts for. -/
theorem typing_agrees_with_evaluation (e : Expression) (particle : Particle) :
    (∀ v, e.evaluate particle = .ok v → v.type = e.type ∧ e.WellTyped) ∧
    (e.WellTyped → particle.Supplies e →
      (∃ v, e.evaluate particle = .ok v) ∨
        e.evaluate particle = .error .divisionByZero ∧ e.HasZeroDivisor particle) := by
  refine ⟨?_, settles_evaluate⟩
  intro v h
  exact ⟨type_of_evaluate h, wellTyped_of_evaluate h⟩

/-- The identifier of a particle reduced by a count that is exposed as a parameter. -/
def reducedIndex : Expression := .binary .modulus (.attr .particleId) (.parameter "count" .uint32)

/-- The particle with identifier 7, for a value of the count. -/
def seventh (count : UInt32) : Particle :=
  (Particle.empty.withAttribute .particleId (.uint 7)).withParameter "count" (.uint count)

/-- The reduced index is well-typed since it has a value for the count 4, and so it comes to a
    division by zero where it has none, for the count 0. -/
theorem reducedIndex_typing :
    reducedIndex.evaluate (seventh 4) = .ok (.uint 3) ∧
      (Value.uint 3).type = reducedIndex.type ∧ reducedIndex.WellTyped ∧
      (seventh 0).Supplies reducedIndex ∧
      reducedIndex.evaluate (seventh 0) = .error .divisionByZero ∧
      reducedIndex.HasZeroDivisor (seventh 0) := by
  obtain ⟨sound, -⟩ := typing_agrees_with_evaluation reducedIndex (seventh 4)
  obtain ⟨-, progress⟩ := typing_agrees_with_evaluation reducedIndex (seventh 0)
  have hvalue : reducedIndex.evaluate (seventh 4) = .ok (.uint 3) := rfl
  obtain ⟨htype, hwell⟩ := sound _ hvalue
  have hsupplies : (seventh 0).Supplies reducedIndex := by decide
  have hnone : ¬ ∃ v, reducedIndex.evaluate (seventh 0) = .ok v := fun ⟨_, hv⟩ => nomatch hv
  exact ⟨hvalue, htype, hwell, hsupplies, (progress hwell hsupplies).resolve_left hnone⟩

/-- A mix of an integer and a number has a type by promotion, but is not well-typed. -/
example : (binary .add (.constant (.uint 1)) (.constant (.float 1))).type = .float ∧
    ¬ (binary .add (.constant (.uint 1)) (.constant (.float 1))).WellTyped := by decide

end Expression
end EffectGraph
