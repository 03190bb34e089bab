import EffectGraph.Proofs.Faults

/-!
# `Proofs.Wrapping` — integer arithmetic may be reduced once, at the end

Evaluation reduces every sum, difference and product to 32 bits as soon as it has it. Reduction respects
these three operations (`onUint_ofInt`), so the result is the one that the same tree has over the unbounded
integers, reduced once: whatever a node in between loses, be it a borrow below zero or the upper half of a
product, was going to be lost anyway.

Division does not respect reduction. What is left of the statement where integers are divided is whether
there is a value: there is one unless a divisor comes to zero, and it is the reduced divisor that counts.
A divisor may come to zero without being zero (`divisor_eq_zero_iff`).

## Contents
- `reckon`, the value of a tree by what leaves and operations stand for, and `unbounded`.
- `ArithmeticOver`, trees of operations on leaves of given types, with their induction.
- `evaluate_eq_unbounded` without divisions, `divisionByZero_iff` and `divisor_eq_zero_iff` with them.
-/

namespace EffectGraph

open Outcome

/-! ## Arithmetic over the unbounded integers -/

/-- An operation on unbounded integers. -/
def Operator.onInt (op : Operator) (a b : Int) : Int :=
  match op with
  | .add => a + b
  | .subtract => a - b
  | .multiply => a * b
  | .divide => a / b
  | .modulus => a % b

/-- What a leaf of an expression stands for: the constant, or what is known under its name. -/
def Particle.read? (particle : Particle) : Expression → Option Value
  | .constant value => some value
  | .attr which => particle.attribute? which
  | .parameter name _ => particle.parameter? name
  | _ => none

namespace Expression

/-- What an arithmetic tree comes to, given what its leaves and its operations stand for. -/
def reckon {α : Type} (leaf : Expression → α) (operate : Operator → α → α → α) : Expression → α
  | .binary op lhs rhs => operate op (lhs.reckon leaf operate) (rhs.reckon leaf operate)
  | e => leaf e

/-- The value of an integer expression, were there no bound on integers. -/
def unbounded (particle : Particle) (e : Expression) : Int :=
  e.reckon (fun leaf => ((particle.read? leaf).bind Value.asUint?).elim 0 fun n => n.toNat)
    Operator.onInt

/-- The node is an operation, or a leaf of one of the types. -/
def IsArithmetic (types : List ValueType) : Expression → Prop
  | .constant value => value.type ∈ types
  | .attr which => which.type ∈ types
  | .parameter _ type => type ∈ types
  | .binary .. => True
  | _ => False

instance (types : List ValueType) : DecidablePred (IsArithmetic types)
  | .constant _ => inferInstanceAs (Decidable (_ ∈ types))
  | .attr _ => inferInstanceAs (Decidable (_ ∈ types))
  | .parameter _ _ => inferInstanceAs (Decidable (_ ∈ types))
  | .binary .. => isTrue trivial
  | .normalize _ => isFalse id
  | .line .. => isFalse id
  | .circle .. => isFalse id
  | .lattice .. => isFalse id

/-- The expression is built by operations alone, from leaves of the types. -/
def ArithmeticOver (types : List ValueType) (e : Expression) : Prop :=
  ∀ node ∈ e.nodes, node.IsArithmetic types

instance (types : List ValueType) (e : Expression) : Decidable (e.ArithmeticOver types) :=
  inferInstanceAs (Decidable (∀ node ∈ e.nodes, node.IsArithmetic types))

end Expression

/-! ## Reduction respects sums, differences and products -/

theorem toNat_ofInt (z : Int) : ((UInt32.ofInt z).toNat : Int) = z % UInt32.size := by
  have hnonneg : 0 ≤ z % UInt32.size := Int.emod_nonneg z (by decide)
  simp only [UInt32.ofInt, UInt32.toNat_ofNat', UInt32.size] at *
  omega

theorem ofInt_toNat (n : UInt32) : UInt32.ofInt n.toNat = n := by
  apply UInt32.toNat_inj.mp
  have hlt : n.toNat < UInt32.size := n.toNat_lt
  have hreduced := toNat_ofInt n.toNat
  simp only [UInt32.size] at *
  omega

namespace Operator

variable {op : Operator}

/-- **Reduction is a homomorphism**: an operation on reduced integers is the operation on the integers,
    reduced. Division is not among the operations for which this is so. -/
theorem onUint_ofInt (hop : ¬ (op = .divide ∨ op = .modulus)) (a b : Int) :
    op.onUint (.ofInt a) (.ofInt b) = .ok (.ofInt (op.onInt a b)) := by
  cases op with
  | add => rw [onInt, UInt32.ofInt_add]; rfl
  | subtract =>
    rw [onInt, Int.sub_eq_add_neg, UInt32.ofInt_add, UInt32.ofInt_neg, ← UInt32.sub_eq_add_neg]
    rfl
  | multiply => rw [onInt, UInt32.ofInt_mul]; rfl
  | divide => exact absurd (.inl rfl) hop
  | modulus => exact absurd (.inr rfl) hop

/-- Nothing is divided by the integer zero. -/
theorem apply_zero_ne_ok (hop : op = .divide ∨ op = .modulus) (a v : Value) :
    op.apply a (.uint 0) ≠ .ok v := by
  intro h
  cases a with
  | uint n => rcases hop with rfl | rfl <;> simp [apply, onUint] at h
  | float x => simp [apply] at h
  | float3 w => simp [apply] at h

end Operator

namespace Expression

variable {particle : Particle} {e : Expression}

/-! ## Arithmetic trees -/

theorem reckon_leaf {α : Type} {leaf : Expression → α} {operate : Operator → α → α → α}
    (hleaf : e.operands = []) : e.reckon leaf operate = leaf e := by
  cases e with
  | binary op lhs rhs => simp [operands] at hleaf
  | _ => rfl

theorem IsArithmetic.type_mem {types : List ValueType} (h : e.IsArithmetic types)
    (hleaf : e.operands = []) : e.type ∈ types := by
  cases e with
  | constant value => exact h
  | attr which => exact h
  | parameter name type => exact h
  | _ => simp [operands] at hleaf

theorem operandsFit_of_leaf (hleaf : e.operands = []) : e.OperandsFit := by
  cases e with
  | constant value => trivial
  | attr which => trivial
  | parameter name type => trivial
  | _ => simp [operands] at hleaf

theorem arithmeticOver_binary {types : List ValueType} {op : Operator} {lhs rhs : Expression} :
    (binary op lhs rhs).ArithmeticOver types ↔ lhs.ArithmeticOver types ∧ rhs.ArithmeticOver types := by
  have hself : (binary op lhs rhs).IsArithmetic types := trivial
  refine forall_nodes_iff.trans ?_
  simp [operands, hself, ArithmeticOver]

/-- Induction over arithmetic trees, in which there are but leaves and operations. -/
theorem ArithmeticOver.induction {types : List ValueType}
    {motive : (e : Expression) → e.ArithmeticOver types → Prop}
    (leaf : ∀ e h, e.operands = [] → e.type ∈ types → motive e h)
    (operation : ∀ op lhs rhs hl hr, motive lhs hl → motive rhs hr →
      motive (binary op lhs rhs) (arithmeticOver_binary.mpr ⟨hl, hr⟩))
    (e : Expression) (h : e.ArithmeticOver types) : motive e h := by
  induction e using induction_on_operands with
  | step e ih =>
    have hself : e.IsArithmetic types := h e (self_mem_nodes e)
    cases e with
    | binary op lhs rhs =>
      obtain ⟨hl, hr⟩ := arithmeticOver_binary.mp h
      exact operation op lhs rhs hl hr (ih lhs (by simp [operands]) hl) (ih rhs (by simp [operands]) hr)
    | constant value => exact leaf _ h rfl (hself.type_mem rfl)
    | attr which => exact leaf _ h rfl (hself.type_mem rfl)
    | parameter name type => exact leaf _ h rfl (hself.type_mem rfl)
    | _ => exact hself.elim

/-- An integer expression has the type of integers. -/
theorem ArithmeticOver.type_uint32 (h : e.ArithmeticOver [.uint32]) : e.type = .uint32 := by
  induction e, h using ArithmeticOver.induction with
  | leaf e h hleaf htype => exact List.mem_singleton.mp htype
  | operation op lhs rhs hl hr ihl ihr =>
    show lhs.type.promote rhs.type = .uint32
    rw [ihl, ihr]
    rfl

/-- Integers mix with integers. -/
theorem ArithmeticOver.wellTyped_uint32 (h : e.ArithmeticOver [.uint32]) : e.WellTyped := by
  induction e, h using ArithmeticOver.induction with
  | leaf e h hleaf htype =>
    exact wellTyped_iff.mpr ⟨operandsFit_of_leaf hleaf, by simp [hleaf]⟩
  | operation op lhs rhs hl hr ihl ihr =>
    have hmix : lhs.type.Mixes rhs.type := .inl ⟨hl.type_uint32, hr.type_uint32⟩
    exact wellTyped_iff.mpr ⟨hmix, by simp [operands, ihl, ihr]⟩

/-! ## The value without divisions -/

/-- The value of a leaf is what it stands for. -/
theorem read?_of_evaluate {v : Value} (hleaf : e.operands = []) (hv : e.evaluate particle = .ok v) :
    particle.read? e = some v := by
  cases e with
  | constant value => cases hv; rfl
  | attr which => exact (evaluate_attr.mp hv).1
  | parameter name type => exact (evaluate_parameter.mp hv).1
  | _ => simp [operands] at hleaf

/-- An integer leaf that is supplied has the integer that it stands for. -/
theorem evaluate_integer_leaf (hleaf : e.operands = []) (h : e.ArithmeticOver [.uint32])
    (hs : particle.Supplies e) :
    e.evaluate particle = .ok (.uint (.ofInt (e.unbounded particle))) := by
  obtain ⟨v, hv⟩ := exists_evaluate_of_leaf hleaf (hs e (self_mem_nodes e))
  have htype : v.type = .uint32 := (type_of_evaluate hv).trans h.type_uint32
  obtain ⟨n, rfl⟩ := Value.exists_uint htype
  have hunbounded : e.unbounded particle = n.toNat := by
    rw [unbounded, reckon_leaf hleaf, read?_of_evaluate hleaf hv]
    rfl
  rw [hunbounded, ofInt_toNat, hv]

/-- An integer expression without divisions has the value over the unbounded integers, reduced. -/
theorem evaluate_eq_unbounded (h : e.ArithmeticOver [.uint32]) (hd : e.DividesNoIntegers)
    (hs : particle.Supplies e) :
    e.evaluate particle = .ok (.uint (.ofInt (e.unbounded particle))) := by
  induction e, h using ArithmeticOver.induction with
  | leaf e h hleaf htype => exact evaluate_integer_leaf hleaf h hs
  | operation op lhs rhs hl hr ihl ihr =>
    obtain ⟨hnode, hds⟩ := forall_nodes_iff.mp hd
    obtain ⟨-, hss⟩ := forall_nodes_iff.mp hs
    simp only [operands, List.forall_mem_cons] at hds hss
    have hlhs := ihl hds.1 hss.1
    have hrhs := ihr hds.2.1 hss.2.1
    have htype : (binary op lhs rhs).type = .uint32 := (arithmeticOver_binary.mpr ⟨hl, hr⟩).type_uint32
    have hop : ¬ (op = .divide ∨ op = .modulus) := fun hop => hnode ⟨hop, htype⟩
    refine evaluate_binary.mpr ⟨_, _, hlhs, hrhs, ?_⟩
    -- the operands come reduced, and the operation does not mind
    show Value.uint <$> op.onUint _ _ = _
    rw [Operator.onUint_ofInt hop]
    rfl

/-- Such an expression comes to zero exactly if its value over the unbounded integers is a multiple of
    2³². -/
theorem evaluate_eq_zero_iff (h : e.ArithmeticOver [.uint32]) (hd : e.DividesNoIntegers)
    (hs : particle.Supplies e) :
    e.evaluate particle = .ok (.uint 0) ↔ (UInt32.size : Int) ∣ e.unbounded particle := by
  have hreduced := toNat_ofInt (e.unbounded particle)
  rw [evaluate_eq_unbounded h hd hs, Int.dvd_iff_emod_eq_zero, ← hreduced]
  constructor
  · intro hzero
    rw [Value.uint.inj (Except.ok.inj hzero)]
    rfl
  · intro hzero
    have hvalue : UInt32.ofInt (e.unbounded particle) = 0 :=
      UInt32.toNat_inj.mp (Int.ofNat.inj hzero)
    rw [hvalue]

/-! ## The outcome with divisions -/

/-- An expression has a value only if every node has one. -/
theorem evaluate_of_mem_nodes {v : Value} {node : Expression} (hv : e.evaluate particle = .ok v)
    (hn : node ∈ e.nodes) : ∃ w, node.evaluate particle = .ok w := by
  induction e using induction_on_operands generalizing v with
  | step e ih =>
    rcases eq_or_exists_operand_of_mem_nodes hn with rfl | ⟨operand, ho, hn⟩
    · exact ⟨v, hv⟩
    · obtain ⟨w, hw⟩ := evaluate_operands hv operand ho
      exact ih operand ho hw hn

/-- An expression in which a divisor comes to zero has no value. -/
theorem evaluate_ne_ok_of_zero_divisor {op : Operator} {lhs rhs : Expression}
    (hn : .binary op lhs rhs ∈ e.nodes) (hop : op = .divide ∨ op = .modulus)
    (hz : rhs.evaluate particle = .ok (.uint 0)) (v : Value) : e.evaluate particle ≠ .ok v := by
  intro hv
  obtain ⟨w, hw⟩ := evaluate_of_mem_nodes hv hn
  obtain ⟨a, b, -, hb, happly⟩ := evaluate_binary.mp hw
  obtain rfl : Value.uint 0 = b := Except.ok.inj (hz.symm.trans hb)
  exact Operator.apply_zero_ne_ok hop a w happly

/-- An integer expression that is supplied divides by zero exactly if a divisor comes to zero. -/
theorem divisionByZero_iff (h : e.ArithmeticOver [.uint32]) (hs : particle.Supplies e) :
    e.evaluate particle = .error .divisionByZero ↔
      ∃ op lhs rhs, .binary op lhs rhs ∈ e.nodes ∧ (op = .divide ∨ op = .modulus) ∧
        rhs.evaluate particle = .ok (.uint 0) := by
  rcases settles_evaluate h.wellTyped_uint32 hs with ⟨v, hv⟩ | ⟨he, op, lhs, rhs, hn, hop, -, hz⟩
  · -- with a value at the root there is one at every node, and no divisor is zero
    constructor
    · intro he
      rw [hv] at he
      cases he
    · rintro ⟨op, lhs, rhs, hn, hop, hz⟩
      exact absurd hv (evaluate_ne_ok_of_zero_divisor hn hop hz v)
  · exact ⟨fun _ => ⟨op, lhs, rhs, hn, hop, hz⟩, fun _ => he⟩

/-- The nodes below a node are nodes of the whole. -/
theorem mem_nodes_trans {node inner : Expression} (hn : node ∈ e.nodes) (hinner : inner ∈ node.nodes) :
    inner ∈ e.nodes := by
  induction e using induction_on_operands with
  | step e ih =>
    rcases eq_or_exists_operand_of_mem_nodes hn with rfl | ⟨operand, ho, hn⟩
    · exact hinner
    · exact mem_nodes_of_operand ho (ih operand ho hn)

/-- A divisor that has no divisions itself comes to zero exactly if its value over the unbounded integers
    is a multiple of 2³². -/
theorem divisor_eq_zero_iff {op : Operator} {lhs rhs : Expression} (h : e.ArithmeticOver [.uint32])
    (hs : particle.Supplies e) (hn : .binary op lhs rhs ∈ e.nodes) (hd : rhs.DividesNoIntegers) :
    rhs.evaluate particle = .ok (.uint 0) ↔ (UInt32.size : Int) ∣ rhs.unbounded particle := by
  have hbelow : ∀ node ∈ rhs.nodes, node ∈ e.nodes := by
    intro node hnode
    exact mem_nodes_trans hn (mem_nodes_of_operand (by simp [operands]) hnode)
  have hrhs : rhs.ArithmeticOver [.uint32] := fun node hnode => h node (hbelow node hnode)
  have hsupplies : particle.Supplies rhs := fun node hnode => hs node (hbelow node hnode)
  exact evaluate_eq_zero_iff hrhs hd hsupplies

/-- An integer expression that is supplied has an integer for its value or divides by zero. -/
theorem evaluate_integer_cases (h : e.ArithmeticOver [.uint32]) (hs : particle.Supplies e) :
    (∃ n, e.evaluate particle = .ok (.uint n)) ∨ e.evaluate particle = .error .divisionByZero := by
  rcases settles_evaluate h.wellTyped_uint32 hs with ⟨v, hv⟩ | ⟨he, -⟩
  · have htype : v.type = .uint32 := (type_of_evaluate hv).trans h.type_uint32
    obtain ⟨n, rfl⟩ := Value.exists_uint htype
    exact .inl ⟨n, hv⟩
  · exact .inr he

/-- **Integer expressions compute modulo 2³².** Take an expression of operations on integers, supplied
    with what it reads. If it has no divisions, it has a value, which is the value of the same tree over
    the unbounded integers modulo 2³². With divisions it has an integer for its value or divides by zero;
    and it divides by zero exactly if somewhere in it the divisor, as evaluated, is zero. For a divisor
    without divisions this means that its value over the unbounded integers is a multiple of 2³². -/
theorem integer_arithmetic_is_modular (h : e.ArithmeticOver [.uint32]) (hs : particle.Supplies e) :
    (e.DividesNoIntegers → ∃ n : UInt32, e.evaluate particle = .ok (.uint n) ∧
      (n.toNat : Int) = e.unbounded particle % UInt32.size) ∧
    ((∃ n, e.evaluate particle = .ok (.uint n)) ∨
      e.evaluate particle = .error .divisionByZero) ∧
    (e.evaluate particle = .error .divisionByZero ↔
      ∃ op lhs rhs, .binary op lhs rhs ∈ e.nodes ∧ (op = .divide ∨ op = .modulus) ∧
        rhs.evaluate particle = .ok (.uint 0)) ∧
    ∀ op lhs rhs, .binary op lhs rhs ∈ e.nodes → rhs.DividesNoIntegers →
      (rhs.evaluate particle = .ok (.uint 0) ↔ (UInt32.size : Int) ∣ rhs.unbounded particle) := by
  refine ⟨?value, evaluate_integer_cases h hs, divisionByZero_iff h hs, ?divisor⟩
  case value =>
    intro hd
    exact ⟨_, evaluate_eq_unbounded h hd hs, toNat_ofInt _⟩
  case divisor =>
    intro op lhs rhs hn hd
    exact divisor_eq_zero_iff h hs hn hd

/-- How far the identifier of the particle is beyond 9, times the count. -/
def scaledOffset : Expression :=
  .binary .multiply (.binary .subtract (.attr .particleId) (.constant (.uint 9)))
    (.parameter "count" .uint32)

/-- The same divided by one more than the count. -/
def averagedOffset : Expression :=
  .binary .divide scaledOffset (.binary .add (.parameter "count" .uint32) (.constant (.uint 1)))

/-- With the identifier 7 and the largest count, the offset is below zero and the product far below the
    range of integers, which leaves 2. One more than the count is a zero for the division. -/
theorem scaledOffset_modular :
    scaledOffset.ArithmeticOver [.uint32] ∧ scaledOffset.DividesNoIntegers ∧
      (seventh 4294967295).Supplies scaledOffset ∧
      scaledOffset.unbounded (seventh 4294967295) = -8589934590 ∧
      scaledOffset.evaluate (seventh 4294967295) = .ok (.uint 2) ∧
      averagedOffset.ArithmeticOver [.uint32] ∧ (seventh 4294967295).Supplies averagedOffset ∧
      averagedOffset.evaluate (seventh 4294967295) = .error .divisionByZero := by
  have hscaled : scaledOffset.ArithmeticOver [.uint32] := by decide
  have hdivides : scaledOffset.DividesNoIntegers := by decide
  have hsupplies : (seventh 4294967295).Supplies scaledOffset := by decide
  have hunbounded : scaledOffset.unbounded (seventh 4294967295) = -8589934590 := by decide
  obtain ⟨hvalue, -, -, -⟩ := integer_arithmetic_is_modular hscaled hsupplies
  obtain ⟨n, hn, hmod⟩ := hvalue hdivides
  have htwo : n = 2 := by
    rw [hunbounded] at hmod
    exact UInt32.toNat_inj.mp (Int.ofNat.inj hmod)
  rw [htwo] at hn
  have haveraged : averagedOffset.ArithmeticOver [.uint32] := by decide
  have hsupplied : (seventh 4294967295).Supplies averagedOffset := by decide
  obtain ⟨-, -, hzero, hdivisor⟩ := integer_arithmetic_is_modular haveraged hsupplied
  refine ⟨hscaled, hdivides, hsupplies, hunbounded, hn, haveraged, hsupplied, hzero.mpr ?_⟩
  refine ⟨.divide, scaledOffset, _, self_mem_nodes _, .inl rfl, ?_⟩
  -- over the unbounded integers the divisor is 2³²
  exact (hdivisor _ _ _ (self_mem_nodes _) (by decide)).mpr ⟨1, by decide⟩

/-- With a division the reduced operands give another quotient than the unbounded ones do. -/
example : (binary .divide (binary .subtract (.constant (.uint 1)) (.constant (.uint 2)))
    (.constant (.uint 3))).evaluate .empty = .ok (.uint 1431655765) ∧
    (binary .divide (binary .subtract (.constant (.uint 1)) (.constant (.uint 2)))
      (.constant (.uint 3))).unbounded .empty = -1 := ⟨rfl, by decide⟩

end Expression
end EffectGraph
