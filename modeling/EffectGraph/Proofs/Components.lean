import EffectGraph.Proofs.Wrapping

/-!
# `Proofs.Components` — vectors are computed component by component

A number stands beside a vector for the vector of three times that number, and every operation on vectors
is one on numbers, done three times. So a tree of operations on numbers and vectors can be read along one
axis from the leaves up: each vector there is its component, each number is itself, and the operations are
the ones on numbers, in the order of the tree. Whatever nodes switch from numbers to vectors in between,
the reading comes to the component of the value (`Vec3.component`).

What a reading has to do for this is to pass through one operation (`Value.PassesThrough`). The component
along an axis does, and so does the plain number, which no vector has.
-/

namespace EffectGraph

open Outcome

/-! ## Readings of values -/

/-- A direction of space that a component belongs to. -/
inductive Axis where
  | x
  | y
  | z
deriving DecidableEq, Repr

/-- The component of a vector along an axis. -/
def Vec3.component (v : Vec3) : Axis → Float32
  | .x => v.x
  | .y => v.y
  | .z => v.z

theorem Vec3.component_splat (a : Float32) (axis : Axis) : (splat a).component axis = a := by
  cases axis <;> rfl

theorem Vec3.component_zipWith (op : Float32 → Float32 → Float32) (a b : Vec3) (axis : Axis) :
    (zipWith op a b).component axis = op (a.component axis) (b.component axis) := by
  cases axis <;> rfl

/-- What a value is along an axis: a vector its component and a number itself. -/
def Value.along (axis : Axis) : Value → Option Float32
  | .uint _ => none
  | .float x => some x
  | .float3 v => some (v.component axis)

/-- An operation on numbers, where there are two. -/
def Operator.onFloat? (op : Operator) (a b : Option Float32) : Option Float32 := do
  return op.onFloat (← a) (← b)

/-- A reading of values as numbers passes through operations: read from the result it is the operation on
    what is read from the operands. -/
def Value.PassesThrough (read : Value → Option Float32) : Prop :=
  ∀ (op : Operator) (a b v : Value), op.apply a b = .ok v → read v = op.onFloat? (read a) (read b)

namespace Operator

variable {op : Operator} {a b v : Value}

/-- What succeeds is an operation on two integers, on two numbers, or on a vector and another vector or
    number, which is then the vector of three times that number. -/
theorem apply_eq_ok (h : op.apply a b = .ok v) :
    (∃ n m k, a = .uint n ∧ b = .uint m ∧ v = .uint k) ∨
    (∃ x y, a = .float x ∧ b = .float y ∧ v = .float (op.onFloat x y)) ∨
    ∃ u w, v = .float3 (op.onFloat3 u w) ∧
      ((a = .float3 u ∧ b = .float3 w) ∨ (∃ y, a = .float3 u ∧ b = .float y ∧ w = .splat y) ∨
        ∃ x, a = .float x ∧ b = .float3 w ∧ u = .splat x) := by
  cases a with
  | uint n =>
    cases b with
    | uint m =>
      obtain ⟨k, -, rfl⟩ := map_eq_ok.mp h
      exact .inl ⟨n, m, k, rfl, rfl, rfl⟩
    | float y => cases h
    | float3 w => cases h
  | float x =>
    cases b with
    | uint m => cases h
    | float y =>
      cases h
      exact .inr (.inl ⟨x, y, rfl, rfl, rfl⟩)
    | float3 w =>
      cases h
      exact .inr (.inr ⟨.splat x, w, rfl, .inr (.inr ⟨x, rfl, rfl, rfl⟩)⟩)
  | float3 u =>
    cases b with
    | uint m => cases h
    | float y =>
      cases h
      exact .inr (.inr ⟨u, .splat y, rfl, .inr (.inl ⟨y, rfl, rfl, rfl⟩)⟩)
    | float3 w =>
      cases h
      exact .inr (.inr ⟨u, w, rfl, .inl ⟨rfl, rfl⟩⟩)

end Operator

namespace Value

theorem along_float3 (axis : Axis) (op : Operator) (u w : Vec3) :
    along axis (.float3 (op.onFloat3 u w)) = some (op.onFloat (u.component axis) (w.component axis)) := by
  show some ((Vec3.zipWith op.onFloat u w).component axis) = _
  rw [Vec3.component_zipWith]

/-- **The component along an axis passes through operations**, since a number is every component of the
    vector that it stands for. -/
theorem passesThrough_along (axis : Axis) : PassesThrough (along axis) := by
  intro op a b v h
  rcases Operator.apply_eq_ok h with ⟨n, m, k, rfl, rfl, rfl⟩ | ⟨x, y, rfl, rfl, rfl⟩ | ⟨u, w, rfl, hpair⟩
  · rfl
  · rfl
  · rw [along_float3]
    rcases hpair with ⟨rfl, rfl⟩ | ⟨y, rfl, rfl, rfl⟩ | ⟨x, rfl, rfl, rfl⟩
    · rfl
    · rw [Vec3.component_splat]
      rfl
    · rw [Vec3.component_splat]
      rfl

/-- The number passes through operations: it is there exactly if both operands are numbers. -/
theorem passesThrough_asFloat? : PassesThrough asFloat? := by
  intro op a b v h
  rcases Operator.apply_eq_ok h with ⟨n, m, k, rfl, rfl, rfl⟩ | ⟨x, y, rfl, rfl, rfl⟩ | ⟨u, w, rfl, hpair⟩
  · rfl
  · rfl
  · rcases hpair with ⟨rfl, rfl⟩ | ⟨y, rfl, rfl, rfl⟩ | ⟨x, rfl, rfl, rfl⟩ <;> rfl

end Value

/-! ## Readings of trees -/

namespace Expression

variable {particle : Particle} {e : Expression} {v : Value}

/-- The value of a tree of operations on numbers, for a reading of its leaves as numbers. -/
def scalar (particle : Particle) (read : Value → Option Float32) (e : Expression) : Option Float32 :=
  e.reckon (fun leaf => (particle.read? leaf).bind read) Operator.onFloat?

/-- **What passes through one operation passes through a tree of them.** -/
theorem scalar_of_evaluate {types : List ValueType} {read : Value → Option Float32}
    (hread : Value.PassesThrough read) (h : e.ArithmeticOver types) (hv : e.evaluate particle = .ok v) :
    e.scalar particle read = read v := by
  induction e, h using ArithmeticOver.induction generalizing v with
  | leaf e h hleaf htype =>
    unfold scalar
    rw [reckon_leaf hleaf, read?_of_evaluate hleaf hv, Option.bind_some]
  | operation op lhs rhs hl hr ihl ihr =>
    obtain ⟨a, b, ha, hb, happly⟩ := evaluate_binary.mp hv
    show op.onFloat? (lhs.scalar particle read) (rhs.scalar particle read) = read v
    rw [ihl ha, ihr hb, hread op a b v happly]

/-! ## Which trees have a value -/

/-- Numbers and vectors mix with each other, and give a number or a vector. -/
theorem ArithmeticOver.type_mem_numbers (h : e.ArithmeticOver [.float, .float3]) :
    e.type ∈ [ValueType.float, .float3] := by
  induction e, h using ArithmeticOver.induction with
  | leaf e h hleaf htype => exact htype
  | operation op lhs rhs hl hr ihl ihr =>
    show lhs.type.promote rhs.type ∈ _
    generalize lhs.type = a at ihl
    generalize rhs.type = b at ihr
    revert a b
    decide

/-- Operations on numbers and vectors always have a result. -/
theorem exists_evaluate_of_supplies (h : e.ArithmeticOver [.float, .float3]) (hs : particle.Supplies e) :
    ∃ v, e.evaluate particle = .ok v := by
  induction e, h using ArithmeticOver.induction with
  | leaf e h hleaf htype => exact exists_evaluate_of_leaf hleaf (hs e (self_mem_nodes e))
  | operation op lhs rhs hl hr ihl ihr =>
    obtain ⟨-, hss⟩ := forall_nodes_iff.mp hs
    simp only [operands, List.forall_mem_cons] at hss
    obtain ⟨a, ha⟩ := ihl hss.1
    obtain ⟨b, hb⟩ := ihr hss.2.1
    have hta : a.type ∈ [ValueType.float, .float3] := type_of_evaluate ha ▸ hl.type_mem_numbers
    have htb : b.type ∈ [ValueType.float, .float3] := type_of_evaluate hb ▸ hr.type_mem_numbers
    rcases op.apply_cases (.inr ⟨hta, htb⟩) with ⟨v, hv⟩ | ⟨-, -, hinteger, -⟩
    · exact ⟨v, evaluate_binary.mpr ⟨a, b, ha, hb, hv⟩⟩
    · -- only an integer can be divided by zero
      rw [hinteger] at hta
      exact absurd hta (by decide)

/-- A tree over numbers and vectors has a value exactly if it is supplied with what it reads. -/
theorem exists_evaluate_iff_supplies (h : e.ArithmeticOver [.float, .float3]) :
    (∃ v, e.evaluate particle = .ok v) ↔ particle.Supplies e := by
  constructor
  · rintro ⟨v, hv⟩
    exact supplies_of_evaluate hv
  · exact exists_evaluate_of_supplies h

/-- **Vectors are computed component by component.** Take a tree of operations on numbers and vectors.

    * It has a value exactly if it is supplied with what it reads, and that is a number or a vector.
    * Each component of a vector that it comes to is the number that the same tree comes to along that
      axis: with the components of its vectors, its numbers as they are, and the operations on numbers.
    * A number that it comes to is the one that the tree comes to on numbers alone. -/
theorem vectors_computed_by_components (h : e.ArithmeticOver [.float, .float3]) :
    ((∃ v, e.evaluate particle = .ok v) ↔ particle.Supplies e) ∧
    (∀ v, e.evaluate particle = .ok v → (∃ r, v = .float3 r) ∨ ∃ r, v = .float r) ∧
    (∀ r, e.evaluate particle = .ok (.float3 r) → ∀ axis,
      e.scalar particle (Value.along axis) = some (r.component axis)) ∧
    ∀ r, e.evaluate particle = .ok (.float r) → e.scalar particle Value.asFloat? = some r := by
  refine ⟨exists_evaluate_iff_supplies h, ?kinds, ?vector, ?number⟩
  case kinds =>
    intro v hv
    have htype : v.type ∈ [ValueType.float, .float3] := by
      rw [type_of_evaluate hv]
      exact h.type_mem_numbers
    rcases List.mem_cons.mp htype with hfloat | hfloat3
    · exact .inr (Value.exists_float hfloat)
    · exact .inl (Value.exists_float3 (List.mem_singleton.mp hfloat3))
  case vector =>
    intro r hr axis
    exact scalar_of_evaluate (Value.passesThrough_along axis) h hr
  case number =>
    intro r hr
    exact scalar_of_evaluate Value.passesThrough_asFloat? h hr

/-- Twice the pace, less what is left of the position after whole paces. -/
def paceGap : Expression :=
  .binary .subtract (.binary .multiply (.constant (.float 2)) (.parameter "pace" .float))
    (.binary .modulus (.attr .position) (.parameter "pace" .float))

/-- A particle that is on its way at a pace of 3. -/
def walker : Particle :=
  (Particle.empty.withAttribute .position (.float3 ⟨7, 8, 9⟩)).withParameter "pace" (.float 3)

/-- A number is taken from a vector and a vector from a number, and the components are as if there were
    numbers only. The number that they are taken from is reckoned without any axis. -/
theorem paceGap_by_components :
    paceGap.ArithmeticOver [.float, .float3] ∧ walker.Supplies paceGap ∧
      ∃ r, paceGap.evaluate walker = .ok (.float3 r) ∧
        r.y = 2 * 3 - Single.remainder 8 3 ∧
        (∀ axis, paceGap.scalar walker (Value.along axis) = some (r.component axis)) ∧
        (binary .multiply (.constant (.float 2)) (.parameter "pace" .float)).scalar walker
          Value.asFloat? = some (2 * 3) := by
  have hgap : paceGap.ArithmeticOver [.float, .float3] := by decide
  have hproduct : (binary .multiply (.constant (.float 2)) (.parameter "pace" .float)).ArithmeticOver
      [.float, .float3] := by decide
  have hsupplies : walker.Supplies paceGap := (vectors_computed_by_components hgap).1.mp ⟨_, rfl⟩
  obtain ⟨-, -, hvector, -⟩ := vectors_computed_by_components hgap
  obtain ⟨-, -, -, hnumber⟩ := vectors_computed_by_components hproduct
  exact ⟨hgap, hsupplies, _, rfl, rfl, hvector _ rfl, hnumber _ rfl⟩

end Expression
end EffectGraph
