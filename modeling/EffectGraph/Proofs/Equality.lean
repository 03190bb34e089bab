import EffectGraph.Proofs.Typing
import Mathlib

/-!
# `Proofs.Equality` — equality of expressions is decided node by node

Constants are compared as numbers: a zero equals the zero of the other sign, and a `nan` equals
nothing. Every other node is compared by its kind and by what it says of itself. A node also tells
how many operands follow it, so two expressions are equal exactly when the nodes on the way through
the one match those on the way through the other (`beq_iff_forall₂_nodes`). What holds of a single
match then holds of expressions: equality is symmetric and transitive, equal expressions look alike
from outside, and an expression differs from itself only by a `nan` somewhere in it.

All that is used of numbers is that their equality is symmetric and transitive, and that a number
differs from itself exactly if it is a `nan`.
-/

namespace EffectGraph

theorem Single.beq_self_iff {x : Float32} : (x == x) = true ↔ x.isNaN = false := by
  rw [Float32.beq_self_iff, Float32.isNaN_eq_decide_eq_nan, decide_eq_false_iff_not]

/-- A relation of elements that is transitive makes a transitive relation of lists. -/
theorem forall₂_trans {α : Type} {R : α → α → Prop} (hR : ∀ a b c, R a b → R b c → R a c)
    {list others more : List α} (h : List.Forall₂ R list others) (h' : List.Forall₂ R others more) :
    List.Forall₂ R list more := by
  induction h generalizing more with
  | nil => exact h'
  | cons hfirst _ ih =>
    obtain _ | ⟨hfirst', hrest⟩ := h'
    exact .cons (hR _ _ _ hfirst hfirst') (ih hrest)

/-! ## Values -/

namespace Value

/-- Whether two values are of one type and equal as numbers, a vector in each component. -/
inductive Equal : Value → Value → Prop where
  | uint (n : UInt32) : Equal (.uint n) (.uint n)
  | float {x y : Float32} (h : (x == y) = true) : Equal (.float x) (.float y)
  | float3 {v w : Vec3} (hx : (v.x == w.x) = true) (hy : (v.y == w.y) = true)
      (hz : (v.z == w.z) = true) : Equal (.float3 v) (.float3 w)

/-- Whether the value is a `nan` or a vector with one in it. -/
def HasNaN : Value → Prop
  | .uint _ => False
  | .float x => x.isNaN = true
  | .float3 v => v.x.isNaN = true ∨ v.y.isNaN = true ∨ v.z.isNaN = true

variable {a b c : Value} {x y : Float32} {v w : Vec3}

theorem equal_float : Equal (.float x) (.float y) ↔ (x == y) = true := by
  constructor
  · intro h
    cases h with
    | float h => exact h
  · exact .float

theorem equal_float3 : Equal (.float3 v) (.float3 w) ↔
    (v.x == w.x) = true ∧ (v.y == w.y) = true ∧ (v.z == w.z) = true := by
  constructor
  · intro h
    cases h with
    | float3 hx hy hz => exact ⟨hx, hy, hz⟩
  · rintro ⟨hx, hy, hz⟩
    exact .float3 hx hy hz

theorem beq_iff_equal : (a == b) = true ↔ Equal a b := by
  have hvectors : ∀ v w : Vec3, (v == w) = true ↔ Equal (.float3 v) (.float3 w) := by
    intro v w
    show (v.x == w.x && v.y == w.y && v.z == w.z) = true ↔ _
    rw [equal_float3, Bool.and_eq_true, Bool.and_eq_true, and_assoc]
  constructor
  · intro h
    cases a with
    | uint m =>
      cases b with
      | uint n =>
        have hmn : (m == n) = true := h
        rw [eq_of_beq hmn]
        exact .uint n
      | _ => cases h
    | float x =>
      cases b with
      | float y => exact .float h
      | _ => cases h
    | float3 v =>
      cases b with
      | float3 w => exact (hvectors v w).mp h
      | _ => cases h
  · intro h
    cases h with
    | uint n => exact beq_self_eq_true n
    | float h => exact h
    | float3 hx hy hz => exact (hvectors _ _).mpr (.float3 hx hy hz)

theorem Equal.symm (h : Equal a b) : Equal b a := by
  cases h with
  | uint n => exact .uint n
  | float h => exact .float (BEq.symm h)
  | float3 hx hy hz => exact .float3 (BEq.symm hx) (BEq.symm hy) (BEq.symm hz)

theorem Equal.trans (h : Equal a b) (h' : Equal b c) : Equal a c := by
  cases h with
  | uint n => exact h'
  | float h =>
    cases h' with
    | float h' => exact .float (BEq.trans h h')
  | float3 hx hy hz =>
    cases h' with
    | float3 hx' hy' hz' => exact .float3 (BEq.trans hx hx') (BEq.trans hy hy') (BEq.trans hz hz')

/-- A value equals itself unless there is a `nan` in it. -/
theorem equal_self_iff : Equal a a ↔ ¬ a.HasNaN := by
  cases a with
  | uint n => exact iff_of_true (.uint n) not_false
  | float x => rw [equal_float, Single.beq_self_iff, HasNaN, Bool.not_eq_true]
  | float3 v =>
    rw [equal_float3, HasNaN, not_or, not_or]
    simp only [Single.beq_self_iff, Bool.not_eq_true]

theorem Equal.type_eq (h : Equal a b) : a.type = b.type := by
  cases h <;> rfl

end Value

namespace Expression

/-! ## Nodes -/

/-- Whether two nodes are equal, whatever their operands are: they are of one kind, with one
    attribute, name, type or operation, and with equal values. -/
inductive Matches : Expression → Expression → Prop where
  | constant {a b : Value} (h : a.Equal b) : Matches (.constant a) (.constant b)
  | attr (which : Attribute) : Matches (.attr which) (.attr which)
  | parameter (name : String) (type : ValueType) : Matches (.parameter name type) (.parameter name type)
  | binary (op : Operator) (lhs rhs lhs' rhs' : Expression) :
      Matches (.binary op lhs rhs) (.binary op lhs' rhs')
  | normalize (operand operand' : Expression) : Matches (.normalize operand) (.normalize operand')
  | line (start finish index count start' finish' index' count' : Expression) :
      Matches (.line start finish index count) (.line start' finish' index' count')
  | circle (center radius normal up index count center' radius' normal' up' index' count' :
        Expression) :
      Matches (.circle center radius normal up index count)
        (.circle center' radius' normal' up' index' count')
  | lattice (origin axisX axisY axisZ index countX countY countZ origin' axisX' axisY' axisZ' index'
        countX' countY' countZ' : Expression) :
      Matches (.lattice origin axisX axisY axisZ index countX countY countZ)
        (.lattice origin' axisX' axisY' axisZ' index' countX' countY' countZ')

variable {e f g : Expression}

theorem Matches.symm (h : Matches e f) : Matches f e := by
  cases h with
  | constant h => exact .constant h.symm
  | _ => constructor

theorem Matches.trans (h : Matches e f) (h' : Matches f g) : Matches e g := by
  cases h with
  | constant h =>
    cases h' with
    | constant h' => exact .constant (h.trans h')
  | _ => cases h'; constructor

/-- A node matches itself unless it is a constant with a `nan` in it. -/
theorem matches_self_iff : Matches e e ↔ ∀ value, e = .constant value → ¬ value.HasNaN := by
  constructor
  · rintro h value rfl
    cases h with
    | constant h => exact Value.equal_self_iff.mp h
  · intro h
    cases e with
    | constant value => exact .constant (Value.equal_self_iff.mpr (h value rfl))
    | _ => constructor

theorem Matches.kind_eq (h : Matches e f) : e.kind = f.kind := by
  cases h <;> rfl

theorem Matches.attribute?_eq (h : Matches e f) : e.attribute? = f.attribute? := by
  cases h <;> rfl

theorem Matches.length_operands_eq (h : Matches e f) : e.operands.length = f.operands.length := by
  cases h <;> rfl

/-- The type of a node depends on the node and on the types of its operands. -/
theorem Matches.type_eq (h : Matches e f)
    (ho : List.Forall₂ (fun a b => a.type = b.type) e.operands f.operands) : e.type = f.type := by
  cases h with
  | constant h => exact h.type_eq
  | binary op lhs rhs lhs' rhs' =>
    obtain _ | ⟨hl, _ | ⟨hr, -⟩⟩ := ho
    show lhs.type.promote rhs.type = lhs'.type.promote rhs'.type
    rw [hl, hr]
  | _ => rfl

/-! ## Equality by nodes -/

theorem beq_eq (e f : Expression) : (e == f) = beq e f := rfl

attribute [local simp] beq

/-- Equal expressions have roots that match. -/
theorem matches_of_beq (h : (e == f) = true) : Matches e f := by
  rw [beq_eq] at h
  cases e with
  | constant a =>
    cases f with
    | constant b => exact .constant (Value.beq_iff_equal.mp h)
    | _ => cases h
  | attr which =>
    cases f with
    | attr which' =>
      obtain rfl : which = which' := by simpa using h
      exact .attr which
    | _ => cases h
  | parameter name type =>
    cases f with
    | parameter name' type' =>
      obtain ⟨rfl, rfl⟩ : name = name' ∧ type = type' := by simpa using h
      exact .parameter name type
    | _ => cases h
  | binary op lhs rhs =>
    cases f with
    | binary op' lhs' rhs' =>
      have hop : (op = op' ∧ beq lhs lhs' = true) ∧ beq rhs rhs' = true := by simpa using h
      rw [hop.1.1]
      exact .binary op' lhs rhs lhs' rhs'
    | _ => cases h
  -- the other kinds say nothing of themselves
  | normalize operand =>
    cases f with
    | normalize operand' => exact .normalize operand operand'
    | _ => cases h
  | line start finish index count =>
    cases f with
    | line => exact .line ..
    | _ => cases h
  | circle center radius normal up index count =>
    cases f with
    | circle => exact .circle ..
    | _ => cases h
  | lattice origin axisX axisY axisZ index countX countY countZ =>
    cases f with
    | lattice => exact .lattice ..
    | _ => cases h

/-- Where the roots match, the operands decide. -/
theorem Matches.beq_iff (h : Matches e f) :
    (e == f) = true ↔ List.Forall₂ (fun a b => (a == b) = true) e.operands f.operands := by
  cases h with
  | constant h => exact iff_of_true (Value.beq_iff_equal.mpr h) .nil
  | _ => simp [beq_eq, operands, and_assoc]

/-- Two expressions are equal if their roots match and their operands are equal one by one. -/
theorem beq_iff_operands : (e == f) = true ↔
    Matches e f ∧ List.Forall₂ (fun a b => (a == b) = true) e.operands f.operands := by
  constructor
  · intro h
    exact ⟨matches_of_beq h, (matches_of_beq h).beq_iff.mp h⟩
  · rintro ⟨h, ho⟩
    exact h.beq_iff.mpr ho

/-- The nodes of a list of expressions match those of as many others, with what comes after them, if
    the expressions are equal one by one and what comes after them matches. -/
theorem forall₂_flatMap_nodes_iff {list others rest rest' : List Expression}
    (hlength : list.length = others.length)
    (h : ∀ e ∈ list, ∀ (f : Expression) (rest rest' : List Expression),
      List.Forall₂ Matches (e.nodes ++ rest) (f.nodes ++ rest') ↔
        (e == f) = true ∧ List.Forall₂ Matches rest rest') :
    List.Forall₂ Matches (list.flatMap nodes ++ rest) (others.flatMap nodes ++ rest') ↔
      List.Forall₂ (fun a b => (a == b) = true) list others ∧ List.Forall₂ Matches rest rest' := by
  induction list generalizing others with
  | nil =>
    obtain rfl : others = [] := List.eq_nil_of_length_eq_zero hlength.symm
    simp
  | cons e list ih =>
    obtain _ | ⟨f, others⟩ := others
    · cases hlength
    · obtain ⟨hfirst, hrest⟩ := List.forall_mem_cons.mp h
      rw [List.flatMap_cons, List.flatMap_cons, List.append_assoc, List.append_assoc, hfirst,
        ih (Nat.succ.inj hlength) hrest, List.forall₂_cons, and_assoc]

/-- **The nodes tell where an expression ends**: the nodes of two expressions match, with what comes
    after them, if the expressions are equal and what comes after them matches. -/
theorem forall₂_nodes_append_iff {rest rest' : List Expression} :
    List.Forall₂ Matches (e.nodes ++ rest) (f.nodes ++ rest') ↔
      (e == f) = true ∧ List.Forall₂ Matches rest rest' := by
  -- what comes after an operand are the nodes of the next ones, so the rest has to vary
  induction e using induction_on_operands generalizing f rest rest' with
  | step e ih =>
    rw [nodes_eq e, nodes_eq f, List.cons_append, List.cons_append, List.forall₂_cons,
      beq_iff_operands, and_assoc]
    refine and_congr_right ?_
    intro h
    exact forall₂_flatMap_nodes_iff h.length_operands_eq ih

/-- **Two expressions are equal if their nodes match one by one.** -/
theorem beq_iff_forall₂_nodes : (e == f) = true ↔ List.Forall₂ Matches e.nodes f.nodes := by
  have h := @forall₂_nodes_append_iff e f [] []
  simpa using h.symm

/-! ## A partial equivalence -/

instance : PartialEquivBEq Expression where
  symm h := by
    rw [beq_iff_forall₂_nodes] at h ⊢
    exact (h.imp fun _ _ => Matches.symm).flip
  trans h h' := by
    rw [beq_iff_forall₂_nodes] at h h' ⊢
    exact forall₂_trans (R := Matches) (fun _ _ _ => Matches.trans) h h'

/-- An expression equals itself unless one of its constants has a `nan` in it. -/
theorem beq_self_iff : (e == e) = true ↔ ∀ value, .constant value ∈ e.nodes → ¬ value.HasNaN := by
  rw [beq_iff_forall₂_nodes, List.forall₂_same]
  simp only [matches_self_iff]
  constructor
  · intro h value hn
    exact h _ hn value rfl
  · rintro h node hn value rfl
    exact h value hn

/-! ## What equal expressions share -/

/-- What can be seen of a node by its match is the same along equal expressions. -/
theorem map_nodes_eq_of_beq {α : Type} {view : Expression → α}
    (hview : ∀ a b, Matches a b → view a = view b) (h : (e == f) = true) :
    e.nodes.map view = f.nodes.map view := by
  have hall : List.Forall₂ (· = ·) (e.nodes.map view) (f.nodes.map view) :=
    List.rel_map hview (beq_iff_forall₂_nodes.mp h)
  rwa [List.forall₂_eq_eq_eq] at hall

theorem attributes_eq_of_beq (h : (e == f) = true) : e.attributes = f.attributes := by
  have hviews : e.nodes.map attribute? = f.nodes.map attribute? :=
    map_nodes_eq_of_beq (fun _ _ => Matches.attribute?_eq) h
  have hfound : e.nodes.filterMap attribute? = f.nodes.filterMap attribute? := by
    rw [← Function.id_comp attribute?, ← List.filterMap_map, ← List.filterMap_map, hviews]
  rw [attributes, attributes, hfound]

theorem type_eq_of_beq (h : (e == f) = true) : e.type = f.type := by
  induction e using induction_on_operands generalizing f with
  | step e ih =>
    obtain ⟨hroots, hoperands⟩ := beq_iff_operands.mp h
    have hboth : List.Forall₂
        (fun a b => (∀ f, (a == f) = true → a.type = f.type) ∧ (a == b) = true)
        e.operands f.operands :=
      (List.forall₂_and_left _ _).mpr ⟨fun operand ho f => ih operand ho, hoperands⟩
    exact hroots.type_eq (hboth.imp fun a b h => h.1 b h.2)

/-- **Equality of expressions is a partial equivalence, and only a `nan` differs from itself.**

* Two expressions are equal exactly when the nodes on the way through them match one by one.
* Equality is symmetric and transitive.
* An expression equals itself exactly if no constant among its nodes is a `nan` or a vector with one.
* Equal expressions have one type, the same attributes in the same order, and nodes of the same kinds
  in the same order. -/
theorem equality_is_partial_equivalence :
    (∀ e f : Expression, (e == f) = true ↔ List.Forall₂ Matches e.nodes f.nodes) ∧
    (∀ e f : Expression, (e == f) = true → (f == e) = true) ∧
    (∀ e f g : Expression, (e == f) = true → (f == g) = true → (e == g) = true) ∧
    (∀ e : Expression, (e == e) = true ↔
      ∀ value, .constant value ∈ e.nodes → ¬ value.HasNaN) ∧
    ∀ e f : Expression, (e == f) = true →
      e.type = f.type ∧ e.attributes = f.attributes ∧ e.nodes.map kind = f.nodes.map kind := by
  refine ⟨fun _ _ => beq_iff_forall₂_nodes, fun _ _ => BEq.symm, fun _ _ _ => BEq.trans,
    fun _ => beq_self_iff, ?shared⟩
  case shared =>
    intro e f h
    have hkinds : e.nodes.map kind = f.nodes.map kind :=
      map_nodes_eq_of_beq (fun _ _ => Matches.kind_eq) h
    exact ⟨type_eq_of_beq h, attributes_eq_of_beq h, hkinds⟩

/-- The element that the identifier of a particle picks between a point at some height and the
    position of the particle. -/
def risingFrom (height : Float32) : Expression :=
  .line (.constant (.float3 ⟨1, height, 0⟩)) (.attr .position) (.attr .particleId)
    (.parameter "count" .uint32)

/-- Heights that are zeros of different signs are equal, and a `nan` is found below the root. -/
theorem risingFrom_equality :
    (risingFrom 0 == risingFrom (-0)) = true ∧ (risingFrom (-0) == risingFrom 0) = true ∧
      (risingFrom 0 == risingFrom 0) = true ∧
      (risingFrom 0).attributes = (risingFrom (-0)).attributes ∧
      ¬ (risingFrom Single.nan == risingFrom Single.nan) = true := by
  obtain ⟨-, symm, trans, self, shared⟩ := equality_is_partial_equivalence
  have hzeros : (risingFrom 0 == risingFrom (-0)) = true := by decide
  have hback : (risingFrom (-0) == risingFrom 0) = true := symm _ _ hzeros
  refine ⟨hzeros, hback, trans _ _ _ hzeros hback, (shared _ _ hzeros).2.1, ?_⟩
  intro h
  have hconstant : constant (.float3 ⟨1, Single.nan, 0⟩) ∈ (risingFrom Single.nan).nodes := by
    simp [risingFrom, nodes]
  have hnan : (Value.float3 ⟨1, Single.nan, 0⟩).HasNaN := .inr (.inl (by decide))
  exact (self _).mp h _ hconstant hnan

end Expression
end EffectGraph
