import EffectGraph.Proofs.Sequential
import EffectGraph.Proofs.Traversal

/-!
# `Proofs.MissingInputs` — the sequence block asks for the inputs that it declares

The tables of declared inputs and the look-ups of the builder are written apart, with the names of the
inputs in both. They agree name by name and in their order: the builder fails exactly as a look-up of
the declared names one after another does (`computePositions_eq_error`), so it fails with the first
declared name that is not bound. As binding binds every declared name, no compiled block is without one.
-/

namespace EffectGraph

open Outcome

namespace BoundInputs

variable {inputs : BoundInputs} {name : String}

theorem required_eq_ok {e : Expression} : inputs.required name = .ok e ↔ inputs.get? name = some e := by
  unfold required
  cases inputs.get? name <;> simp

theorem required_eq_error {missing : MissingInput} :
    inputs.required name = .error missing ↔ inputs.get? name = none ∧ missing.name = name := by
  unfold required
  cases inputs.get? name with
  | some e => simp
  | none =>
    simp only [Except.error.injEq, true_and]
    constructor
    · rintro rfl; rfl
    · rintro rfl; rfl

/-- What is asked for at a name depends on what is bound to it. -/
theorem required_congr {others : BoundInputs} (h : inputs.get? name = others.get? name) :
    inputs.required name = others.required name := by
  rw [required, required, h]

/-- The declared names, looked up one after another. -/
def lookUp (inputs : BoundInputs) (declarations : List Declaration) :
    Except MissingInput (List Expression) :=
  declarations.mapM fun d => inputs.required d.name

/-- Looking up names succeeds if all of them are bound. -/
theorem exists_lookUp_iff {declarations : List Declaration} :
    (∃ es, inputs.lookUp declarations = .ok es) ↔ inputs.BindsAll declarations := by
  induction declarations with
  | nil => simp [lookUp, BindsAll]
  | cons d rest ih =>
    unfold BindsAll at ih ⊢
    rw [List.forall_mem_cons, ← ih]
    simp only [lookUp, List.mapM_cons, bind_eq_ok, pure_eq_ok, required_eq_ok]
    constructor
    · rintro ⟨_, e, he, es, hes, rfl⟩
      exact ⟨⟨e, he⟩, es, hes⟩
    · rintro ⟨⟨e, he⟩, es, hes⟩
      exact ⟨_, e, he, es, hes, rfl⟩

theorem lookUp_append_eq_error {declarations more : List Declaration} {missing : MissingInput} :
    inputs.lookUp (declarations ++ more) = .error missing ↔
      inputs.lookUp declarations = .error missing ∨
        (∃ es, inputs.lookUp declarations = .ok es) ∧ inputs.lookUp more = .error missing := by
  simp [lookUp, List.mapM_append]

/-- Looking up names fails with the first one that is not bound. -/
theorem lookUp_eq_error {declarations : List Declaration} {missing : MissingInput} :
    inputs.lookUp declarations = .error missing ↔
      ∃ before d after, declarations = before ++ d :: after ∧ inputs.BindsAll before ∧
        inputs.get? d.name = none ∧ missing.name = d.name := by
  simp only [lookUp, mapM_eq_error, required_eq_ok, required_eq_error]
  rfl

end BoundInputs

namespace Sequential

variable {settings : Settings} {inputs others : BoundInputs}

theorem resolve_eq_error {shape : Shape} {missing : MissingInput} :
    ShapeInputs.resolve shape inputs = .error missing ↔
      inputs.lookUp (shapeDeclarations shape) = .error missing := by
  cases shape <;> simp [ShapeInputs.resolve, BoundInputs.lookUp, shapeDeclarations]

theorem indexExpression_eq_error {source : IndexSource} {missing : MissingInput} :
    indexExpression source inputs = .error missing ↔
      inputs.lookUp (indexDeclarations source) = .error missing := by
  cases source <;> simp [indexExpression, BoundInputs.lookUp, indexDeclarations]

/-- **The builder fails as the look-up of the declared names does.** -/
theorem computePositions_eq_error {missing : MissingInput} :
    computePositions settings inputs = .error missing ↔
      inputs.lookUp (declarations settings.shape settings.index) = .error missing := by
  have hshape : (∃ shape, ShapeInputs.resolve settings.shape inputs = .ok shape) ↔
      ∃ es, inputs.lookUp (shapeDeclarations settings.shape) = .ok es :=
    exists_ok_congr fun _ => resolve_eq_error
  rw [declarations, BoundInputs.lookUp_append_eq_error, ← hshape, ← resolve_eq_error,
    ← indexExpression_eq_error]
  simp only [computePositions, bind_eq_error, pure_ne_error, and_false, exists_false, or_false,
    exists_and_right]

/-- The builder asks for nothing but what is bound to the declared names. -/
theorem computePositions_congr
    (h : ∀ d ∈ declarations settings.shape settings.index, inputs.get? d.name = others.get? d.name) :
    computePositions settings inputs = computePositions settings others := by
  have hrequired : ∀ d ∈ declarations settings.shape settings.index,
      inputs.required d.name = others.required d.name := by
    intro d hd
    exact BoundInputs.required_congr (h d hd)
  obtain ⟨shape, index, target⟩ := settings
  cases shape <;> cases index <;>
    simp only [declarations, shapeDeclarations, indexDeclarations, List.cons_append, List.nil_append,
      List.forall_mem_cons] at hrequired <;>
    simp [computePositions, ShapeInputs.resolve, indexExpression, hrequired]

/-- **The block fails exactly if a declared input is not bound.**

    * The builder succeeds if and only if every declared name is bound.
    * Otherwise it fails with the first declared name that is not bound.
    * It depends on the expressions bound to the declared names and on nothing else.
    * So a compiled block is never without an input: it compiles whenever its slots bind, and otherwise
      the error is theirs. -/
theorem fails_on_first_unbound (settings : Settings) :
    (∀ inputs : BoundInputs, (∃ computed, computePositions settings inputs = .ok computed) ↔
      ∀ d ∈ declarations settings.shape settings.index, ∃ e, inputs.get? d.name = some e) ∧
    (∀ (inputs : BoundInputs) (missing : MissingInput),
      computePositions settings inputs = .error missing ↔
        ∃ before d after, declarations settings.shape settings.index = before ++ d :: after ∧
          (∀ earlier ∈ before, ∃ e, inputs.get? earlier.name = some e) ∧
          inputs.get? d.name = none ∧ missing.name = d.name) ∧
    (∀ inputs others : BoundInputs,
      (∀ d ∈ declarations settings.shape settings.index,
        inputs.get? d.name = others.get? d.name) →
      computePositions settings inputs = computePositions settings others) ∧
    ∀ slots : List Slot,
      (∃ compiled, (settings.block.compile slots).outcome = .ok compiled) ∨
      ∃ e, (BoundInputs.ofSlots (declarations settings.shape settings.index) slots).outcome =
          .error e ∧
        (settings.block.compile slots).outcome = .error (.binding e) := by
  refine ⟨?succeeds, ?fails, fun _ _ h => computePositions_congr h, ?compiles⟩
  case fails =>
    intro inputs missing
    rw [computePositions_eq_error, BoundInputs.lookUp_eq_error]
    rfl
  case succeeds =>
    intro inputs
    rw [exists_ok_congr fun _ => computePositions_eq_error, BoundInputs.exists_lookUp_iff]
    rfl
  case compiles =>
    intro slots
    cases hb : (BoundInputs.ofSlots settings.block.declarations slots).outcome with
    | ok inputs => exact .inl ((block_contained settings).exists_compile hb)
    | error e => exact .inr ⟨e, hb, Block.compile_of_unbound hb⟩

/-- Inputs of a ring that lack two of its directions and its index. One name is not of a ring. -/
def sparseInputs : BoundInputs :=
  ⟨[⟨"Radius", .parameter "size" .float⟩, ⟨"Start", .constant (.float3 .zero)⟩,
    ⟨"Center", .attr .position⟩, ⟨"Count", .one .uint32⟩]⟩

/-- Of the names that are not bound, the normal is declared first. An input of another shape makes no
    difference to that. -/
theorem sparseInputs_fail :
    computePositions ring sparseInputs = .error ⟨"Normal"⟩ ∧
      computePositions ring (sparseInputs.insert "End" (.one .float3)) = .error ⟨"Normal"⟩ := by
  obtain ⟨-, fails, depends, -⟩ := fails_on_first_unbound ring
  have hnormal : computePositions ring sparseInputs = .error ⟨"Normal"⟩ := by
    refine (fails sparseInputs ⟨"Normal"⟩).mpr ?_
    refine ⟨(shapeDeclarations .circle).take 2, _, _, rfl, ?_, rfl, rfl⟩
    simp [shapeDeclarations, sparseInputs, BoundInputs.get?]
  have hend : ∀ d ∈ declarations ring.shape ring.index,
      sparseInputs.get? d.name = (sparseInputs.insert "End" (.one .float3)).get? d.name := by
    intro d hd
    have hname : "End" ≠ d.name := by
      revert d
      decide
    rw [BoundInputs.get?_insert, if_neg hname]
  exact ⟨hnormal, (depends _ _ hend).symm.trans hnormal⟩

end Sequential
end EffectGraph
