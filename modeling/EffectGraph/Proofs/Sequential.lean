import EffectGraph.Proofs.Binding

/-!
# `Proofs.Sequential` — a compiled sequence block places particles where its inputs say

The block looks its inputs up by name and puts them, in their places, into one of three operators.
`element` is what comes out of that, given the expression of each name, and `elementPosition?` is
the same over values: the position that is meant. With every input evaluating to its worth
(`Declaration.evaluate_bind`), the one evaluates to the other.

## Contents
- `computePositions_of_bindsAll`: the block builds its expressions from any inputs that bind what it
  declares.
- `evaluate_element`: from values of the inputs to the value of the position.
- `compile_places_particle`: the two together with the binding of slots.
-/

namespace EffectGraph

open Outcome

namespace BoundInputs

/-- The expression of a name that is bound. -/
def expression (inputs : BoundInputs) (name : String) : Expression :=
  (inputs.get? name).getD default

theorem required_of_bindsAll {inputs : BoundInputs} {declarations : List Declaration}
    {d : Declaration} (h : inputs.BindsAll declarations) (hd : d ∈ declarations) :
    inputs.required d.name = .ok (inputs.expression d.name) := by
  obtain ⟨e, he⟩ := h d hd
  simp [required, expression, he]

end BoundInputs

namespace Sequential

/-! ## The expressions that are built -/

/-- The inputs of a shape by role, over the expressions of the inputs by name. -/
def shapeInputs (shape : Shape) (input : String → Expression) : ShapeInputs :=
  match shape with
  | .line => .line (input "Count") (input "Start") (input "End")
  | .circle =>
    .circle (input "Count") (input "Center") (input "Normal") (input "Up") (input "Radius")
  | .threeDimensional =>
    .threeDimensional (input "Origin") (input "AxisX") (input "AxisY") (input "AxisZ")
      (input "CountX") (input "CountY") (input "CountZ")

/-- The position of an element, over the expressions of the inputs by name. -/
def element (shape : Shape) (input : String → Expression) (index : Expression) : Expression :=
  (shapeInputs shape input).position index

/-- The index of the element, over the expressions of the inputs by name. -/
def elementIndex (source : IndexSource) (input : String → Expression) : Expression :=
  match source with
  | .particleId => .attr .particleId
  | .custom => input "Index"

/-- The target position beside the position. -/
def elementTarget (settings : Settings) (input : String → Expression) : Target :=
  match settings.target with
  | .none => .absent
  | .same => .shared
  | .next => .separate (element settings.shape input (nextIndex (elementIndex settings.index input)))

theorem resolve_of_bindsAll {shape : Shape} {inputs : BoundInputs}
    (h : inputs.BindsAll (shapeDeclarations shape)) :
    ShapeInputs.resolve shape inputs = .ok (shapeInputs shape inputs.expression) := by
  have hreq : ∀ d ∈ shapeDeclarations shape,
      inputs.required d.name = .ok (inputs.expression d.name) := by
    intro d hd
    exact BoundInputs.required_of_bindsAll h hd
  cases shape <;> simp only [shapeDeclarations, List.forall_mem_cons] at hreq
  case line =>
    obtain ⟨hcount, hstart, hend, -⟩ := hreq
    simp [ShapeInputs.resolve, shapeInputs, hcount, hstart, hend]
  case circle =>
    obtain ⟨hcount, hcenter, hnormal, hup, hradius, -⟩ := hreq
    simp [ShapeInputs.resolve, shapeInputs, hcount, hcenter, hnormal, hup, hradius]
  case threeDimensional =>
    obtain ⟨horigin, hx, hy, hz, hcx, hcy, hcz, -⟩ := hreq
    simp [ShapeInputs.resolve, shapeInputs, horigin, hx, hy, hz, hcx, hcy, hcz]

theorem indexExpression_of_bindsAll {source : IndexSource} {inputs : BoundInputs}
    (h : inputs.BindsAll (indexDeclarations source)) :
    indexExpression source inputs = .ok (elementIndex source inputs.expression) := by
  cases source with
  | particleId => rfl
  | custom => exact BoundInputs.required_of_bindsAll h List.mem_cons_self

/-- **The builder succeeds on every input it declares**, and builds its expressions from those of
    the declared names alone. -/
theorem computePositions_of_bindsAll {settings : Settings} {inputs : BoundInputs}
    (h : inputs.BindsAll (declarations settings.shape settings.index)) :
    computePositions settings inputs =
      .ok ⟨element settings.shape inputs.expression (elementIndex settings.index inputs.expression),
        elementTarget settings inputs.expression⟩ := by
  have hshape : inputs.BindsAll (shapeDeclarations settings.shape) := by
    intro d hd
    exact h d (List.mem_append_left _ hd)
  have hindex : inputs.BindsAll (indexDeclarations settings.index) := by
    intro d hd
    exact h d (List.mem_append_right _ hd)
  simp only [computePositions, bind_eq_ok, pure_eq_ok]
  refine ⟨_, resolve_of_bindsAll hshape, _, indexExpression_of_bindsAll hindex, ?_⟩
  rw [elementTarget]
  cases settings.target <;> rfl

theorem block_parameters {settings : Settings} {inputs : BoundInputs}
    (h : inputs.BindsAll settings.block.declarations) :
    settings.block.parameters inputs = .ok (ComputedPositions.named
      ⟨element settings.shape inputs.expression (elementIndex settings.index inputs.expression),
        elementTarget settings inputs.expression⟩) :=
  congrArg (Except.map ComputedPositions.named) (computePositions_of_bindsAll h)

/-- The block asks for no input beyond the ones that it declares. -/
theorem block_contained (settings : Settings) : settings.block.Contained := by
  intro inputs h
  exact ⟨_, block_parameters h⟩

/-- A compiled block has the expressions that are built from its bound inputs. -/
theorem parameters_of_compile {settings : Settings} {slots : List Slot} {compiled : CompiledBlock}
    (h : (settings.block.compile slots).outcome = .ok compiled) :
    ∃ inputs, (BoundInputs.ofSlots (declarations settings.shape settings.index) slots).outcome =
        .ok inputs ∧
      compiled.parameters = ComputedPositions.named
        ⟨element settings.shape inputs.expression (elementIndex settings.index inputs.expression),
          elementTarget settings inputs.expression⟩ := by
  obtain ⟨inputs, parameters, hb, hp, rfl⟩ := Block.compile_eq_ok.mp h
  rw [block_parameters (BoundInputs.bindsAll_ofSlots hb), Except.ok.injEq] at hp
  exact ⟨inputs, hb, hp.symm⟩

/-- The two names under which the source finds the expressions. -/
theorem parameter?_named {compiled : CompiledBlock} {computed : ComputedPositions}
    (h : compiled.parameters = computed.named) :
    compiled.parameter? computedPosition = some ⟨computedPosition, computed.position⟩ ∧
      compiled.parameter? computedTargetPosition =
        computed.target?.map (NamedExpression.mk computedTargetPosition) := by
  have hne : (computedPosition == computedTargetPosition) = false := by decide
  rw [CompiledBlock.parameter?, CompiledBlock.parameter?, h, ComputedPositions.named]
  constructor
  · simp
  · -- the position stands first, and under another name
    rw [List.find?_cons_of_neg (by simp [hne])]
    cases computed.target? <;> simp

/-! ## The position that is meant -/

/-- The position of element `i`, over the values of the inputs by name. -/
def elementPosition? (shape : Shape) (worth : String → Option Value) (i : UInt32) : Option Vec3 :=
  match shape with
  | .line => do
    let start ← worth "Start" >>= Value.asFloat3?
    let finish ← worth "End" >>= Value.asFloat3?
    let count ← worth "Count" >>= Value.asUint?
    return Placement.line start finish i count
  | .circle => do
    let center ← worth "Center" >>= Value.asFloat3?
    let radius ← worth "Radius" >>= Value.asFloat?
    let normal ← worth "Normal" >>= Value.asFloat3?
    let up ← worth "Up" >>= Value.asFloat3?
    let count ← worth "Count" >>= Value.asUint?
    return Placement.circle center radius normal up i count
  | .threeDimensional => do
    let origin ← worth "Origin" >>= Value.asFloat3?
    let axisX ← worth "AxisX" >>= Value.asFloat3?
    let axisY ← worth "AxisY" >>= Value.asFloat3?
    let axisZ ← worth "AxisZ" >>= Value.asFloat3?
    let countX ← worth "CountX" >>= Value.asUint?
    let countY ← worth "CountY" >>= Value.asUint?
    let countZ ← worth "CountZ" >>= Value.asUint?
    return Placement.lattice origin axisX axisY axisZ i countX countY countZ

/-- The index that is meant: the identifier of the particle, or the value of the index input. -/
def elementIndex? (particle : Particle) (source : IndexSource) (worth : String → Option Value) :
    Option UInt32 :=
  match source with
  | .particleId => particle.attribute? .particleId >>= Value.asUint?
  | .custom => worth "Index" >>= Value.asUint?

/-- An input is worth a value of a type, and its expression evaluates to that value. -/
def Denotes (particle : Particle) (worth : String → Option Value) (input : String → Expression)
    (name : String) (type : ValueType) : Prop :=
  ∃ v, worth name = some v ∧ v.type = type ∧ (input name).evaluate particle = .ok v

section Denotes

variable {particle : Particle} {worth : String → Option Value} {input : String → Expression}
  {name : String}

theorem Denotes.uint (h : Denotes particle worth input name .uint32) :
    ∃ n, worth name = some (.uint n) ∧ (input name).evaluate particle = .ok (.uint n) := by
  obtain ⟨v, hw, ht, he⟩ := h
  obtain ⟨n, rfl⟩ := Value.exists_uint ht
  exact ⟨n, hw, he⟩

theorem Denotes.float (h : Denotes particle worth input name .float) :
    ∃ x, worth name = some (.float x) ∧ (input name).evaluate particle = .ok (.float x) := by
  obtain ⟨v, hw, ht, he⟩ := h
  obtain ⟨x, rfl⟩ := Value.exists_float ht
  exact ⟨x, hw, he⟩

theorem Denotes.float3 (h : Denotes particle worth input name .float3) :
    ∃ v, worth name = some (.float3 v) ∧ (input name).evaluate particle = .ok (.float3 v) := by
  obtain ⟨v, hw, ht, he⟩ := h
  obtain ⟨w, rfl⟩ := Value.exists_float3 ht
  exact ⟨w, hw, he⟩

/-- **The position expression evaluates to the position that is meant**, at whatever index. -/
theorem evaluate_element {shape : Shape} {index : Expression} {i : UInt32}
    (h : ∀ d ∈ shapeDeclarations shape, Denotes particle worth input d.name d.valueType)
    (hi : index.evaluate particle = .ok (.uint i)) :
    ∃ p, elementPosition? shape worth i = some p ∧
      (element shape input index).evaluate particle = .ok (.float3 p) := by
  cases shape <;> simp only [shapeDeclarations, List.forall_mem_cons] at h
  case line =>
    obtain ⟨hcount, hstart, hend, -⟩ := h
    obtain ⟨n, wn, en⟩ := hcount.uint
    obtain ⟨a, wa, ea⟩ := hstart.float3
    obtain ⟨b, wb, eb⟩ := hend.float3
    refine ⟨Placement.line a b i n, ?_, ?_⟩
    · simp [elementPosition?, wn, wa, wb, Value.asUint?, Value.asFloat3?]
    · exact Expression.evaluate_line.mpr ⟨a, b, i, n, ea, eb, hi, en, rfl⟩
  case circle =>
    obtain ⟨hcount, hcenter, hnormal, hup, hradius, -⟩ := h
    obtain ⟨n, wn, en⟩ := hcount.uint
    obtain ⟨c, wc, ec⟩ := hcenter.float3
    obtain ⟨z, wz, ez⟩ := hnormal.float3
    obtain ⟨y, wy, ey⟩ := hup.float3
    obtain ⟨r, wr, er⟩ := hradius.float
    refine ⟨Placement.circle c r z y i n, ?_, ?_⟩
    · simp [elementPosition?, wn, wc, wz, wy, wr, Value.asUint?, Value.asFloat?, Value.asFloat3?]
    · exact Expression.evaluate_circle.mpr ⟨c, r, z, y, i, n, ec, er, ez, ey, hi, en, rfl⟩
  case threeDimensional =>
    obtain ⟨horigin, hx, hy, hz, hcx, hcy, hcz, -⟩ := h
    obtain ⟨o, wo, eo⟩ := horigin.float3
    obtain ⟨x, wx, ex⟩ := hx.float3
    obtain ⟨y, wy, ey⟩ := hy.float3
    obtain ⟨z, wz, ez⟩ := hz.float3
    obtain ⟨k, wk, ek⟩ := hcx.uint
    obtain ⟨m, wm, em⟩ := hcy.uint
    obtain ⟨n, wn, en⟩ := hcz.uint
    refine ⟨Placement.lattice o x y z i k m n, ?_, ?_⟩
    · simp [elementPosition?, wo, wx, wy, wz, wk, wm, wn, Value.asUint?, Value.asFloat3?]
    · exact Expression.evaluate_lattice.mpr
        ⟨o, x, y, z, i, k, m, n, eo, ex, ey, ez, hi, ek, em, en, rfl⟩

end Denotes

/-! ## From slots to positions -/

theorem nodup_declarations (shape : Shape) (source : IndexSource) :
    ((declarations shape source).map (·.name)).Nodup := by
  cases shape <;> cases source <;> decide

/-- Every default is of the type that its declaration gives it. -/
theorem default_type {shape : Shape} {source : IndexSource} {d : Declaration}
    (hd : d ∈ declarations shape source) : d.default.type = d.valueType := by
  revert d
  cases shape <;> cases source <;>
    simp [declarations, shapeDeclarations, indexDeclarations, Value.type, Declaration.valueType,
      InputType.valueType]

/-- What the declared input of a name is worth, given the slots. -/
def inputWorth? (settings : Settings) (slots : List Slot) (particle : Particle) (name : String) :
    Option Value :=
  ((declarations settings.shape settings.index).find? (·.name == name)).bind fun d =>
    d.value? particle (BoundInputs.slotValue? slots name)

/-- Wherever a slot binds a declared input to a parameter, the particle has that parameter, with a
    value of the type of the input. Slots that name no declared input do not matter. -/
def Provides (particle : Particle) (declarations : List Declaration) (slots : List Slot) : Prop :=
  ∀ d ∈ declarations, ∀ slot ∈ slots, slot.name = d.name → ∀ name, slot.value = .parameter name →
    (particle.parameter? name).map Value.type = some d.valueType

variable {settings : Settings} {slots : List Slot} {particle : Particle} {inputs : BoundInputs}

/-- Every declared input is bound to the expression that its own declaration makes of its slot. -/
theorem bind_of_ofSlots
    (hb : (BoundInputs.ofSlots (declarations settings.shape settings.index) slots).outcome =
      .ok inputs)
    {d : Declaration} (hd : d ∈ declarations settings.shape settings.index) :
    d.bind (BoundInputs.slotValue? slots d.name) = .ok (inputs.expression d.name) := by
  have hnames := nodup_declarations settings.shape settings.index
  obtain ⟨-, hdeclared⟩ := BoundInputs.ofSlots_eq_ok.mp hb
  obtain ⟨e, hbind, hget⟩ := BoundInputs.get?_bindDeclared hdeclared hnames hd
  rw [hbind, BoundInputs.expression, hget, Option.getD_some]

/-- Every declared input is bound to an expression of what it is worth. -/
theorem denotes_of_ofSlots
    (hb : (BoundInputs.ofSlots (declarations settings.shape settings.index) slots).outcome =
      .ok inputs)
    (hp : Provides particle (declarations settings.shape settings.index) slots) :
    ∀ d ∈ declarations settings.shape settings.index,
      Denotes particle (inputWorth? settings slots particle) inputs.expression d.name
        d.valueType := by
  intro d hd
  have hnames := nodup_declarations settings.shape settings.index
  have hbind := bind_of_ofSlots hb hd
  have hparameter : ∀ name, BoundInputs.slotValue? slots d.name = some (.parameter name) →
      (particle.parameter? name).map Value.type = some d.valueType := by
    intro name hs
    obtain ⟨slot, hslot, hname, hvalue⟩ := BoundInputs.exists_slot_of_slotValue? hs
    exact hp d hd slot hslot hname name hvalue
  obtain ⟨v, hv, ht, he⟩ := Declaration.evaluate_bind (default_type hd) hbind hparameter
  refine ⟨v, ?_, ht, he⟩
  simp [inputWorth?, find?_of_nodup_names hnames hd, hv]

/-- The index expression evaluates to the index that is meant. -/
theorem evaluate_elementIndex {worth : String → Option Value} {input : String → Expression}
    {source : IndexSource}
    (hid : source = .particleId → ∃ n, particle.attribute? .particleId = some (.uint n))
    (h : ∀ d ∈ indexDeclarations source, Denotes particle worth input d.name d.valueType) :
    ∃ i, elementIndex? particle source worth = some i ∧
      (elementIndex source input).evaluate particle = .ok (.uint i) := by
  cases source with
  | particleId =>
    obtain ⟨n, hn⟩ := hid rfl
    refine ⟨n, ?_, Expression.evaluate_attr.mpr ⟨hn, rfl⟩⟩
    simp [elementIndex?, hn, Value.asUint?]
  | custom =>
    have hindex : Denotes particle worth input "Index" .uint32 := h _ List.mem_cons_self
    obtain ⟨n, hw, he⟩ := hindex.uint
    refine ⟨n, ?_, he⟩
    simp [elementIndex?, hw, Value.asUint?]

/-- The next index is one more, and starts over after the greatest word. -/
theorem evaluate_nextIndex {index : Expression} {i : UInt32}
    (hi : index.evaluate particle = .ok (.uint i)) :
    (nextIndex index).evaluate particle = .ok (.uint (i + 1)) :=
  Expression.evaluate_binary.mpr ⟨_, .uint 1, hi, rfl, rfl⟩

/-- What a compiled block computes under a name for a particle. -/
def computed? (compiled : CompiledBlock) (particle : Particle) (name : String) :
    Option (Evaluated Value) :=
  (compiled.parameter? name).map fun named => named.expression.evaluate particle

/-- **A compiled block places a particle where its inputs say.** Take any settings, any slots that
    compile, and a particle that has its identifier (where that is the index) and the parameters that
    slots of declared inputs name. Then the computed position is the position of the meant element
    over what the inputs are worth, and the target is none, the same position, or the position of the
    next element. -/
theorem compile_places_particle {compiled : CompiledBlock}
    (hc : (settings.block.compile slots).outcome = .ok compiled)
    (hid : settings.index = .particleId → ∃ n, particle.attribute? .particleId = some (.uint n))
    (hp : Provides particle (declarations settings.shape settings.index) slots) :
    ∃ i p, elementIndex? particle settings.index (inputWorth? settings slots particle) = some i ∧
      elementPosition? settings.shape (inputWorth? settings slots particle) i = some p ∧
      computed? compiled particle computedPosition = some (.ok (.float3 p)) ∧
      match settings.target with
      | .none => compiled.parameter? computedTargetPosition = none
      | .same => computed? compiled particle computedTargetPosition = some (.ok (.float3 p))
      | .next => ∃ q,
        elementPosition? settings.shape (inputWorth? settings slots particle) (i + 1) = some q ∧
        computed? compiled particle computedTargetPosition = some (.ok (.float3 q)) := by
  obtain ⟨inputs, hb, hparams⟩ := parameters_of_compile hc
  obtain ⟨hposition, htarget⟩ := parameter?_named hparams
  have hinput := denotes_of_ofSlots hb hp
  have hshape := fun d hd => hinput d (List.mem_append_left _ hd)
  have hindex := fun d hd => hinput d (List.mem_append_right _ hd)
  obtain ⟨i, hi, ei⟩ := evaluate_elementIndex hid hindex
  obtain ⟨p, hpos, ep⟩ := evaluate_element hshape ei
  refine ⟨i, p, hi, hpos, by simp [computed?, hposition, ep], ?_⟩
  cases hmode : settings.target with
  | none => simp [htarget, ComputedPositions.target?, elementTarget, hmode]
  | same => simp [computed?, htarget, ComputedPositions.target?, elementTarget, hmode, ep]
  | next =>
    -- the same inputs, at the index after
    obtain ⟨q, hq, eq⟩ := evaluate_element hshape (evaluate_nextIndex ei)
    exact ⟨q, hq, by simp [computed?, htarget, ComputedPositions.target?, elementTarget, hmode, eq]⟩

/-- A ring whose elements are picked by an input, each moving on to the next one. -/
def ring : Settings := ⟨.circle, .custom, .next⟩

/-- Slots of a ring. The normal is no unit vector, and one slot names no input of a ring. -/
def ringSlots : List Slot :=
  [.ofParameter "Count" "size", .ofValue "Normal" (.float3 (.splat 2)),
    .ofParameter "Start" "elsewhere", .ofParameter "Index" "step"]

/-- A particle at the last word, so that the next element is the first one. -/
def lastStep : Particle :=
  (Particle.empty.withParameter "size" (.uint 3)).withParameter "step" (.uint 4294967295)

/-- From the last word the target wraps around to the first element. -/
theorem ring_places_lastStep : ∃ compiled p q,
    (ring.block.compile ringSlots).outcome = .ok compiled ∧
      elementPosition? .circle (inputWorth? ring ringSlots lastStep) 4294967295 = some p ∧
      computed? compiled lastStep computedPosition = some (.ok (.float3 p)) ∧
      elementPosition? .circle (inputWorth? ring ringSlots lastStep) 0 = some q ∧
      computed? compiled lastStep computedTargetPosition = some (.ok (.float3 q)) := by
  have hprovides : Provides lastStep (declarations ring.shape ring.index) ringSlots := by
    simp [Provides, ring, declarations, shapeDeclarations, indexDeclarations, ringSlots,
      Slot.ofParameter, Slot.ofValue, Slot.new, lastStep, Particle.withParameter, Particle.empty,
      Value.type, Declaration.valueType, InputType.valueType]
  obtain ⟨compiled, hc⟩ : ∃ compiled, (ring.block.compile ringSlots).outcome = .ok compiled :=
    ⟨_, rfl⟩
  have hindex : elementIndex? lastStep .custom (inputWorth? ring ringSlots lastStep) =
      some 4294967295 := rfl
  have hcustom : ring.index ≠ .particleId := by decide
  obtain ⟨i, p, hi, hp, ep, q, hq, eq⟩ :=
    compile_places_particle hc (fun h => absurd h hcustom) hprovides
  obtain rfl : 4294967295 = i := Option.some.inj (hindex.symm.trans hi)
  exact ⟨compiled, p, q, hc, hp, ep, hq, eq⟩

end Sequential
end EffectGraph
