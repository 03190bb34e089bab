import EffectGraph.Proofs.Compilation

/-!
# `Proofs.Exposure` — which compiled contexts can be evaluated

A slot may expose an input under any parameter name, and the type of the parameter is the type of
the input. Nothing keeps two slots from exposing inputs of different types under one name: such a
context compiles, and no particle can supply that name at both types.

This is the only obstacle. The expressions of a compiled sequence block are well-typed and divide
nothing, so a particle that supplies every exposed name at its type evaluates them all, and such a
particle exists as soon as each name is exposed at one type.
-/

namespace EffectGraph

open Outcome

/-! ## Expressions that evaluate whenever they are supplied -/

namespace Expression

/-- The node is no division. -/
def Undivided : Expression → Prop
  | .binary op _ _ => op ≠ .divide ∧ op ≠ .modulus
  | _ => True

/-- Every node has operands of the types that it asks for and is no division. -/
def Safe (e : Expression) : Prop := ∀ node ∈ e.nodes, node.OperandsFit ∧ node.Undivided

theorem safe_iff {e : Expression} :
    e.Safe ↔ (e.OperandsFit ∧ e.Undivided) ∧ ∀ operand ∈ e.operands, operand.Safe :=
  forall_nodes_iff

/-- A safe expression that is supplied with what it reads has a value. -/
theorem Safe.exists_evaluate {e : Expression} (h : e.Safe) {particle : Particle}
    (hs : particle.Supplies e) : ∃ v, e.evaluate particle = .ok v := by
  have hwell : e.WellTyped := fun node hn => (h node hn).1
  rcases settles_evaluate hwell hs with hv | ⟨-, op, lhs, rhs, hn, hop, -⟩
  · exact hv
  · -- a zero divisor would be that of a division
    obtain ⟨hdivide, hmodulus⟩ := (h _ hn).2
    rcases hop with h | h
    · exact absurd h hdivide
    · exact absurd h hmodulus

/-- The name and the type under which a node exposes a parameter. -/
def exposed? : Expression → Option (String × ValueType)
  | .parameter name type => some (name, type)
  | _ => none

/-- The parameters that an expression exposes, with their types. -/
def exposed (e : Expression) : List (String × ValueType) := e.nodes.filterMap exposed?

theorem mem_exposed {e : Expression} {name : String} {type : ValueType} :
    (name, type) ∈ e.exposed ↔ .parameter name type ∈ e.nodes := by
  rw [exposed, List.mem_filterMap]
  constructor
  · rintro ⟨node, hn, he⟩
    cases node <;> simp only [exposed?, reduceCtorEq, Option.some.injEq, Prod.mk.injEq] at he
    obtain ⟨rfl, rfl⟩ := he
    exact hn
  · intro hn
    exact ⟨_, hn, rfl⟩

end Expression

/-- An input of a type that is bound to a safe expression of that type. -/
theorem Declaration.safe_bind {d : Declaration} {slot? : Option SlotValue} {e : Expression}
    (hd : d.default.type = d.valueType) (h : d.bind slot? = .ok e) : e.Safe := by
  obtain ⟨hl, rfl⟩ := bind_eq_ok.mp h
  have hsource : (d.source slot?).Safe := by
    rw [Expression.safe_iff]
    cases slot? with
    | none => simp [source, Expression.OperandsFit, Expression.Undivided, Expression.operands]
    | some value =>
      cases value <;>
        simp [source, Expression.OperandsFit, Expression.Undivided, Expression.operands]
  cases hdir : d.type with
  | direction =>
    have ht : (d.source slot?).type = .float3 := by
      rw [source_type hd hl, valueType, hdir]; rfl
    simp only [wrap, hdir]
    -- the direction is wrapped once more, and its source has the type of a vector
    refine Expression.safe_iff.mpr ⟨⟨ht, trivial⟩, ?_⟩
    simpa [Expression.operands] using hsource
  | _ => simpa only [wrap, hdir] using hsource

namespace Sequential

variable {settings : Settings} {input : String → Expression} {index : Expression}

/-- **The position over safe expressions of the declared types is safe.** The operators ask for the
    very types under which their operands are declared. -/
theorem safe_element {shape : Shape}
    (h : ∀ d ∈ shapeDeclarations shape, (input d.name).type = d.valueType ∧ (input d.name).Safe)
    (hi : index.type = .uint32 ∧ index.Safe) : (element shape input index).Safe := by
  rw [Expression.safe_iff]
  cases shape <;>
    simp only [shapeDeclarations, List.forall_mem_cons, Declaration.valueType,
      InputType.valueType] at h <;>
    simp [element, shapeInputs, ShapeInputs.position, Expression.OperandsFit, Expression.Undivided,
      Expression.operands, h, hi]

theorem safe_elementIndex {source : IndexSource}
    (h : ∀ d ∈ indexDeclarations source, (input d.name).type = d.valueType ∧ (input d.name).Safe) :
    (elementIndex source input).type = .uint32 ∧ (elementIndex source input).Safe := by
  cases source with
  | particleId =>
    refine ⟨rfl, Expression.safe_iff.mpr ?_⟩
    simp [elementIndex, Expression.OperandsFit, Expression.Undivided, Expression.operands]
  | custom => exact h _ List.mem_cons_self

theorem safe_nextIndex (hi : index.type = .uint32 ∧ index.Safe) :
    (nextIndex index).type = .uint32 ∧ (nextIndex index).Safe := by
  have hone : (Expression.one .uint32).Safe := Expression.safe_iff.mpr
    (by simp [Expression.one, Expression.OperandsFit, Expression.Undivided, Expression.operands])
  obtain ⟨htype, hsafe⟩ := hi
  constructor
  · show index.type.promote .uint32 = .uint32
    rw [htype]; rfl
  · refine Expression.safe_iff.mpr ⟨⟨?_, ?_⟩, ?_⟩
    · exact .inl ⟨htype, rfl⟩
    · exact ⟨by decide, by decide⟩
    · simp [nextIndex, Expression.operands, hsafe, hone]

/-- Every declared input is bound to a safe expression of its type. -/
theorem safe_of_ofSlots {slots : List Slot} {inputs : BoundInputs}
    (hb : (BoundInputs.ofSlots (declarations settings.shape settings.index) slots).outcome =
      .ok inputs) :
    ∀ d ∈ declarations settings.shape settings.index,
      (inputs.expression d.name).type = d.valueType ∧ (inputs.expression d.name).Safe := by
  intro d hd
  have hdefault := default_type hd
  have hbind := bind_of_ofSlots hb hd
  exact ⟨Declaration.bind_type hdefault hbind, Declaration.safe_bind hdefault hbind⟩

/-- All expressions of a compiled sequence block are safe. -/
theorem safe_of_compile {slots : List Slot} {compiled : CompiledBlock}
    (h : (settings.block.compile slots).outcome = .ok compiled) :
    ∀ named ∈ compiled.parameters, named.expression.Safe := by
  obtain ⟨inputs, hb, hparams⟩ := parameters_of_compile h
  have hinput := safe_of_ofSlots hb
  have hshape := fun d hd => hinput d (List.mem_append_left _ hd)
  have hindex := safe_elementIndex fun d hd => hinput d (List.mem_append_right _ hd)
  have hposition := safe_element hshape hindex
  rw [hparams, ComputedPositions.named]
  cases hmode : settings.target with
  | none => simpa [elementTarget, hmode, ComputedPositions.target?] using hposition
  | same => simpa [elementTarget, hmode, ComputedPositions.target?] using hposition
  | next =>
    have htarget := safe_element hshape (safe_nextIndex hindex)
    simp [elementTarget, hmode, ComputedPositions.target?, hposition, htarget]

end Sequential

/-! ## Contexts -/

namespace CompiledContext

/-- The particle evaluates every expression of every block. -/
def EvaluatesAt (compiled : CompiledContext) (particle : Particle) : Prop :=
  ∀ block ∈ compiled.blocks, ∀ named ∈ block.parameters,
    ∃ v, named.expression.evaluate particle = .ok v

/-- The parameters that the expressions of the blocks expose, with the types they are used at. -/
def exposed (compiled : CompiledContext) : List (String × ValueType) :=
  compiled.blocks.flatMap fun block => block.parameters.flatMap (·.expression.exposed)

/-- No name is exposed at two types. -/
def ExposesOnce (compiled : CompiledContext) : Prop :=
  ∀ use ∈ compiled.exposed, ∀ other ∈ compiled.exposed, use.1 = other.1 → use.2 = other.2

instance (compiled : CompiledContext) : Decidable compiled.ExposesOnce :=
  inferInstanceAs (Decidable (∀ use ∈ compiled.exposed, ∀ other ∈ compiled.exposed, _ → _))

/-- The particle that gives each exposed name a value of the first type it is exposed at. -/
def particle (compiled : CompiledContext) : Particle where
  attribute? which := some (.one which.type)
  parameter? name := (compiled.exposed.find? (·.1 == name)).map fun use => .one use.2

variable {compiled : CompiledContext}

theorem mem_exposed {name : String} {type : ValueType} :
    (name, type) ∈ compiled.exposed ↔ ∃ block ∈ compiled.blocks, ∃ named ∈ block.parameters,
      .parameter name type ∈ named.expression.nodes := by
  simp [exposed, Expression.mem_exposed]

/-- A particle that evaluates everything has a value for each exposed name, and its type. -/
theorem EvaluatesAt.type_of_exposed {particle : Particle} (h : compiled.EvaluatesAt particle)
    {name : String} {type : ValueType} (he : (name, type) ∈ compiled.exposed) :
    (particle.parameter? name).map Value.type = some type := by
  obtain ⟨block, hb, named, hn, hnode⟩ := mem_exposed.mp he
  obtain ⟨v, hv⟩ := h block hb named hn
  exact Expression.supplies_of_evaluate hv _ hnode

theorem type_one (type : ValueType) : (Value.one type).type = type := by
  cases type <;> rfl

theorem ExposesOnce.parameter?_particle (h : compiled.ExposesOnce) {name : String}
    {type : ValueType} (he : (name, type) ∈ compiled.exposed) :
    (compiled.particle.parameter? name).map Value.type = some type := by
  cases hf : compiled.exposed.find? (·.1 == name) with
  | none => exact absurd (List.find?_eq_none.mp hf _ he) (by simp)
  | some use =>
    obtain ⟨name', type'⟩ := use
    obtain rfl : name' = name := by simpa using List.find?_some hf
    have htype : type = type' := h _ he _ (List.mem_of_find?_eq_some hf) rfl
    simp [particle, hf, type_one, htype]

/-- When no name is exposed at two types, the particle of the context supplies all expressions. -/
theorem ExposesOnce.supplies (h : compiled.ExposesOnce) {block : CompiledBlock}
    {named : NamedExpression} (hb : block ∈ compiled.blocks) (hn : named ∈ block.parameters) :
    compiled.particle.Supplies named.expression := by
  intro node hnode
  cases node with
  | attr which => simp [Particle.SuppliesNode, particle, type_one]
  | parameter name type =>
    exact h.parameter?_particle (mem_exposed.mpr ⟨block, hb, named, hn, hnode⟩)
  | _ => trivial

end CompiledContext

namespace Context

variable {context : Context} {compiled : CompiledContext}

/-- All expressions of a context compiled with the built-in kinds are safe. -/
theorem safe_of_compile (h : (context.compile Registry.default).outcome = .ok compiled) :
    ∀ block ∈ compiled.blocks, ∀ named ∈ block.parameters, named.expression.Safe := by
  intro block hb
  obtain ⟨node, -, kind, built, inputs, hp, hc⟩ :=
    exists_of_mem_right (forall₂_yields Registry.default_contained h) hb
  obtain ⟨settings, rfl⟩ := Registry.exists_settings_of_build hp.registered hp.builds
  exact Sequential.safe_of_compile hc

/-- **A compiled context can be evaluated exactly when it exposes each name at one type.** One
    particle then evaluates every expression of every block; if a name is exposed at two types, no
    particle does. -/
theorem evaluates_iff_exposesOnce
    (h : (context.compile Registry.default).outcome = .ok compiled) :
    (∃ particle, compiled.EvaluatesAt particle) ↔ compiled.ExposesOnce := by
  constructor
  · -- the value of a name has one type only
    rintro ⟨particle, hp⟩ ⟨name, type⟩ hu ⟨name', type'⟩ hu' rfl
    have htype : (particle.parameter? name).map Value.type = some type := hp.type_of_exposed hu
    rw [hp.type_of_exposed hu'] at htype
    exact (Option.some.inj htype).symm
  · intro honce
    refine ⟨compiled.particle, ?_⟩
    intro block hb named hn
    have hsafe : named.expression.Safe := safe_of_compile h block hb named hn
    exact hsafe.exists_evaluate (honce.supplies hb hn)

/-- A ring and a line, with parameters for their counts and for the start of the line. -/
def ringAndLine (ringSize lineSize start : String) : Context :=
  ⟨.nil, "spray", .update, .particle,
    [.sequential ⟨.circle, .particleId, .same⟩ [.ofParameter "Count" ringSize],
      .sequential {} [.ofParameter "Count" lineSize, .ofParameter "Start" start]], .null⟩

/-- Two blocks may share a name for inputs of one type. -/
theorem ringAndLine_evaluates :
    ∃ compiled, ((ringAndLine "size" "size" "start").compile .default).outcome = .ok compiled ∧
      compiled.ExposesOnce ∧ ∃ particle, compiled.EvaluatesAt particle := by
  obtain ⟨compiled, hc, honce⟩ : ∃ compiled,
      ((ringAndLine "size" "size" "start").compile .default).outcome = .ok compiled ∧
        compiled.ExposesOnce := ⟨_, rfl, by decide⟩
  exact ⟨compiled, hc, honce, (evaluates_iff_exposesOnce hc).mpr honce⟩

/-- A name that is shared by inputs of two types compiles, and nothing evaluates it. -/
theorem ringAndLine_never_evaluates :
    ∃ compiled, ((ringAndLine "size" "shared" "shared").compile .default).outcome = .ok compiled ∧
      ("shared", .uint32) ∈ compiled.exposed ∧ ("shared", .float3) ∈ compiled.exposed ∧
      ∀ particle, ¬ compiled.EvaluatesAt particle := by
  obtain ⟨compiled, hc, hcount, hstart⟩ : ∃ compiled,
      ((ringAndLine "size" "shared" "shared").compile .default).outcome = .ok compiled ∧
        ("shared", .uint32) ∈ compiled.exposed ∧ ("shared", .float3) ∈ compiled.exposed :=
    ⟨_, rfl, by decide, by decide⟩
  refine ⟨compiled, hc, hcount, hstart, fun particle hp => ?_⟩
  have htypes : some ValueType.uint32 = some .float3 :=
    (hp.type_of_exposed hcount).symm.trans (hp.type_of_exposed hstart)
  cases htypes

end Context
end EffectGraph
