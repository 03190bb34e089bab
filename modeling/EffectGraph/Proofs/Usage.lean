import EffectGraph.Proofs.Compilation
import EffectGraph.Proofs.Merging

/-!
# `Proofs.Usage` — a compiled context declares the attributes that its code uses

A block says which attributes it uses, and apart from that it builds expressions and source. Here the
two are brought together. The inputs of a sequence block are bound to literals, parameters and
defaults, so nothing of them reads an attribute; what is read is the identifier of the particle, and
only where it serves as the index. What is assigned stands in the source.

`Sequential.Declares` is this agreement for one block, and `compile_declares_uses` carries it through
the merge over the blocks of a context.
-/

namespace EffectGraph

open Outcome

/-! ## What expressions read -/

namespace Expression

/-- The attribute occurs in the expression. -/
def Reads (e : Expression) (a : Attribute) : Prop := .attr a ∈ e.nodes

theorem attribute?_eq_some {e : Expression} {a : Attribute} : e.attribute? = some a ↔ e = .attr a := by
  cases e <;> simp [attribute?]

theorem mem_filterMap_attribute? {nodes : List Expression} {a : Attribute} :
    a ∈ nodes.filterMap attribute? ↔ .attr a ∈ nodes := by
  simp [List.mem_filterMap, attribute?_eq_some]

theorem mem_attributes {e : Expression} {a : Attribute} : a ∈ e.attributes ↔ e.Reads a := by
  rw [attributes, List.mem_eraseDups, mem_filterMap_attribute?, Reads]

/-- An expression reads what it is itself and what its operands read. -/
theorem reads_iff {e : Expression} {a : Attribute} :
    e.Reads a ↔ e = .attr a ∨ ∃ operand ∈ e.operands, operand.Reads a := by
  constructor
  · intro h
    rcases eq_or_exists_operand_of_mem_nodes h with hself | ⟨operand, ho, hn⟩
    · exact .inl hself.symm
    · exact .inr ⟨operand, ho, hn⟩
  · rintro (rfl | ⟨operand, ho, hn⟩)
    · exact self_mem_nodes _
    · exact mem_nodes_of_operand ho hn

end Expression

/-- Nothing that an input can be bound to reads an attribute. -/
theorem Declaration.not_reads_bind {d : Declaration} {slot? : Option SlotValue} {e : Expression}
    (h : d.bind slot? = .ok e) (a : Attribute) : ¬ e.Reads a := by
  obtain ⟨-, rfl⟩ := bind_eq_ok.mp h
  have hsource : ¬ (d.source slot?).Reads a := by
    rw [Expression.reads_iff]
    match slot? with
    | none => simp [source, Expression.operands]
    | some (.literal value) => simp [source, Expression.operands]
    | some (.parameter name) => simp [source, Expression.operands]
  cases hdir : d.type with
  | direction =>
    rw [wrap, hdir, Expression.reads_iff]
    simpa [Expression.operands] using hsource
  | _ => simpa only [wrap, hdir] using hsource

/-! ## One sequence block -/

namespace CompiledBlock

/-- Some expression of the block reads the attribute. -/
def Reads (block : CompiledBlock) (a : Attribute) : Prop :=
  ∃ named ∈ block.parameters, a ∈ named.expression.attributes

/-- The source of the block contains a statement. -/
def Contains (block : CompiledBlock) (statement : String) : Prop :=
  statement.toList <:+: block.source.toList

end CompiledBlock

namespace Sequential

/-- The statement that moves the target position. -/
def targetStatement : String := "targetPosition += computedTargetPosition;"

/-- It is the addition that a block with a target is written with. -/
theorem addition_target : addition .targetPosition computedTargetPosition = targetStatement := rfl

/-- How a sequence block uses an attribute if it does: the identifier is only read, and a position is
    read to be added to. -/
def usedMode : Attribute → AccessMode
  | .particleId => .read
  | .position => .readWrite
  | .targetPosition => .readWrite

/-- The requirements of a compiled block are the uses that its code makes of the attributes. -/
structure Declares (block : CompiledBlock) : Prop where
  modes : Requirement.HaveModes usedMode block.requirements
  particleId_iff : .particleId ∈ Requirement.attributes block.requirements ↔ block.Reads .particleId
  position : .position ∈ Requirement.attributes block.requirements
  targetPosition_iff : .targetPosition ∈ Requirement.attributes block.requirements ↔
    block.Contains targetStatement
  not_reads_position : ¬ block.Reads .position
  not_reads_targetPosition : ¬ block.Reads .targetPosition

variable {settings : Settings} {input : String → Expression} {index : Expression} {a : Attribute}

/-- An element reads what its index reads, if its inputs read nothing. -/
theorem reads_element {shape : Shape}
    (h : ∀ d ∈ shapeDeclarations shape, ¬ (input d.name).Reads a) :
    (element shape input index).Reads a ↔ index.Reads a := by
  rw [Expression.reads_iff]
  cases shape <;> simp only [shapeDeclarations, List.forall_mem_cons] at h <;>
    simp [element, shapeInputs, ShapeInputs.position, Expression.operands, h]

theorem reads_elementIndex {source : IndexSource}
    (h : ∀ d ∈ indexDeclarations source, ¬ (input d.name).Reads a) :
    (elementIndex source input).Reads a ↔ source = .particleId ∧ a = .particleId := by
  cases source with
  | particleId =>
    rw [elementIndex, Expression.reads_iff]
    simp [Expression.operands, eq_comm]
  | custom =>
    have hindex : ¬ (input "Index").Reads a := h _ List.mem_cons_self
    simpa [elementIndex] using hindex

theorem reads_nextIndex : (nextIndex index).Reads a ↔ index.Reads a := by
  have hone : ¬ (Expression.one .uint32).Reads a := by
    rw [Expression.reads_iff]
    simp [Expression.one, Expression.operands]
  rw [Expression.reads_iff]
  simp [nextIndex, Expression.operands, hone]

variable {slots : List Slot} {compiled : CompiledBlock}

/-- **All expressions of a block read the same**: the identifier of the particle where it is the
    index, and nothing else. -/
theorem reads_parameter (h : (settings.block.compile slots).outcome = .ok compiled)
    {named : NamedExpression} (hn : named ∈ compiled.parameters) (a : Attribute) :
    named.expression.Reads a ↔ settings.index = .particleId ∧ a = .particleId := by
  obtain ⟨inputs, hb, hparams⟩ := parameters_of_compile h
  have hinput : ∀ d ∈ declarations settings.shape settings.index,
      ¬ (inputs.expression d.name).Reads a := by
    intro d hd
    exact Declaration.not_reads_bind (bind_of_ofSlots hb hd) a
  have hshape : ∀ d ∈ shapeDeclarations settings.shape, ¬ (inputs.expression d.name).Reads a := by
    intro d hd
    exact hinput d (List.mem_append_left _ hd)
  have hindex : (elementIndex settings.index inputs.expression).Reads a ↔
      settings.index = .particleId ∧ a = .particleId :=
    reads_elementIndex fun d hd => hinput d (List.mem_append_right _ hd)
  rw [hparams, ComputedPositions.named] at hn
  rcases List.mem_cons.mp hn with rfl | htarget
  · exact (reads_element hshape).trans hindex
  · cases hmode : settings.target <;>
      simp [elementTarget, hmode, ComputedPositions.target?] at htarget
    case same =>
      subst htarget
      exact (reads_element hshape).trans hindex
    case next =>
      subst htarget
      exact (reads_element hshape).trans (reads_nextIndex.trans hindex)

theorem reads_block (h : (settings.block.compile slots).outcome = .ok compiled) (a : Attribute) :
    compiled.Reads a ↔ settings.index = .particleId ∧ a = .particleId := by
  constructor
  · rintro ⟨named, hn, ha⟩
    exact (reads_parameter h hn a).mp (Expression.mem_attributes.mp ha)
  · intro hread
    -- there is an expression at all, since the position is computed in every mode
    obtain ⟨inputs, -, hparams⟩ := parameters_of_compile h
    obtain ⟨named, hn⟩ : ∃ named, named ∈ compiled.parameters := by
      rw [hparams]
      exact ⟨_, List.mem_cons_self⟩
    exact ⟨named, hn, Expression.mem_attributes.mpr ((reads_parameter h hn a).mpr hread)⟩

/-- The statement for the target stands in the source exactly when there is a target. -/
theorem targetStatement_infix_source (hasTarget : Bool) :
    targetStatement.toList <:+: (source hasTarget).toList ↔ hasTarget = true := by
  cases hasTarget with
  | true =>
    refine iff_of_true ?_ rfl
    have hsource : (source true).toList =
        (addition .position computedPosition ++ "\n").toList ++ targetStatement.toList := by
      rw [← String.toList_append, String.append_assoc, ← addition_target]
      rfl
    rw [hsource]
    exact (List.suffix_append _ _).isInfix
  | false =>
    -- the name of the computed target has a letter that the other statement lacks
    have hstatement : 'T' ∈ targetStatement.toList := by decide
    have hsource : 'T' ∉ (source false).toList := by decide
    refine iff_of_false ?_ Bool.false_ne_true
    intro hstands
    exact hsource (hstands.subset hstatement)

/-- **A block declares what its code uses.** -/
theorem declares_of_compile (h : (settings.block.compile slots).outcome = .ok compiled) :
    Declares compiled := by
  have hreads := reads_block h
  obtain ⟨inputs, parameters, -, -, rfl⟩ := Block.compile_eq_ok.mp h
  constructor
  case modes =>
    show Requirement.HaveModes usedMode (requirements settings.index settings.target)
    cases settings.index <;> cases settings.target <;> decide
  case particleId_iff =>
    rw [hreads]
    show _ ∈ Requirement.attributes (requirements settings.index settings.target) ↔ _
    cases settings.index <;> cases settings.target <;> decide
  case position =>
    show _ ∈ Requirement.attributes (requirements settings.index settings.target)
    cases settings.index <;> cases settings.target <;> decide
  case targetPosition_iff =>
    rw [CompiledBlock.Contains]
    show _ ∈ Requirement.attributes (requirements settings.index settings.target) ↔
      targetStatement.toList <:+: (source settings.target.hasTarget).toList
    rw [targetStatement_infix_source]
    cases settings.index <;> cases settings.target <;> decide
  case not_reads_position => simp [hreads]
  case not_reads_targetPosition => simp [hreads]

end Sequential

/-! ## Contexts -/

namespace Context

variable {context : Context} {compiled : CompiledContext}

/-- All blocks of a context compiled with the built-in kinds declare what their code uses. -/
theorem declares_of_mem (h : (context.compile Registry.default).outcome = .ok compiled)
    {block : CompiledBlock} (hb : block ∈ compiled.blocks) : Sequential.Declares block := by
  obtain ⟨node, -, kind, built, inputs, hp, hc⟩ :=
    exists_of_mem_right (forall₂_yields Registry.default_contained h) hb
  obtain ⟨settings, rfl⟩ := Registry.exists_settings_of_build hp.registered hp.builds
  exact Sequential.declares_of_compile hc

theorem requirements_eq_merge {registry : Registry}
    (h : (context.compile registry).outcome = .ok compiled) :
    compiled.requirements = Requirement.merge [] (compiled.blocks.flatMap (·.requirements)) := by
  obtain ⟨blocks, -, rfl⟩ := compile_eq_ok.mp h
  rfl

/-- The attributes of a compiled context are those of its blocks, as they first occur. -/
theorem attributes_eq_eraseDups {registry : Registry}
    (h : (context.compile registry).outcome = .ok compiled) :
    Requirement.attributes compiled.requirements =
      (compiled.blocks.flatMap fun block => Requirement.attributes block.requirements).eraseDups := by
  rw [requirements_eq_merge h, Requirement.attributes_merge_nil, Requirement.attributes,
    List.map_flatMap]
  rfl

/-- An attribute is declared with its mode exactly when some block declares it. -/
theorem mem_requirements_iff (h : (context.compile Registry.default).outcome = .ok compiled)
    {a : Attribute} {mode : AccessMode} :
    ⟨a, mode⟩ ∈ compiled.requirements ↔ mode = Sequential.usedMode a ∧
      ∃ block ∈ compiled.blocks, a ∈ Requirement.attributes block.requirements := by
  have hmodes : Requirement.HaveModes Sequential.usedMode compiled.requirements := by
    rw [requirements_eq_merge h]
    refine Requirement.HaveModes.merge (by simp [Requirement.HaveModes]) ?_
    intro requirement hr
    obtain ⟨block, hb, hr⟩ := List.mem_flatMap.mp hr
    exact (declares_of_mem h hb).modes requirement hr
  have hattr : a ∈ Requirement.attributes compiled.requirements ↔
      ∃ block ∈ compiled.blocks, a ∈ Requirement.attributes block.requirements := by
    rw [attributes_eq_eraseDups h, List.mem_eraseDups, List.mem_flatMap]
  rw [← hattr]
  constructor
  · intro hr
    exact ⟨hmodes _ hr, List.mem_map_of_mem hr⟩
  · rintro ⟨rfl, ha⟩
    obtain ⟨requirement, hr, rfl⟩ := List.mem_map.mp ha
    rw [← hmodes requirement hr]
    exact hr

/-- **A compiled context declares the attributes that its code uses.** With the built-in kinds,

    * no attribute is declared twice;
    * the identifier is declared, to be read, exactly when some expression reads it;
    * the position is declared, to be read and written, exactly when there is a block;
    * the target position is declared, to be read and written, exactly when the source of some block
      contains the statement that assigns it;
    * no expression reads a position or a target position;
    * the attributes stand in the order of their first appearance over the blocks, which are what the
      enabled nodes compile to, in order. -/
theorem compile_declares_uses (h : (context.compile Registry.default).outcome = .ok compiled) :
    (Requirement.attributes compiled.requirements).Nodup ∧
    (∀ mode, ⟨.particleId, mode⟩ ∈ compiled.requirements ↔
      mode = .read ∧ ∃ block ∈ compiled.blocks, ∃ named ∈ block.parameters,
        .particleId ∈ named.expression.attributes) ∧
    (∀ mode, ⟨.position, mode⟩ ∈ compiled.requirements ↔
      mode = .readWrite ∧ compiled.blocks ≠ []) ∧
    (∀ mode, ⟨.targetPosition, mode⟩ ∈ compiled.requirements ↔
      mode = .readWrite ∧ ∃ block ∈ compiled.blocks, block.Contains Sequential.targetStatement) ∧
    (∀ block ∈ compiled.blocks, ∀ named ∈ block.parameters,
      .position ∉ named.expression.attributes ∧ .targetPosition ∉ named.expression.attributes) ∧
    Requirement.attributes compiled.requirements =
      (compiled.blocks.flatMap fun block => Requirement.attributes block.requirements).eraseDups ∧
    List.Forall₂ (fun node => node.Yields Registry.default context.stage context.data)
      (enabled context.nodes) compiled.blocks := by
  have hdeclares : ∀ block ∈ compiled.blocks, Sequential.Declares block := by
    intro block hb
    exact declares_of_mem h hb
  refine ⟨?nodup, ?particleId, ?position, ?targetPosition, ?reads, attributes_eq_eraseDups h,
    forall₂_yields Registry.default_contained h⟩
  case nodup =>
    rw [requirements_eq_merge h]
    exact Requirement.nodup_merge (by simp [Requirement.attributes])
  case particleId =>
    intro mode
    rw [mem_requirements_iff h]
    refine and_congr_right fun _ => exists_congr fun block => and_congr_right fun hb => ?_
    exact (hdeclares block hb).particleId_iff
  case position =>
    intro mode
    rw [mem_requirements_iff h]
    refine and_congr_right fun _ => ?_
    constructor
    · rintro ⟨block, hb, -⟩
      exact List.ne_nil_of_mem hb
    · intro hne
      obtain ⟨block, hb⟩ := List.exists_mem_of_ne_nil _ hne
      exact ⟨block, hb, (hdeclares block hb).position⟩
  case targetPosition =>
    intro mode
    rw [mem_requirements_iff h]
    refine and_congr_right fun _ => exists_congr fun block => and_congr_right fun hb => ?_
    exact (hdeclares block hb).targetPosition_iff
  case reads =>
    intro block hb named hn
    constructor
    · intro ha; exact (hdeclares block hb).not_reads_position ⟨named, hn, ha⟩
    · intro ha; exact (hdeclares block hb).not_reads_targetPosition ⟨named, hn, ha⟩

/-- A disabled line, a lattice with an index and a target of its own, and a ring. -/
def latticeThenRing : Context :=
  ⟨.nil, "spray", .update, .particle,
    [(Node.sequential {} []).disable,
      .sequential ⟨.threeDimensional, .custom, .none⟩ [.ofParameter "Index" "step"],
      .sequential ⟨.circle, .particleId, .same⟩ [.ofParameter "Count" "size"]], .null⟩

/-- The lattice needs a position only; the identifier and the target come in with the ring. -/
theorem latticeThenRing_declares : ∃ compiled,
    (latticeThenRing.compile Registry.default).outcome = .ok compiled ∧
      compiled.requirements =
        [⟨.position, .readWrite⟩, ⟨.particleId, .read⟩, ⟨.targetPosition, .readWrite⟩] ∧
      (Requirement.attributes compiled.requirements).Nodup ∧
      (∃ block ∈ compiled.blocks, ∃ named ∈ block.parameters,
        .particleId ∈ named.expression.attributes) ∧
      ∃ block ∈ compiled.blocks, block.Contains Sequential.targetStatement := by
  obtain ⟨compiled, hc, hrequirements⟩ : ∃ compiled,
      (latticeThenRing.compile Registry.default).outcome = .ok compiled ∧ compiled.requirements =
        [⟨.position, .readWrite⟩, ⟨.particleId, .read⟩, ⟨.targetPosition, .readWrite⟩] :=
    ⟨_, rfl, by decide⟩
  obtain ⟨hnodup, hid, -, htarget, -⟩ := compile_declares_uses hc
  have hread : ⟨.particleId, .read⟩ ∈ compiled.requirements := by rw [hrequirements]; decide
  have hwritten : ⟨.targetPosition, .readWrite⟩ ∈ compiled.requirements := by
    rw [hrequirements]; decide
  exact ⟨compiled, hc, hrequirements, hnodup, ((hid _).mp hread).2, ((htarget _).mp hwritten).2⟩

end Context
end EffectGraph
