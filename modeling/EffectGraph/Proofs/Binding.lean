import EffectGraph.Compile.Context
import EffectGraph.Proofs.Typing

/-!
# `Proofs.Binding` — what declared inputs are bound to, and which values they have

Binding folds over the declarations and inserts one expression for each. An insertion changes a
single name, so a name ends up with the expression of its last declaration; with distinct names, each
declaration has its own. That expression is its *source* — a literal, a parameter or the default —
made a unit vector where the input is a direction.

`Declaration.value?` says what an input is worth for a particle without going through an expression;
`evaluate_bind` is the agreement of the two.
-/

namespace EffectGraph

open Outcome

/-- Where names are distinct, what has a name is found by it. -/
theorem find?_of_nodup_names {α : Type} {name : α → String} {list : List α} {a : α}
    (hnames : (list.map name).Nodup) (ha : a ∈ list) : list.find? (name · == name a) = some a := by
  obtain ⟨before, after, rfl⟩ := List.append_of_mem ha
  rw [List.map_append, List.map_cons, List.nodup_append] at hnames
  obtain ⟨-, -, hdistinct⟩ := hnames
  refine List.find?_eq_some_iff_append.mpr ⟨by simp, before, after, rfl, ?_⟩
  intro other ho
  have hne : name other ≠ name a :=
    hdistinct (name other) (List.mem_map_of_mem ho) (name a) List.mem_cons_self
  simpa using hne

/-! ## Insertion -/

namespace BoundInputs

theorem find?_put (name other : String) (e : Expression) (entries : List NamedExpression) :
    ((put name e entries).find? (·.name == other)).map (·.expression) =
      if name = other then some e else (entries.find? (·.name == other)).map (·.expression) := by
  induction entries with
  | nil => by_cases h : name = other <;> simp [put, h]
  | cons old rest ih =>
    rw [put]
    by_cases ho : old.name = name
    · -- the old entry of the name is replaced
      rw [if_pos ho]
      by_cases h : name = other <;> simp [h, ho]
    · -- the old entry stays where it is, and is found before the new one
      rw [if_neg ho]
      by_cases h : old.name = other
      · have hne : name ≠ other := by
          intro he
          exact ho (h.trans he.symm)
        simp [h, hne]
      · simp [h, ih]

/-- An insertion changes the expression of its own name and of no other. -/
theorem get?_insert (inputs : BoundInputs) (name other : String) (e : Expression) :
    (inputs.insert name e).get? other = if name = other then some e else inputs.get? other :=
  find?_put name other e inputs.entries

/-! ## A fold of insertions -/

variable {slots : List Slot} {inputs bound : BoundInputs} {declarations : List Declaration}

theorem bindDeclared_nil : bindDeclared slots inputs [] = .ok bound ↔ inputs = bound := by
  simp [bindDeclared]

/-- One step of binding: the first declaration is bound, and the rest goes on from there. -/
theorem bindDeclared_cons {d : Declaration} :
    bindDeclared slots inputs (d :: declarations) = .ok bound ↔
      ∃ e, d.bind (slotValue? slots d.name) = .ok e ∧
        bindDeclared slots (inputs.insert d.name e) declarations = .ok bound := by
  simp only [bindDeclared, List.foldlM_cons, bind_eq_ok, map_eq_ok]
  constructor
  · rintro ⟨_, ⟨e, he, rfl⟩, h⟩; exact ⟨e, he, h⟩
  · rintro ⟨e, he, h⟩; exact ⟨_, ⟨e, he, rfl⟩, h⟩

/-- A name that is not declared keeps what was bound to it. -/
theorem get?_bindDeclared_of_not_declared {name : String}
    (h : bindDeclared slots inputs declarations = .ok bound)
    (hn : ∀ d ∈ declarations, d.name ≠ name) : bound.get? name = inputs.get? name := by
  induction declarations generalizing inputs with
  | nil => rw [bindDeclared_nil.mp h]
  | cons d rest ih =>
    obtain ⟨e, -, hrest⟩ := bindDeclared_cons.mp h
    have hd : d.name ≠ name := hn d List.mem_cons_self
    have hkeeps : bound.get? name = (inputs.insert d.name e).get? name :=
      ih hrest fun d' hd' => hn d' (List.mem_cons_of_mem _ hd')
    rw [hkeeps, get?_insert, if_neg hd]

/-- A name is bound by the last of its declarations. -/
theorem get?_bindDeclared_last {d : Declaration} {before after : List Declaration}
    (h : bindDeclared slots inputs (before ++ d :: after) = .ok bound)
    (hlast : ∀ d' ∈ after, d'.name ≠ d.name) :
    ∃ e, d.bind (slotValue? slots d.name) = .ok e ∧ bound.get? d.name = some e := by
  induction before generalizing inputs with
  | nil =>
    obtain ⟨e, he, hrest⟩ := bindDeclared_cons.mp h
    refine ⟨e, he, ?_⟩
    rw [get?_bindDeclared_of_not_declared hrest hlast, get?_insert, if_pos rfl]
  | cons _ rest ih =>
    obtain ⟨_, -, hrest⟩ := bindDeclared_cons.mp h
    exact ih hrest

/-- Declarations of distinct names are each bound to their own expression. -/
theorem get?_bindDeclared {d : Declaration} (h : bindDeclared slots inputs declarations = .ok bound)
    (hnames : (declarations.map (·.name)).Nodup) (hd : d ∈ declarations) :
    ∃ e, d.bind (slotValue? slots d.name) = .ok e ∧ bound.get? d.name = some e := by
  obtain ⟨before, after, rfl⟩ := List.append_of_mem hd
  rw [List.map_append, List.map_cons, List.nodup_append] at hnames
  obtain ⟨-, htail, -⟩ := hnames
  have hafter : d.name ∉ after.map (·.name) := (List.nodup_cons.mp htail).1
  -- so the declaration is the last one of its name
  refine get?_bindDeclared_last h ?_
  intro d' hd' he
  exact hafter (he ▸ List.mem_map_of_mem hd')

/-- Every declared name is bound, and what was bound before stays bound. -/
theorem exists_get?_bindDeclared {name : String}
    (h : bindDeclared slots inputs declarations = .ok bound)
    (hn : (∃ e, inputs.get? name = some e) ∨ ∃ d ∈ declarations, d.name = name) :
    ∃ e, bound.get? name = some e := by
  induction declarations generalizing inputs with
  | nil => rw [← bindDeclared_nil.mp h]; simpa using hn
  | cons d rest ih =>
    obtain ⟨e, -, hrest⟩ := bindDeclared_cons.mp h
    refine ih hrest ?_
    rw [get?_insert]
    by_cases hd : d.name = name
    · exact .inl ⟨e, if_pos hd⟩
    · rw [if_neg hd]
      rcases hn with hbound | ⟨d', hd', he⟩
      · exact .inl hbound
      · -- the declaration of the name is not the one that was just bound
        rcases List.mem_cons.mp hd' with rfl | hmem
        · exact absurd he hd
        · exact .inr ⟨d', hmem, he⟩

/-- A slot is refused if its name was seen before, and is seen from then on. -/
theorem checkSlots_cons {slot : Slot} {seen : List String} :
    (checkSlots declarations seen (slot :: slots)).outcome =
      if slot.name ∈ seen then .error (.duplicateSlot slot.name)
      else (checkSlots declarations (slot.name :: seen) slots).outcome := by
  rw [checkSlots]
  by_cases hseen : slot.name ∈ seen
  · rw [if_pos hseen, if_pos hseen]
    rfl
  · rw [if_neg hseen, if_neg hseen]
    -- a slot without a declared input is noticed, which is no matter to the outcome
    split
    next => rfl
    next => rfl

/-- Names without repetition pass the check. -/
theorem checkSlots_of_nodup {seen : List String} (h : (slots.map (·.name)).Nodup)
    (hseen : ∀ slot ∈ slots, slot.name ∉ seen) :
    (checkSlots declarations seen slots).outcome = .ok () := by
  induction slots generalizing seen with
  | nil => rfl
  | cons slot slots ih =>
    rw [List.map_cons, List.nodup_cons] at h
    obtain ⟨hnew, hrest⟩ := h
    obtain ⟨hslot, hslots⟩ := List.forall_mem_cons.mp hseen
    rw [checkSlots_cons, if_neg hslot]
    refine ih hrest ?_
    intro other ho hmem
    rcases List.mem_cons.mp hmem with he | hmem
    · exact hnew (he ▸ List.mem_map_of_mem ho)
    · exact hslots other ho hmem

/-- A name is bound by the first slot of that name. -/
theorem slotValue?_cons {slot : Slot} {name : String} :
    slotValue? (slot :: slots) name =
      if slot.name = name then some slot.value else slotValue? slots name := by
  rw [slotValue?, List.find?_cons]
  by_cases h : slot.name = name
  · simp [h]
  · simp [h, beq_false_of_ne h, slotValue?]

/-- Slots bind when none repeats a name and every declared input can be bound. -/
theorem ofSlots_eq_ok :
    (ofSlots declarations slots).outcome = .ok bound ↔
      (checkSlots declarations [] slots).outcome = .ok () ∧
        bindDeclared slots empty declarations = .ok bound := by
  simp only [ofSlots, Noted.outcome_bind, Noted.outcome_ofExcept, bind_eq_ok]
  constructor
  · rintro ⟨⟨⟩, hc, hb⟩; exact ⟨hc, hb⟩
  · rintro ⟨hc, hb⟩; exact ⟨(), hc, hb⟩

/-- What the slots say of a name is said by one of them. -/
theorem exists_slot_of_slotValue? {name : String} {value : SlotValue}
    (h : slotValue? slots name = some value) :
    ∃ slot ∈ slots, slot.name = name ∧ slot.value = value := by
  obtain ⟨slot, hs, rfl⟩ := Option.map_eq_some_iff.mp h
  have hname : slot.name = name := by simpa using List.find?_some hs
  exact ⟨slot, List.mem_of_find?_eq_some hs, hname, rfl⟩

/-- Where no name is repeated, a name is bound to what the slot of the name holds. -/
theorem slotValue?_eq_some_iff (h : (slots.map (·.name)).Nodup) {name : String} {value : SlotValue} :
    slotValue? slots name = some value ↔ ∃ slot ∈ slots, slot.name = name ∧ slot.value = value := by
  constructor
  · exact exists_slot_of_slotValue?
  · rintro ⟨slot, hs, rfl, rfl⟩
    rw [slotValue?, find?_of_nodup_names h hs]
    rfl

theorem slotValue?_eq_none_iff {name : String} :
    slotValue? slots name = none ↔ ∀ slot ∈ slots, slot.name ≠ name := by
  simp [slotValue?]

end BoundInputs

/-! ## The expression of one input -/

namespace Declaration

/-- The expression that stands for an input, as yet unwrapped. -/
def source (d : Declaration) : Option SlotValue → Expression
  | none => .constant d.default
  | some (.literal value) => .constant value
  | some (.parameter name) => .parameter name d.valueType

variable {d : Declaration} {slot? : Option SlotValue} {e : Expression}

/-- An input is bound to its source, unless that is a literal of another type. -/
theorem bind_eq_ok :
    d.bind slot? = .ok e ↔
      (∀ value, slot? = some (.literal value) → value.type = d.valueType) ∧
        d.wrap (d.source slot?) = e := by
  match slot? with
  | none => simp [bind, wrapDefault, source]
  | some (.parameter name) => simp [bind, source]
  | some (.literal value) => by_cases h : value.type = d.valueType <;> simp [bind, source, h]

theorem source_type (hd : d.default.type = d.valueType)
    (hl : ∀ value, slot? = some (.literal value) → value.type = d.valueType) :
    (d.source slot?).type = d.valueType := by
  match slot? with
  | none => exact hd
  | some (.literal value) => exact hl value rfl
  | some (.parameter name) => rfl

/-- Wrapping changes the type of no expression that has the type of the input. -/
theorem wrap_type (h : e.type = d.valueType) : (d.wrap e).type = d.valueType := by
  unfold wrap
  split
  next hdir => simp [valueType, hdir, InputType.valueType, Expression.type]
  next => exact h

/-- **A bound input has the declared type**, provided that the default of the declaration has it. -/
theorem bind_type (hd : d.default.type = d.valueType) (h : d.bind slot? = .ok e) :
    e.type = d.valueType := by
  obtain ⟨hl, rfl⟩ := bind_eq_ok.mp h
  exact wrap_type (source_type hd hl)

/-! ## The value of one input -/

/-- A value as an input takes it: a direction is made a unit vector. -/
def taken (d : Declaration) (value : Value) : Value :=
  match d.type, value with
  | .direction, .float3 v => .float3 v.normalized
  | _, value => value

/-- What an input is worth for a particle: the literal of its slot, the value of the parameter that
    its slot names, or its default, as the input takes it. -/
def value? (particle : Particle) (d : Declaration) (slot? : Option SlotValue) : Option Value :=
  d.taken <$> match slot? with
    | none => some d.default
    | some (.literal value) => some value
    | some (.parameter name) => particle.parameter? name

variable {particle : Particle} {value : Value}

/-- The wrapped expression has the value as the input takes it. -/
theorem evaluate_wrap (he : e.evaluate particle = .ok value) (ht : value.type = d.valueType) :
    (d.wrap e).evaluate particle = .ok (d.taken value) ∧ (d.taken value).type = d.valueType := by
  cases hdir : d.type with
  | direction =>
    rw [valueType, hdir] at ht
    obtain ⟨v, rfl⟩ := Value.exists_float3 ht
    simp only [wrap, taken, valueType, hdir]
    exact ⟨Expression.evaluate_normalize.mpr ⟨v, he, rfl⟩, rfl⟩
  | _ => simp only [wrap, taken, hdir]; exact ⟨he, ht⟩

/-- **A bound input evaluates to the worth of the input**, which is of the declared type, as soon as
    the particle has the parameter that the slot may name. -/
theorem evaluate_bind (hd : d.default.type = d.valueType) (h : d.bind slot? = .ok e)
    (hp : ∀ name, slot? = some (.parameter name) →
      (particle.parameter? name).map Value.type = some d.valueType) :
    ∃ v, d.value? particle slot? = some v ∧ v.type = d.valueType ∧ e.evaluate particle = .ok v := by
  obtain ⟨hl, rfl⟩ := bind_eq_ok.mp h
  match slot? with
  | none =>
    have hdefault : (Expression.constant d.default).evaluate particle = .ok d.default := rfl
    obtain ⟨he, ht⟩ := evaluate_wrap hdefault hd
    exact ⟨_, rfl, ht, he⟩
  | some (.literal value) =>
    have hliteral : (Expression.constant value).evaluate particle = .ok value := rfl
    obtain ⟨he, ht⟩ := evaluate_wrap hliteral (hl value rfl)
    exact ⟨_, rfl, ht, he⟩
  | some (.parameter name) =>
    obtain ⟨value, hv, htv⟩ := Option.map_eq_some_iff.mp (hp name rfl)
    have hparameter : (Expression.parameter name d.valueType).evaluate particle = .ok value :=
      Expression.evaluate_parameter.mpr ⟨hv, htv⟩
    obtain ⟨he, ht⟩ := evaluate_wrap hparameter htv
    exact ⟨d.taken value, by simp [value?, hv], ht, he⟩

end Declaration

/-! ## One block -/

/-- Every declared input is bound. -/
def BoundInputs.BindsAll (inputs : BoundInputs) (declarations : List Declaration) : Prop :=
  ∀ d ∈ declarations, ∃ e, inputs.get? d.name = some e

/-- The block asks for no input beyond the ones that it declares. -/
def Block.Contained (block : Block) : Prop :=
  ∀ inputs : BoundInputs, inputs.BindsAll block.declarations →
    ∃ parameters, block.parameters inputs = .ok parameters

/-- Every block that can be built from a kind of the registry is contained. -/
def Registry.Contained (registry : Registry) : Prop :=
  ∀ identity kind settings block, registry.get? identity = some kind →
    kind.build settings = .ok block → block.Contained

theorem BoundInputs.bindsAll_ofSlots {declarations : List Declaration} {slots : List Slot}
    {inputs : BoundInputs} (h : (ofSlots declarations slots).outcome = .ok inputs) :
    inputs.BindsAll declarations := by
  intro d hd
  obtain ⟨-, hbind⟩ := ofSlots_eq_ok.mp h
  exact exists_get?_bindDeclared hbind (.inr ⟨d, hd, rfl⟩)

namespace Block

variable {block : Block} {slots : List Slot}

theorem compile_eq_ok {compiled : CompiledBlock} :
    (block.compile slots).outcome = .ok compiled ↔
      ∃ inputs parameters, (BoundInputs.ofSlots block.declarations slots).outcome = .ok inputs ∧
        block.parameters inputs = .ok parameters ∧
        compiled = ⟨block.name, block.requirements, inputs, parameters, block.source⟩ := by
  simp only [compile, Noted.outcome_bind, Noted.outcome_mapError, Noted.outcome_ofExcept,
    Noted.outcome_note, Noted.outcome_pure, bind_eq_ok, mapError_eq_ok, Except.ok.injEq]
  constructor
  · rintro ⟨inputs, hi, parameters, hp, _, -, rfl⟩; exact ⟨inputs, parameters, hi, hp, rfl⟩
  · rintro ⟨inputs, parameters, hi, hp, rfl⟩; exact ⟨inputs, hi, parameters, hp, (), trivial, rfl⟩

/-- A contained block compiles as soon as its slots bind. -/
theorem Contained.exists_compile (hb : block.Contained) {inputs : BoundInputs}
    (hi : (BoundInputs.ofSlots block.declarations slots).outcome = .ok inputs) :
    ∃ compiled, (block.compile slots).outcome = .ok compiled := by
  obtain ⟨parameters, hp⟩ := hb inputs (BoundInputs.bindsAll_ofSlots hi)
  exact ⟨_, compile_eq_ok.mpr ⟨inputs, parameters, hi, hp, rfl⟩⟩

theorem compile_of_unbound {e : BindError}
    (h : (BoundInputs.ofSlots block.declarations slots).outcome = .error e) :
    (block.compile slots).outcome = .error (.binding e) := by
  simp [compile, h]

end Block

end EffectGraph
