import EffectGraph.Proofs.Binding
import EffectGraph.Proofs.FirstAppearance

/-!
# `Proofs.BindingOutcome` — what binding comes to, for any declarations and any slots

Binding looks at all slots before it looks at any declaration, so a repeated name is reported before a
literal of a wrong type, wherever the two stand. The slots are judged in their own order and the
literals in the order of the declarations. If neither finds fault, the declared names are bound in the
order of their first appearance, each by its last declaration.

The rule is stated with membership and with places in lists, without the functions that binding is made
of: `Declaration.FedBy` says what stands for an input, `Declaration.Clashes` when its slot does not fit.
-/

namespace EffectGraph

open Outcome

namespace Declaration

/-- The expression that an input is fed by, as yet unwrapped: what the slot of its name holds, or its
    default if no slot has the name. -/
inductive FedBy (d : Declaration) (slots : List Slot) : Expression → Prop where
  | literal {slot : Slot} {value : Value} (hs : slot ∈ slots) (hname : slot.name = d.name)
      (hvalue : slot.value = .literal value) : FedBy d slots (.constant value)
  | parameter {slot : Slot} {name : String} (hs : slot ∈ slots) (hname : slot.name = d.name)
      (hvalue : slot.value = .parameter name) : FedBy d slots (.parameter name d.valueType)
  | default (hnone : ∀ slot ∈ slots, slot.name ≠ d.name) : FedBy d slots (.constant d.default)

/-- A slot of the name of the input holds a literal of another type. -/
def Clashes (d : Declaration) (slots : List Slot) (value : Value) : Prop :=
  ∃ slot ∈ slots, slot.name = d.name ∧ slot.value = .literal value ∧ value.type ≠ d.valueType

variable {d : Declaration} {slot? : Option SlotValue}

/-- An input is not bound exactly if its slot is a literal of another type. -/
theorem bind_eq_error {e : BindError} :
    d.bind slot? = .error e ↔ ∃ value, slot? = some (.literal value) ∧ value.type ≠ d.valueType ∧
      .typeMismatch d.name d.valueType value.type = e := by
  match slot? with
  | none => simp [bind]
  | some (.parameter name) => simp [bind]
  | some (.literal value) => by_cases h : value.type = d.valueType <;> simp [bind, h]

/-- Wrapping adds one node to a direction and none to anything else. -/
theorem wrap_eq (d : Declaration) (e : Expression) :
    d.wrap e = if d.type = .direction then .normalize e else e := by
  unfold wrap
  cases d.type <;> rfl

end Declaration

namespace BoundInputs

variable {declarations : List Declaration} {slots : List Slot} {inputs bound : BoundInputs}
  {seen : List String} {d : Declaration} {slot : Slot}

/-! ## Slots by their names -/

theorem clashes_iff (h : (slots.map (·.name)).Nodup) {value : Value} :
    d.Clashes slots value ↔
      slotValue? slots d.name = some (.literal value) ∧ value.type ≠ d.valueType := by
  rw [slotValue?_eq_some_iff h]
  constructor
  · rintro ⟨slot, hs, hname, hvalue, htype⟩
    exact ⟨⟨slot, hs, hname, hvalue⟩, htype⟩
  · rintro ⟨⟨slot, hs, hname, hvalue⟩, htype⟩
    exact ⟨slot, hs, hname, hvalue, htype⟩

/-- The source of an input is what it is fed by. -/
theorem fedBy_source (d : Declaration) (slots : List Slot) :
    d.FedBy slots (d.source (slotValue? slots d.name)) := by
  cases h : slotValue? slots d.name with
  | none => exact .default (slotValue?_eq_none_iff.mp h)
  | some value =>
    obtain ⟨slot, hs, hname, hvalue⟩ := exists_slot_of_slotValue? h
    cases value with
    | literal value => exact .literal hs hname hvalue
    | parameter name => exact .parameter hs hname hvalue

/-! ## The slots are looked at first -/

/-- The check ends at the first slot whose name was seen before. -/
theorem checkSlots_of_first_repetition {before after : List Slot}
    (hbefore : (before.map (·.name)).Nodup) (hnew : ∀ s ∈ before, s.name ∉ seen)
    (hslot : slot.name ∈ before.map (·.name) ∨ slot.name ∈ seen) :
    (checkSlots declarations seen (before ++ slot :: after)).outcome =
      .error (.duplicateSlot slot.name) := by
  induction before generalizing seen with
  | nil =>
    have hseen : slot.name ∈ seen := by simpa using hslot
    rw [List.nil_append, checkSlots_cons, if_pos hseen]
  | cons first rest ih =>
    rw [List.map_cons, List.nodup_cons] at hbefore
    obtain ⟨hfirst, hrest⟩ := hbefore
    obtain ⟨hf, hr⟩ := List.forall_mem_cons.mp hnew
    rw [List.cons_append, checkSlots_cons, if_neg hf]
    refine ih hrest ?_ ?_
    · intro s hs hmem
      rcases List.mem_cons.mp hmem with hsame | hmem
      · exact hfirst (hsame ▸ List.mem_map_of_mem hs)
      · exact hr s hs hmem
    · -- the name was met at the first slot, after it, or before all of them
      rw [List.map_cons, List.mem_cons] at hslot
      rcases hslot with (hsame | hmem) | hseen
      · exact .inr (hsame ▸ List.mem_cons_self)
      · exact .inl hmem
      · exact .inr (List.mem_cons_of_mem _ hseen)

theorem ofSlots_of_checkSlots_error {e : BindError}
    (h : (checkSlots declarations [] slots).outcome = .error e) :
    (ofSlots declarations slots).outcome = .error e := by
  simp only [ofSlots, Noted.outcome_bind, bind_eq_error]
  exact .inl h

/-- Once the slots have passed, the declarations decide. -/
theorem ofSlots_of_nodup (h : (slots.map (·.name)).Nodup) :
    (ofSlots declarations slots).outcome = bindDeclared slots empty declarations := by
  have hcheck : (checkSlots declarations [] slots).outcome = .ok () :=
    checkSlots_of_nodup h (by simp)
  simp only [ofSlots, Noted.outcome_bind, Noted.outcome_ofExcept, hcheck]
  rfl

/-! ## The declarations, one after another -/

theorem bindDeclared_cons_eq :
    bindDeclared slots inputs (d :: declarations) =
      d.bind (slotValue? slots d.name) >>= fun e =>
        bindDeclared slots (inputs.insert d.name e) declarations := by
  unfold bindDeclared
  rw [List.foldlM_cons]
  cases d.bind (slotValue? slots d.name) <;> rfl

/-- Declarations that fit are all bound, and the rest goes on from there. -/
theorem bindDeclared_append (inputs : BoundInputs) {before : List Declaration}
    (after : List Declaration)
    (h : ∀ d ∈ before, ∃ e, d.bind (slotValue? slots d.name) = .ok e) :
    ∃ bound, bindDeclared slots inputs before = .ok bound ∧
      bindDeclared slots inputs (before ++ after) = bindDeclared slots bound after := by
  induction before generalizing inputs with
  | nil => exact ⟨inputs, rfl, rfl⟩
  | cons d rest ih =>
    obtain ⟨⟨e, he⟩, hrest⟩ := List.forall_mem_cons.mp h
    obtain ⟨bound, hbound, hafter⟩ := ih (inputs.insert d.name e) hrest
    refine ⟨bound, ?_, ?_⟩
    · rw [bindDeclared_cons_eq, he]
      exact hbound
    · rw [List.cons_append, bindDeclared_cons_eq, he]
      exact hafter

theorem exists_bind_of_not_clashes (h : (slots.map (·.name)).Nodup)
    (hd : ∀ value, ¬ d.Clashes slots value) :
    ∃ e, d.bind (slotValue? slots d.name) = .ok e := by
  cases hb : d.bind (slotValue? slots d.name) with
  | ok e => exact ⟨e, rfl⟩
  | error e =>
    obtain ⟨value, hslot, htype, -⟩ := Declaration.bind_eq_error.mp hb
    exact absurd ((clashes_iff h).mpr ⟨hslot, htype⟩) (hd value)

/-! ## The order of the bound names -/

theorem map_name_put (name : String) (e : Expression) (entries : List NamedExpression) :
    (put name e entries).map (·.name) = pushNew (entries.map (·.name)) name := by
  unfold pushNew
  induction entries with
  | nil => simp [put]
  | cons old rest ih =>
    rw [put]
    by_cases h : old.name = name
    · simp [h]
    · rw [if_neg h, List.map_cons, ih]
      by_cases hr : name ∈ rest.map (·.name)
      · simp [hr]
      · simp [hr, Ne.symm h]

/-- An insertion leaves the names in their order; a new one goes to the end. -/
theorem names_insert (inputs : BoundInputs) (name : String) (e : Expression) :
    (inputs.insert name e).names = pushNew inputs.names name :=
  map_name_put name e inputs.entries

theorem names_bindDeclared (h : bindDeclared slots inputs declarations = .ok bound) :
    bound.names = (declarations.map (·.name)).foldl pushNew inputs.names := by
  induction declarations generalizing inputs with
  | nil => rw [← bindDeclared_nil.mp h]; rfl
  | cons d rest ih =>
    obtain ⟨e, -, hrest⟩ := bindDeclared_cons.mp h
    rw [ih hrest, names_insert]
    rfl

/-! ## All cases -/

/-- **What binding comes to.**

* If a slot name is repeated, the first slot whose name occurred before it is reported, whatever else
  is wrong.
* Otherwise, if the slot of a declaration holds a literal of another type, the first such declaration
  is reported.
* Otherwise the declared names are bound in the order of their first appearance, each by its last
  declaration to what feeds it, as a unit vector if the input is a direction. The expression has the
  type of the input as soon as the default of the declaration has it. -/
theorem ofSlots_outcome_cases (declarations : List Declaration) (slots : List Slot) :
    (¬ (slots.map (·.name)).Nodup →
      ∃ before slot after, slots = before ++ slot :: after ∧ (before.map (·.name)).Nodup ∧
        slot.name ∈ before.map (·.name) ∧
        (ofSlots declarations slots).outcome = .error (.duplicateSlot slot.name)) ∧
    ((slots.map (·.name)).Nodup → (∃ d ∈ declarations, ∃ value, d.Clashes slots value) →
      ∃ before d after value, declarations = before ++ d :: after ∧
        (∀ earlier ∈ before, ∀ value, ¬ earlier.Clashes slots value) ∧ d.Clashes slots value ∧
        (ofSlots declarations slots).outcome =
          .error (.typeMismatch d.name d.valueType value.type)) ∧
    ((slots.map (·.name)).Nodup → (∀ d ∈ declarations, ∀ value, ¬ d.Clashes slots value) →
      ∃ bound, (ofSlots declarations slots).outcome = .ok bound ∧
        bound.names = (declarations.map (·.name)).eraseDups ∧
        ∀ before d after, declarations = before ++ d :: after →
          (∀ later ∈ after, later.name ≠ d.name) →
          ∃ source e, d.FedBy slots source ∧
            e = (if d.type = .direction then .normalize source else source) ∧
            bound.get? d.name = some e ∧ (d.default.type = d.valueType → e.type = d.valueType)) := by
  refine ⟨?repeated, ?clashing, ?bound⟩
  case repeated =>
    intro h
    obtain ⟨names, name, rest, hsplit, hnodup, hmem⟩ := exists_first_repetition h
    -- the split of the names is one of the slots
    obtain ⟨before, others, rfl, rfl, hothers⟩ := List.map_eq_append_iff.mp hsplit
    obtain ⟨slot, after, rfl, rfl, -⟩ := List.map_eq_cons_iff.mp hothers
    refine ⟨before, slot, after, rfl, hnodup, hmem, ?_⟩
    apply ofSlots_of_checkSlots_error
    exact checkSlots_of_first_repetition hnodup (by simp) (.inl hmem)
  case clashing =>
    intro h hclash
    obtain ⟨before, d, after, rfl, hbefore, value, hvalue⟩ := exists_first hclash
    have hfit : ∀ earlier ∈ before, ∀ value, ¬ earlier.Clashes slots value := by
      intro earlier he value hv
      exact hbefore earlier he ⟨value, hv⟩
    have hbinds : ∀ earlier ∈ before, ∃ e, earlier.bind (slotValue? slots earlier.name) = .ok e := by
      intro earlier he
      exact exists_bind_of_not_clashes h (hfit earlier he)
    obtain ⟨bound, -, hrest⟩ := bindDeclared_append empty (d :: after) hbinds
    obtain ⟨hslot, htype⟩ := (clashes_iff h).mp hvalue
    have herror : d.bind (slotValue? slots d.name) =
        .error (.typeMismatch d.name d.valueType value.type) :=
      Declaration.bind_eq_error.mpr ⟨value, hslot, htype, rfl⟩
    refine ⟨before, d, after, value, rfl, hfit, hvalue, ?_⟩
    rw [ofSlots_of_nodup h, hrest, bindDeclared_cons_eq, herror]
    rfl
  case bound =>
    intro h hfit
    have hbinds : ∀ d ∈ declarations, ∃ e, d.bind (slotValue? slots d.name) = .ok e := by
      intro d hd
      exact exists_bind_of_not_clashes h (hfit d hd)
    obtain ⟨bound, hbound, -⟩ := bindDeclared_append empty [] hbinds
    refine ⟨bound, ?_, ?_, ?_⟩
    · rw [ofSlots_of_nodup h, hbound]
    · rw [names_bindDeclared hbound]
      exact foldl_pushNew_nil _
    · rintro before d after rfl hlast
      obtain ⟨e, he, hget⟩ := get?_bindDeclared_last hbound hlast
      obtain ⟨-, hwrap⟩ := Declaration.bind_eq_ok.mp he
      refine ⟨d.source (slotValue? slots d.name), e, fedBy_source d slots, ?_, hget, ?_⟩
      · rw [← hwrap, Declaration.wrap_eq]
      · intro hd
        exact Declaration.bind_type hd he

/-- A direction, after a count that is declared again as a number. -/
def twiceCounted : List Declaration :=
  [⟨"Count", .uint, .uint 4, ""⟩, ⟨"Up", .direction, .float3 .unitY, ""⟩,
    ⟨"Count", .float, .float 1, ""⟩]

/-- A slot that no direction takes. -/
def flatUp : Slot := .ofValue "Up" (.float 1)

/-- A stale slot that is repeated is reported before the slot that does not fit; alone, that slot is
    reported; and a parameter for the count has the type of the last declaration. -/
theorem twiceCounted_outcomes :
    (∃ before slot after, [flatUp, .ofParameter "Old" "a", .ofParameter "Old" "b"] =
        before ++ slot :: after ∧ (before.map (·.name)).Nodup ∧ slot.name ∈ before.map (·.name) ∧
        (ofSlots twiceCounted [flatUp, .ofParameter "Old" "a", .ofParameter "Old" "b"]).outcome =
          .error (.duplicateSlot slot.name)) ∧
    (∃ before d after value, twiceCounted = before ++ d :: after ∧
        (∀ earlier ∈ before, ∀ value, ¬ earlier.Clashes [flatUp] value) ∧
        d.Clashes [flatUp] value ∧
        (ofSlots twiceCounted [flatUp]).outcome =
          .error (.typeMismatch d.name d.valueType value.type)) ∧
    ∃ bound, (ofSlots twiceCounted [.ofParameter "Count" "n"]).outcome = .ok bound ∧
      bound.names = ["Count", "Up"] ∧ ∃ e, bound.get? "Count" = some e ∧ e.type = .float := by
  obtain ⟨repeated, -, -⟩ :=
    ofSlots_outcome_cases twiceCounted [flatUp, .ofParameter "Old" "a", .ofParameter "Old" "b"]
  obtain ⟨-, clashing, -⟩ := ofSlots_outcome_cases twiceCounted [flatUp]
  obtain ⟨-, -, fitting⟩ := ofSlots_outcome_cases twiceCounted [.ofParameter "Count" "n"]
  have hclash : ∃ d ∈ twiceCounted, ∃ value, d.Clashes [flatUp] value :=
    ⟨⟨"Up", .direction, .float3 .unitY, ""⟩, by simp [twiceCounted], .float 1, flatUp, by simp, rfl,
      rfl, by decide⟩
  have hfit : ∀ d ∈ twiceCounted, ∀ value, ¬ d.Clashes [.ofParameter "Count" "n"] value := by
    rintro d - value ⟨slot, hs, -, hvalue, -⟩
    obtain rfl := List.mem_singleton.mp hs
    cases hvalue
  obtain ⟨bound, hbound, hnames, hlast⟩ := fitting (by decide) hfit
  obtain ⟨source, e, -, -, hget, htype⟩ :=
    hlast [⟨"Count", .uint, .uint 4, ""⟩, ⟨"Up", .direction, .float3 .unitY, ""⟩] _ [] rfl (by simp)
  exact ⟨repeated (by decide), clashing (by decide) hclash, bound, hbound, hnames, e, hget, htype rfl⟩

end BoundInputs
end EffectGraph
