import EffectGraph.Proofs.BindingOutcome
import EffectGraph.Proofs.Irrelevance
import Mathlib.Data.List.Nodup

/-!
# `Proofs.Overrides` — binding slots is overriding defaults

There are two ways to the inputs of a block: to bind its declarations to slots, one declaration after
another, or to start from the defaults and to override some of them, one slot after another. Where
neither declarations nor slots repeat a name, both lead to the same inputs in the same order.

An override changes what one name is bound to and leaves the names where they are, so the two ways have
the same names by what is known of insertions; and inputs that bind distinct names are determined by the
names and by what each is bound to (`ext_of_nodup`).
-/

namespace EffectGraph

open Outcome

namespace BoundInputs

variable {declarations : List Declaration} {slots : List Slot} {inputs others bound : BoundInputs}
  {d : Declaration} {slot : Slot}

/-- Where names are distinct, the bindings can be read off the names and what each is bound to. -/
theorem entries_eq_map (h : inputs.names.Nodup) :
    inputs.entries = inputs.names.map fun name => ⟨name, inputs.expression name⟩ := by
  have hentry : ∀ entry ∈ inputs.entries, entry = ⟨entry.name, inputs.expression entry.name⟩ := by
    intro entry he
    rw [expression, get?, find?_of_nodup_names h he]
    rfl
  calc inputs.entries = inputs.entries.map id := (List.map_id _).symm
    _ = inputs.entries.map fun entry => ⟨entry.name, inputs.expression entry.name⟩ :=
        List.map_congr_left hentry
    _ = inputs.names.map fun name => ⟨name, inputs.expression name⟩ := by
        rw [names, List.map_map]; rfl

/-- Inputs that bind distinct names are determined by their names and by what each is bound to. -/
theorem ext_of_nodup (hnames : inputs.names = others.names) (hnodup : inputs.names.Nodup)
    (hget : ∀ name ∈ inputs.names, inputs.get? name = others.get? name) : inputs = others := by
  have hentries : inputs.entries = others.entries := by
    rw [entries_eq_map hnodup, entries_eq_map (hnames ▸ hnodup), ← hnames]
    refine List.map_congr_left ?_
    intro name hn
    rw [expression, expression, hget name hn]
  cases inputs
  cases others
  congr

/-! ## Defaults -/

/-- Without slots, every declaration is bound to its default. -/
theorem bindDeclared_nil_slots (inputs : BoundInputs) (declarations : List Declaration) :
    bindDeclared [] inputs declarations =
      .ok (declarations.foldl (fun inputs d => inputs.insert d.name d.wrapDefault) inputs) := by
  induction declarations generalizing inputs with
  | nil => rfl
  | cons d rest ih => rw [bindDeclared_cons_eq, List.foldl_cons, ← ih]; rfl

theorem ofSlots_nil (declarations : List Declaration) :
    (ofSlots declarations []).outcome = .ok (ofDefaults declarations) := by
  rw [ofSlots_of_nodup (by simp), bindDeclared_nil_slots]
  rfl

/-! ## Overrides -/

/-- The inputs with the declared input that a slot names bound to what the slot holds. -/
def override (declarations : List Declaration) (inputs : BoundInputs) (slot : Slot) : BoundInputs :=
  match declarations.find? (·.name == slot.name) with
  | none => inputs
  | some d => inputs.insert d.name (d.wrap (d.source (some slot.value)))

section

variable (hdeclared : (declarations.map (·.name)).Nodup)
include hdeclared

/-- An override changes what the name of its slot is bound to and nothing else. -/
theorem get?_override (hd : d ∈ declarations) :
    (override declarations inputs slot).get? d.name =
      if slot.name = d.name then some (d.wrap (d.source (some slot.value)))
      else inputs.get? d.name := by
  unfold override
  by_cases hname : slot.name = d.name
  · rw [if_pos hname, hname, find?_of_nodup_names hdeclared hd, get?_insert, if_pos rfl]
  · rw [if_neg hname]
    cases hfound : declarations.find? (·.name == slot.name) with
    | none => rfl
    | some other =>
      have hother : other.name = slot.name := by simpa using List.find?_some hfound
      rw [get?_insert, if_neg (hother ▸ hname)]

/-- After overrides by slots of distinct names, a declared name is bound to what its slot holds. -/
theorem get?_foldl_override (hslots : (slots.map (·.name)).Nodup) (hd : d ∈ declarations) :
    (slots.foldl (override declarations) inputs).get? d.name =
      match slotValue? slots d.name with
      | some value => some (d.wrap (d.source (some value)))
      | none => inputs.get? d.name := by
  induction slots generalizing inputs with
  | nil => rfl
  | cons slot rest ih =>
    rw [List.map_cons, List.nodup_cons] at hslots
    obtain ⟨hnew, hrest⟩ := hslots
    rw [List.foldl_cons, ih hrest, slotValue?_cons, get?_override hdeclared hd]
    by_cases hname : slot.name = d.name
    · -- no later slot has the name
      have hnone : slotValue? rest d.name = none := by
        rw [slotValue?_eq_none_iff]
        intro other ho hother
        exact hnew (hname ▸ hother ▸ List.mem_map_of_mem ho)
      rw [hnone, if_pos hname, if_pos hname]
    · rw [if_neg hname, if_neg hname]

end

/-- An override of a name that is bound leaves the names in their places. -/
theorem names_override (h : ∀ d ∈ declarations, d.name ∈ inputs.names) :
    (override declarations inputs slot).names = inputs.names := by
  unfold override
  cases hfound : declarations.find? (·.name == slot.name) with
  | none => rfl
  | some d =>
    have hd : d.name ∈ inputs.names := h d (List.mem_of_find?_eq_some hfound)
    rw [names_insert, pushNew, if_pos hd]

theorem names_foldl_override (h : ∀ d ∈ declarations, d.name ∈ inputs.names) :
    (slots.foldl (override declarations) inputs).names = inputs.names := by
  induction slots generalizing inputs with
  | nil => rfl
  | cons slot rest ih =>
    have hnames : (override declarations inputs slot).names = inputs.names := names_override h
    rw [List.foldl_cons, ih (by rwa [hnames]), hnames]

/-! ## The two ways -/

/-- What is bound by all declarations has their names, each once. -/
theorem names_of_bindDeclared (h : bindDeclared slots empty declarations = .ok bound) :
    bound.names = (declarations.map (·.name)).eraseDups :=
  (names_bindDeclared h).trans (foldl_pushNew_nil _)

/-- **Binding slots is overriding defaults**, slot by slot. -/
theorem ofSlots_eq_overrides (hdeclared : (declarations.map (·.name)).Nodup)
    (hslots : (slots.map (·.name)).Nodup)
    (hfit : ∀ d ∈ declarations, ∀ value, ¬ d.Clashes slots value) :
    (ofSlots declarations slots).outcome =
      .ok (slots.foldl (override declarations) (ofDefaults declarations)) := by
  have hbinds : ∀ d ∈ declarations, ∃ e, d.bind (slotValue? slots d.name) = .ok e := by
    intro d hd
    exact exists_bind_of_not_clashes hslots (hfit d hd)
  obtain ⟨bound, hbound, -⟩ := bindDeclared_append empty [] hbinds
  have hdefaults : bindDeclared [] empty declarations = .ok (ofDefaults declarations) :=
    bindDeclared_nil_slots empty declarations
  have hnames := names_of_bindDeclared hbound
  have hdefaultNames := names_of_bindDeclared hdefaults
  have hmem : ∀ d ∈ declarations, d.name ∈ (ofDefaults declarations).names := by
    intro d hd
    rw [hdefaultNames, List.mem_eraseDups]
    exact List.mem_map_of_mem hd
  rw [ofSlots_of_nodup hslots, hbound]
  congr 1
  refine ext_of_nodup ?names ?distinct ?expressions
  case names => rw [names_foldl_override hmem, hnames, hdefaultNames]
  case distinct =>
    rw [hnames]
    exact nodup_eraseDups _
  case expressions =>
    intro name hn
    rw [hnames, List.mem_eraseDups, List.mem_map] at hn
    obtain ⟨d, hd, rfl⟩ := hn
    obtain ⟨e, he, hget⟩ := get?_bindDeclared hbound hdeclared hd
    obtain ⟨-, rfl⟩ := Declaration.bind_eq_ok.mp he
    rw [get?_foldl_override hdeclared hslots hd, hget]
    cases slotValue? slots d.name with
    | some value => rfl
    | none =>
      obtain ⟨e, he, hdefault⟩ := get?_bindDeclared hdefaults hdeclared hd
      obtain ⟨-, rfl⟩ := Declaration.bind_eq_ok.mp he
      exact hdefault.symm

/-! ## One slot more -/

variable {before after : List Slot} {seen seen' : List String}

/-- The check depends on which names of the slots were seen. -/
theorem checkSlots_of_seen (h : ∀ other ∈ slots, other.name ∈ seen ↔ other.name ∈ seen') :
    (checkSlots declarations seen slots).outcome = (checkSlots declarations seen' slots).outcome := by
  induction slots generalizing seen seen' with
  | nil => rfl
  | cons slot rest ih =>
    obtain ⟨hslot, hrest⟩ := List.forall_mem_cons.mp h
    have hlater : ∀ other ∈ rest, other.name ∈ slot.name :: seen ↔ other.name ∈ slot.name :: seen' := by
      intro other ho
      rw [List.mem_cons, List.mem_cons, hrest other ho]
    rw [checkSlots_cons, checkSlots_cons, ih hlater]
    simp only [hslot]

/-- A slot of a new name passes the check wherever it stands. -/
theorem checkSlots_insert (hnew : slot.name ∉ seen)
    (hothers : ∀ other ∈ before ++ after, other.name ≠ slot.name) :
    (checkSlots declarations seen (before ++ slot :: after)).outcome =
      (checkSlots declarations seen (before ++ after)).outcome := by
  induction before generalizing seen with
  | nil =>
    rw [List.nil_append, List.nil_append, checkSlots_cons, if_neg hnew]
    refine checkSlots_of_seen ?_
    intro other ho
    rw [List.mem_cons, or_iff_right (hothers other ho)]
  | cons first rest ih =>
    obtain ⟨hfirst, hrest⟩ := List.forall_mem_cons.mp hothers
    have hstill : slot.name ∉ first.name :: seen := by
      rw [List.mem_cons, not_or]
      exact ⟨hfirst.symm, hnew⟩
    rw [List.cons_append, List.cons_append, checkSlots_cons, checkSlots_cons, ih hstill hrest]

/-- A slot binds its own name and no other. -/
theorem slotValue?_insert (hothers : ∀ other ∈ before ++ after, other.name ≠ slot.name)
    (name : String) :
    slotValue? (before ++ slot :: after) name =
      if slot.name = name then some slot.value else slotValue? (before ++ after) name := by
  induction before with
  | nil => exact slotValue?_cons
  | cons first rest ih =>
    obtain ⟨hfirst, hrest⟩ := List.forall_mem_cons.mp hothers
    rw [List.cons_append, List.cons_append, slotValue?_cons, slotValue?_cons, ih hrest]
    by_cases hname : slot.name = name
    · rw [if_pos hname, if_pos hname, if_neg (hname ▸ hfirst)]
    · rw [if_neg hname, if_neg hname]

/-- **A slot that holds the default of its input changes nothing.** -/
theorem ofSlots_insert_default (hdeclared : (declarations.map (·.name)).Nodup) (hd : d ∈ declarations)
    (hdefault : d.default.type = d.valueType) (hname : slot.name = d.name)
    (hvalue : slot.value = .literal d.default)
    (hothers : ∀ other ∈ before ++ after, other.name ≠ d.name) :
    (ofSlots declarations (before ++ slot :: after)).outcome =
      (ofSlots declarations (before ++ after)).outcome := by
  rw [← hname] at hothers
  have hcheck : (checkSlots declarations [] (before ++ slot :: after)).outcome =
      (checkSlots declarations [] (before ++ after)).outcome :=
    checkSlots_insert (by simp) hothers
  have hbind : bindDeclared (before ++ slot :: after) empty declarations =
      bindDeclared (before ++ after) empty declarations := by
    apply bindDeclared_congr
    intro other ho
    rw [slotValue?_insert hothers]
    by_cases hsame : slot.name = other.name
    · -- the declaration of the name, which had no slot
      obtain rfl : other = d :=
        List.inj_on_of_nodup_map hdeclared ho hd (hsame.symm.trans hname)
      have hnone : slotValue? (before ++ after) other.name = none := by
        rw [slotValue?_eq_none_iff, ← hname]
        exact hothers
      rw [if_pos hsame, hnone, hvalue]
      have hliteral : other.bind (some (.literal other.default)) = .ok other.wrapDefault := by
        refine Declaration.bind_eq_ok.mpr ⟨?_, rfl⟩
        rintro value ⟨⟩
        exact hdefault
      exact hliteral
    · rw [if_neg hsame]
  simp only [ofSlots, Noted.outcome_bind, Noted.outcome_ofExcept, hcheck, hbind]

/-- **Binding agrees with defaults and overrides.**

    * Where neither declarations nor slots repeat a name and every literal fits its declaration, binding
      the slots comes to the defaults with each declared name that a slot names bound to what the slot
      holds, in whatever order the slots are taken.
    * Without slots it comes to the defaults, for any declarations.
    * Where no declared name is repeated, one more slot changes nothing if it holds the default of an
      input that no slot names, and the default is of the type of the input. -/
theorem binding_is_overriding_defaults :
    (∀ (declarations : List Declaration) (slots order : List Slot),
      (declarations.map (·.name)).Nodup → (slots.map (·.name)).Nodup →
      (∀ d ∈ declarations, ∀ value, ¬ d.Clashes slots value) → order.Perm slots →
      (ofSlots declarations slots).outcome =
        .ok (order.foldl (override declarations) (ofDefaults declarations))) ∧
    (∀ declarations : List Declaration,
      (ofSlots declarations []).outcome = .ok (ofDefaults declarations)) ∧
    ∀ (declarations : List Declaration) (before after : List Slot) (d : Declaration) (slot : Slot),
      (declarations.map (·.name)).Nodup → d ∈ declarations → d.default.type = d.valueType →
      slot.name = d.name → slot.value = .literal d.default →
      (∀ other ∈ before ++ after, other.name ≠ d.name) →
      (ofSlots declarations (before ++ slot :: after)).outcome =
        (ofSlots declarations (before ++ after)).outcome := by
  refine ⟨?overrides, ofSlots_nil, ?default⟩
  case overrides =>
    intro declarations slots order hdeclared hslots hfit horder
    have hnames : (order.map (·.name)).Nodup := (horder.map (·.name)).nodup_iff.mpr hslots
    have hfits : ∀ d ∈ declarations, ∀ value, ¬ d.Clashes order value := by
      rintro d hd value ⟨slot, hs, hclash⟩
      exact hfit d hd value ⟨slot, horder.mem_iff.mp hs, hclash⟩
    -- the order of the slots does not matter to binding
    have halike : SlotsAlike declarations slots order := .inr ⟨hslots, (horder.map _).symm⟩
    rw [ofSlots_outcome_congr halike]
    exact ofSlots_eq_overrides hdeclared hnames hfits
  case default =>
    intro declarations before after d slot hdeclared hd hdefault hname hvalue hothers
    exact ofSlots_insert_default hdeclared hd hdefault hname hvalue hothers

/-- A count, a direction and a radius. -/
def arcDeclarations : List Declaration :=
  [⟨"Count", .uint, .uint 4, ""⟩, ⟨"Up", .direction, .float3 .unitY, ""⟩,
    ⟨"Radius", .float, .float 1, ""⟩]

/-- Slots in another order than the declarations, one of them for no input. -/
def arcSlots : List Slot :=
  [.ofValue "Radius" (.float 2), .ofValue "Old" (.uint 1), .ofParameter "Up" "axis"]

/-- The slots may be taken from the back, and a slot between them with the default of the count makes no
    difference. -/
theorem arcSlots_override :
    (ofSlots arcDeclarations arcSlots).outcome =
        .ok (arcSlots.reverse.foldl (override arcDeclarations) (ofDefaults arcDeclarations)) ∧
      (ofSlots arcDeclarations
        (arcSlots.take 1 ++ .ofValue "Count" (.uint 4) :: arcSlots.drop 1)).outcome =
        (ofSlots arcDeclarations (arcSlots.take 1 ++ arcSlots.drop 1)).outcome := by
  obtain ⟨overrides, -, default⟩ := binding_is_overriding_defaults
  have hfit : ∀ d ∈ arcDeclarations, ∀ value, ¬ d.Clashes arcSlots value := by
    simp [arcDeclarations, arcSlots, Declaration.Clashes, Slot.ofValue, Slot.ofParameter, Slot.new,
      Value.type, Declaration.valueType, InputType.valueType]
  refine ⟨overrides _ _ _ (by decide) (by decide) hfit (List.reverse_perm _), ?_⟩
  exact default _ _ _ ⟨"Count", .uint, .uint 4, ""⟩ _ (by decide) List.mem_cons_self rfl rfl rfl
    (by decide)

end BoundInputs
end EffectGraph
