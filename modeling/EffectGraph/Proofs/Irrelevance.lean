import EffectGraph.Proofs.Compilation

/-!
# `Proofs.Irrelevance` — what an authored context holds that compilation does not look at

Two contexts may differ in much and still compile to one outcome. What may differ is said here as a
relation: identifiers and extras everywhere, all of a disabled node, what a slot binds if no input of
its name is declared, and the order of the slots of a node if none of their names is repeated.

Slots only reach a block by two questions (`ofSlots_outcome_congr`): whether a name is repeated, and
what the slot of a declared name binds. Where a name is repeated the order matters, as the first
repetition is the one that is reported; where none is, every slot is found by its name.
-/

namespace EffectGraph

open Outcome

/-! ## Slots -/

/-- What a slot says to a block of the given declarations: its name, and what it binds if an input of
    that name is declared. -/
def Slot.authored (declarations : List Declaration) (slot : Slot) : String × Option SlotValue :=
  (slot.name, if declarations.any (·.name == slot.name) then some slot.value else none)

/-- The slots say the same, in the same order or, if no name is repeated, in any order. -/
def SlotsAlike (declarations : List Declaration) (slots others : List Slot) : Prop :=
  slots.map (Slot.authored declarations) = others.map (Slot.authored declarations) ∨
    (slots.map (·.name)).Nodup ∧
      (slots.map (Slot.authored declarations)).Perm (others.map (Slot.authored declarations))

namespace BoundInputs

variable {declarations : List Declaration} {slots others : List Slot} {seen : List String}

theorem map_name_eq (declarations : List Declaration) (slots : List Slot) :
    slots.map (·.name) = (slots.map (Slot.authored declarations)).map (·.1) := by
  rw [List.map_map]
  rfl

theorem authored_of_declared {d : Declaration} {slot : Slot} (hd : d ∈ declarations)
    (hname : slot.name = d.name) : slot.authored declarations = (d.name, some slot.value) := by
  have hany : declarations.any (·.name == slot.name) = true := by
    rw [List.any_eq_true]
    exact ⟨d, hd, by simp [hname]⟩
  rw [Slot.authored, hany, hname]
  rfl

/-- The check for repeated names depends on the names. -/
theorem checkSlots_congr (h : slots.map (·.name) = others.map (·.name)) :
    (checkSlots declarations seen slots).outcome = (checkSlots declarations seen others).outcome := by
  induction slots generalizing others seen with
  | nil =>
    cases others with
    | nil => rfl
    | cons other others => cases h
  | cons slot slots ih =>
    cases others with
    | nil => cases h
    | cons other others =>
      obtain ⟨hname, hrest⟩ : slot.name = other.name ∧ _ := List.cons.inj h
      rw [checkSlots_cons, checkSlots_cons, hname, ih hrest]

/-- Slots that say the same in the same order bind a declared name alike. -/
theorem slotValue?_congr {d : Declaration} (hd : d ∈ declarations)
    (h : slots.map (Slot.authored declarations) = others.map (Slot.authored declarations)) :
    slotValue? slots d.name = slotValue? others d.name := by
  induction slots generalizing others with
  | nil =>
    cases others with
    | nil => rfl
    | cons other others => cases h
  | cons slot slots ih =>
    cases others with
    | nil => cases h
    | cons other others =>
      obtain ⟨hsame, hrest⟩ := List.cons.inj h
      have hname : slot.name = other.name := congrArg Prod.fst hsame
      rw [slotValue?_cons, slotValue?_cons, ← hname, ih hrest]
      by_cases hfound : slot.name = d.name
      · -- both heads bind the name
        rw [authored_of_declared hd hfound, authored_of_declared hd (hname ▸ hfound)] at hsame
        rw [if_pos hfound, if_pos hfound]
        exact congrArg Prod.snd hsame
      · rw [if_neg hfound, if_neg hfound]

/-- Where no name is repeated, a declared name is bound to what a slot says of it. -/
theorem slotValue?_eq_some_iff_authored {d : Declaration} {value : SlotValue} (hd : d ∈ declarations)
    (h : (slots.map (·.name)).Nodup) :
    slotValue? slots d.name = some value ↔
      (d.name, some value) ∈ slots.map (Slot.authored declarations) := by
  rw [slotValue?_eq_some_iff h, List.mem_map]
  constructor
  · rintro ⟨slot, hslot, hname, rfl⟩
    exact ⟨slot, hslot, authored_of_declared hd hname⟩
  · rintro ⟨slot, hslot, hauthored⟩
    have hname : slot.name = d.name := congrArg Prod.fst hauthored
    rw [authored_of_declared hd hname] at hauthored
    have hvalue : some slot.value = some value := congrArg Prod.snd hauthored
    exact ⟨slot, hslot, hname, Option.some.inj hvalue⟩

theorem nodup_names_of_perm (h : (slots.map (·.name)).Nodup)
    (hperm : (slots.map (Slot.authored declarations)).Perm (others.map (Slot.authored declarations))) :
    (others.map (·.name)).Nodup := by
  rw [map_name_eq declarations] at h ⊢
  exact (hperm.map (·.1)).nodup_iff.mp h

/-- Slots that say the same bind a declared name alike. -/
theorem slotValue?_of_alike {d : Declaration} (hd : d ∈ declarations)
    (h : SlotsAlike declarations slots others) :
    slotValue? slots d.name = slotValue? others d.name := by
  rcases h with hsame | ⟨hnames, hperm⟩
  · exact slotValue?_congr hd hsame
  · have hothers : (others.map (·.name)).Nodup := nodup_names_of_perm hnames hperm
    apply Option.ext
    intro value
    rw [slotValue?_eq_some_iff_authored hd hnames, slotValue?_eq_some_iff_authored hd hothers,
      hperm.mem_iff]

/-- Binding asks the slots for nothing but what they bind the declared names to. -/
theorem bindDeclared_congr {inputs : BoundInputs}
    (h : ∀ d ∈ declarations, d.bind (slotValue? slots d.name) = d.bind (slotValue? others d.name)) :
    bindDeclared slots inputs declarations = bindDeclared others inputs declarations := by
  induction declarations generalizing inputs with
  | nil => rfl
  | cons d rest ih =>
    obtain ⟨hd, hrest⟩ := List.forall_mem_cons.mp h
    rw [bindDeclared, bindDeclared, List.foldlM_cons, List.foldlM_cons, hd]
    congr
    funext bound
    exact ih hrest

/-- **Slots that say the same bind the inputs alike**, to the same expressions or with the same
    error. -/
theorem ofSlots_outcome_congr (h : SlotsAlike declarations slots others) :
    (ofSlots declarations slots).outcome = (ofSlots declarations others).outcome := by
  have hcheck : (checkSlots declarations [] slots).outcome =
      (checkSlots declarations [] others).outcome := by
    rcases h with hsame | ⟨hnames, hperm⟩
    · apply checkSlots_congr
      rw [map_name_eq declarations, map_name_eq declarations, hsame]
    · have hothers : (others.map (·.name)).Nodup := nodup_names_of_perm hnames hperm
      rw [checkSlots_of_nodup hnames (by simp), checkSlots_of_nodup hothers (by simp)]
  have hbind : bindDeclared slots empty declarations = bindDeclared others empty declarations := by
    apply bindDeclared_congr
    intro d hd
    rw [slotValue?_of_alike hd h]
  simp only [ofSlots, Noted.outcome_bind, Noted.outcome_ofExcept, hcheck, hbind]

end BoundInputs

/-! ## Nodes -/

/-- Slots that say the same compile with a block to one outcome. -/
theorem Block.compile_congr {block : Block} {slots others : List Slot}
    (h : SlotsAlike block.declarations slots others) :
    (block.compile slots).outcome = (block.compile others).outcome := by
  simp only [Block.compile, Noted.outcome_bind, Noted.outcome_mapError,
    BoundInputs.ofSlots_outcome_congr h]

/-- The nodes author the same: both are disabled, or both are enabled and of one kind with the same
    settings, and if these make a block, the slots say the same to its declarations. -/
inductive Node.Alike (registry : Registry) (a b : Node) : Prop where
  | disabled (ha : a.disabled = true) (hb : b.disabled = true)
  | enabled (ha : a.disabled = false) (hb : b.disabled = false) (hblock : a.block = b.block)
      (hsettings : a.settings = b.settings)
      (hslots : ∀ kind block, registry.get? a.block = some kind →
        kind.build a.settings = .ok block → SlotsAlike block.declarations a.slots b.slots)

namespace Node

variable {registry : Registry} {stage : Stage} {data : DataKind} {path : String} {a b : Node}

/-- A block is only built from a registered kind. -/
theorem exists_kind_of_build {block : Block} (h : a.build registry stage data path = .ok block) :
    ∃ kind, registry.get? a.block = some kind ∧ kind.build a.settings = .ok block := by
  cases hk : registry.get? a.block with
  | none => simp [build, hk] at h
  | some kind =>
    cases hb : kind.build a.settings with
    | error e => simp [build, hk, hb] at h
    | ok made =>
      -- the checks of stage and data let the block that was made through or fail
      by_cases hs : stage ∈ made.stages
      · by_cases hd : made.data = data
        · have hmade : made = block := by simpa [build, hk, hb, hs, hd] using h
          exact ⟨kind, rfl, hmade ▸ hb⟩
        · simp [build, hk, hb, hs, hd] at h
      · simp [build, hk, hb, hs] at h

/-- Nodes that author the same may be exchanged for each other. -/
theorem Alike.interchangeable (h : Alike registry a b) :
    Context.Interchangeable registry stage data a b := by
  cases h with
  | disabled ha hb => exact .inl ⟨ha, hb⟩
  | enabled ha hb hblock hsettings hslots =>
    refine .inr ⟨ha, hb, hblock, ?_⟩
    intro path
    have hbuild : a.build registry stage data path = b.build registry stage data path := by
      rw [build, build, hblock, hsettings]
    rw [compile, compile, Noted.outcome_bind, Noted.outcome_bind, hbuild]
    cases hb : b.build registry stage data path with
    | error e => rfl
    | ok block =>
      obtain ⟨kind, hk, hmade⟩ := exists_kind_of_build (hbuild.trans hb)
      have hcompile : (block.compile a.slots).outcome = (block.compile b.slots).outcome :=
        Block.compile_congr (hslots kind block hk hmade)
      show ((block.compile a.slots).mapError _).outcome = ((block.compile b.slots).mapError _).outcome
      rw [Noted.outcome_mapError, Noted.outcome_mapError, hcompile]

end Node

/-! ## Contexts -/

namespace Context

/-- **Compilation ignores what is not authored behaviour.** Contexts of one name, stage and data whose
    nodes author the same one by one compile to one outcome: the same compiled context, or the same
    error under the same path. -/
theorem compile_ignores_unauthored (registry : Registry) {context other : Context}
    (hname : context.name = other.name) (hstage : context.stage = other.stage)
    (hdata : context.data = other.data)
    (hnodes : List.Forall₂ (Node.Alike registry) context.nodes other.nodes) :
    (context.compile registry).outcome = (other.compile registry).outcome := by
  have hcompiled : (other.compileNodes registry 0 other.nodes).outcome =
      (context.compileNodes registry 0 context.nodes).outcome := by
    refine compileNodes_of_interchangeable hname.symm hstage.symm hdata.symm (hnodes.imp ?_)
    intro a b h
    exact h.interchangeable
  simp only [compile, Noted.outcome_bind, hcompiled, hname, hstage]

/-- A disabled node, and a ring whose count is a literal of the given type. Its last slot is left from
    a line. -/
def ring (type : ValueType) : Context :=
  ⟨.nil, "spray", .update, .particle,
    [(Node.new "turbulence" .null []).disable,
      .sequential ⟨.circle, .particleId, .same⟩
        [.ofValue "Count" (.one type), .ofParameter "Radius" "size", .ofValue "Start" (.uint 1)]],
    .null⟩

/-- The same ring after another tool has been at it: there are identifiers and extras, another node is
    disabled, and the slots stand the other way round, with a parameter in the one that is left. -/
def retouchedRing (type : ValueType) : Context :=
  let id : Uuid := ⟨List.replicate 32 (Fin.last 15), List.length_replicate⟩
  ⟨id, "spray", .update, .particle,
    [(Node.sequential {} [.ofParameter "Count" "many"]).disable,
      ⟨id, Sequential.identity, Sequential.Settings.toJson ⟨.circle, .particleId, .same⟩,
        [⟨id, "Start", .parameter "here", .null⟩, .ofParameter "Radius" "size",
          ⟨.nil, "Count", .literal (.one type), .bool true⟩], false, .string "ring"⟩],
    .object [("color", .string "red")]⟩

/-- Both rings compile to one context, or with a number for a count to one error. -/
theorem retouchedRing_compiles_alike :
    (∃ compiled, ((ring .uint32).compile .default).outcome = .ok compiled ∧
      ((retouchedRing .uint32).compile .default).outcome = .ok compiled) ∧
    ((retouchedRing .float).compile .default).outcome =
      .error (.binding "spray/1#position_sequential" (.typeMismatch "Count" .uint32 .float)) := by
  have hslots : ∀ type kind block, Registry.default.get? Sequential.identity = some kind →
      kind.build (Sequential.Settings.toJson ⟨.circle, .particleId, .same⟩) = .ok block →
      SlotsAlike block.declarations
        [.ofValue "Count" (.one type), .ofParameter "Radius" "size", .ofValue "Start" (.uint 1)]
        [⟨⟨List.replicate 32 (Fin.last 15), List.length_replicate⟩, "Start", .parameter "here", .null⟩,
          .ofParameter "Radius" "size", ⟨.nil, "Count", .literal (.one type), .bool true⟩] := by
    intro type kind block hr hb
    obtain rfl := Registry.get?_default hr
    obtain rfl : Sequential.Settings.block ⟨.circle, .particleId, .same⟩ = block := Except.ok.inj hb
    exact .inr ⟨by simp [Slot.ofValue, Slot.ofParameter, Slot.new], (List.reverse_perm _).symm⟩
  have halike : ∀ type, List.Forall₂ (Node.Alike .default) (ring type).nodes
      (retouchedRing type).nodes := by
    intro type
    exact .cons (.disabled rfl rfl) (.cons (.enabled rfl rfl rfl rfl (hslots type)) .nil)
  have hok : ((ring .uint32).compile .default).outcome =
      ((retouchedRing .uint32).compile .default).outcome :=
    compile_ignores_unauthored .default rfl rfl rfl (halike .uint32)
  have herror : ((ring .float).compile .default).outcome =
      ((retouchedRing .float).compile .default).outcome :=
    compile_ignores_unauthored .default rfl rfl rfl (halike .float)
  exact ⟨⟨_, rfl, hok.symm⟩, herror.symm.trans rfl⟩

end Context
end EffectGraph
