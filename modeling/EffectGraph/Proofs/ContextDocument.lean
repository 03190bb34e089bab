import EffectGraph.Document.Model
import EffectGraph.Proofs.Decoding

/-!
# `Proofs.ContextDocument` — authored contexts come back from documents

A context, its nodes and their slots are written as records that leave out some fields when these
have the value that a reader starts from: nil identifiers, empty lists, `false` and `null`. Reading
the members one after another fills a record up until it is the one that was written
(`Slot.readsBack`, `Node.readsBack`, `Context.readsBack`).

## Contents
- `SlotValue.Finite`, `Slot.Finite`, `Node.Finite`, `Context.Finite`: every 32-bit number in the slot
  values is finite.
- `Slot.Omits`, `Node.Omits`, `Context.Omits`: which fields are left out of a document form.
-/

namespace EffectGraph

open Json

theorem Json.isNull_iff {json : Json} : json.isNull = true ↔ json = .null := by
  cases json with
  | null => exact iff_of_true rfl rfl
  | _ => exact iff_of_false nofun nofun

theorem Json.isNull_eq_false {json : Json} : json.isNull = false ↔ json ≠ .null := by
  rw [← Bool.not_eq_true, isNull_iff]

theorem Uuid.isNil_iff {id : Uuid} : id.isNil = true ↔ id = .nil := beq_iff_eq

theorem Uuid.isNil_eq_false {id : Uuid} : id.isNil = false ↔ id ≠ .nil := by
  rw [← Bool.not_eq_true, isNil_iff]

/-! ## Slots -/

/-- Whether every 32-bit number of what a slot binds to is finite. -/
def SlotValue.Finite : SlotValue → Prop
  | .literal value => value.Finite
  | .parameter _ => True

theorem SlotValue.readsBack : ReadsBack toJson ofJson Finite := by
  intro value
  cases value with
  | literal value =>
    rw [toJson, ofJson, toTagged_object rfl]
    exact (Value.readsBack value).map SlotValue.literal
  | parameter name =>
    rw [toJson, ofJson, toTagged_object rfl]
    exact (gives_ok name).map SlotValue.parameter

namespace Slot

/-- Whether every 32-bit number of what a slot binds to is finite. -/
def Finite (slot : Slot) : Prop := slot.value.Finite

/-- **A slot is read back exactly when it is finite.** -/
theorem readsBack : ReadsBack toJson ofJson Finite := by
  rintro ⟨id, name, value, extras⟩
  -- the members in the order in which they are written, each filling in one field
  have hextras : Gives (readMember (new "" (.parameter "")) "extras" extras) True
      ⟨.nil, "", .parameter "", extras⟩ :=
    gives_pure _
  have hid : Gives (readMember ⟨.nil, "", .parameter "", extras⟩ "id" id.toJson) True
      ⟨id, "", .parameter "", extras⟩ :=
    (Uuid.gives id).bind_pure _
  have hname : Gives (readMember ⟨id, "", .parameter "", extras⟩ "name" (.string name)) True
      ⟨id, name, .parameter "", extras⟩ :=
    (gives_ok name).bind_pure _
  have hvalue : Gives (readMember ⟨id, name, .parameter "", extras⟩ "value" value.toJson)
      value.Finite ⟨id, name, value, extras⟩ :=
    (SlotValue.readsBack value).bind_pure _
  unfold toJson ofJson
  refine ((Gives.toRecord (((hextras.member ?_).append (hid.member ?_)).append
    (hname.cons (hvalue.cons (gives_nil readMember _))))).bind
      ((gives_requireFields ?_).bind_pure _)).congr ?_
  -- where a member is left out, the record has its value from the start
  · intro h
    obtain rfl : extras = .null := isNull_iff.mp h
    exact ⟨trivial, rfl⟩
  · intro h
    obtain rfl : id = .nil := Uuid.isNil_iff.mp h
    exact ⟨trivial, rfl⟩
  · simp [Table.names]
  · simp [Finite]

/-- The fields that the document form of a slot leaves out. -/
def Omits (slot : Slot) (field : String) : Prop :=
  field = "id" ∧ slot.id = .nil ∨ field = "extras" ∧ slot.extras = .null

theorem mem_memberNames (slot : Slot) (field : String) :
    field ∈ slot.toJson.memberNames ↔ field ∈ fields ∧ ¬ slot.Omits field := by
  unfold toJson memberNames
  simp only [Table.names_append, Table.names_cons, Table.names_nil, List.mem_append, List.mem_cons,
    mem_names_member, isNull_eq_false, Uuid.isNil_eq_false]
  unfold Omits fields
  grind

end Slot

/-! ## Nodes -/

namespace Node

/-- Whether every 32-bit number in the slots of a node is finite. -/
def Finite (node : Node) : Prop := ∀ slot ∈ node.slots, slot.Finite

/-- **A node is read back exactly when it is finite.** -/
theorem readsBack : ReadsBack toJson ofJson Finite := by
  rintro ⟨id, block, settings, slots, disabled, extras⟩
  have hblock : Gives (readMember (new "" .null []) "block" (.string block)) True
      ⟨.nil, block, .null, [], false, .null⟩ :=
    (gives_ok block).bind_pure _
  have hdisabled : Gives (readMember ⟨.nil, block, .null, [], false, .null⟩ "disabled"
      (.bool disabled)) True ⟨.nil, block, .null, [], disabled, .null⟩ :=
    (gives_ok disabled).bind_pure _
  have hextras : Gives (readMember ⟨.nil, block, .null, [], disabled, .null⟩ "extras" extras) True
      ⟨.nil, block, .null, [], disabled, extras⟩ :=
    gives_pure _
  have hid : Gives (readMember ⟨.nil, block, .null, [], disabled, extras⟩ "id" id.toJson) True
      ⟨id, block, .null, [], disabled, extras⟩ :=
    (Uuid.gives id).bind_pure _
  have hslots : Gives (readMember ⟨id, block, .null, [], disabled, extras⟩ "inputs"
      (.array (slots.map Slot.toJson))) (∀ slot ∈ slots, slot.Finite)
      ⟨id, block, .null, slots, disabled, extras⟩ :=
    (Slot.readsBack.list slots).bind_pure _
  have hsettings : Gives (readMember ⟨id, block, .null, slots, disabled, extras⟩ "settings" settings)
      True ⟨id, block, settings, slots, disabled, extras⟩ :=
    gives_pure _
  unfold toJson ofJson
  refine ((Gives.toRecord ((((((hblock.cons (gives_nil readMember _)).append
    (hdisabled.member ?_)).append (hextras.member ?_)).append (hid.member ?_)).append
    (hslots.member ?_)).append (hsettings.member ?_))).bind
      ((gives_requireFields ?_).bind_pure _)).congr ?_
  · intro h
    obtain rfl : disabled = false := by simpa using h
    exact ⟨trivial, rfl⟩
  · intro h
    obtain rfl : extras = .null := isNull_iff.mp h
    exact ⟨trivial, rfl⟩
  · intro h
    obtain rfl : id = .nil := Uuid.isNil_iff.mp h
    exact ⟨trivial, rfl⟩
  · intro h
    obtain rfl : slots = [] := List.isEmpty_iff.mp h
    exact ⟨nofun, rfl⟩
  · intro h
    obtain rfl : settings = .null := isNull_iff.mp h
    exact ⟨trivial, rfl⟩
  · simp [Table.names]
  · simp [Finite]

/-- The fields that the document form of a node leaves out. -/
def Omits (node : Node) (field : String) : Prop :=
  field = "id" ∧ node.id = .nil ∨ field = "settings" ∧ node.settings = .null ∨
    field = "inputs" ∧ node.slots = [] ∨ field = "disabled" ∧ node.disabled = false ∨
    field = "extras" ∧ node.extras = .null

theorem mem_memberNames (node : Node) (field : String) :
    field ∈ node.toJson.memberNames ↔ field ∈ fields ∧ ¬ node.Omits field := by
  unfold toJson memberNames
  simp only [Table.names_append, Table.names_cons, Table.names_nil, List.mem_append, List.mem_cons,
    mem_names_member, isNull_eq_false, Uuid.isNil_eq_false, List.isEmpty_eq_false_iff,
    Bool.not_eq_false']
  unfold Omits fields
  grind

end Node

/-! ## Contexts -/

namespace Context

theorem gives_stage (stage : Stage) :
    Gives ((Json.string stage.name).toName Stage.names) True stage :=
  gives_name (by cases stage <;> rfl)

theorem gives_dataKind (data : DataKind) :
    Gives ((Json.string data.name).toName DataKind.names) True data :=
  gives_name (by cases data <;> rfl)

/-- Whether every 32-bit number in the slots of a context is finite. -/
def Finite (context : Context) : Prop := ∀ node ∈ context.nodes, node.Finite

/-- **A context is read back exactly when it is finite.** -/
theorem readsBack : ReadsBack toJson ofJson Finite := by
  rintro ⟨id, name, stage, data, nodes, extras⟩
  have hnodes : Gives (readMember (new "" .update []) "blocks" (.array (nodes.map Node.toJson)))
      (∀ node ∈ nodes, node.Finite) ⟨.nil, "", .update, .particle, nodes, .null⟩ :=
    (Node.readsBack.list nodes).bind_pure _
  have hname : Gives (readMember ⟨.nil, "", .update, .particle, nodes, .null⟩ "context"
      (.string name)) True ⟨.nil, name, .update, .particle, nodes, .null⟩ :=
    (gives_ok name).bind_pure _
  have hstage : Gives (readMember ⟨.nil, name, .update, .particle, nodes, .null⟩ "context_type"
      (.string stage.name)) True ⟨.nil, name, stage, .particle, nodes, .null⟩ :=
    (gives_stage stage).bind_pure _
  have hdata : Gives (readMember ⟨.nil, name, stage, .particle, nodes, .null⟩ "data_type"
      (.string data.name)) True ⟨.nil, name, stage, data, nodes, .null⟩ :=
    (gives_dataKind data).bind_pure _
  have hextras : Gives (readMember ⟨.nil, name, stage, data, nodes, .null⟩ "extras" extras) True
      ⟨.nil, name, stage, data, nodes, extras⟩ :=
    gives_pure _
  have hid : Gives (readMember ⟨.nil, name, stage, data, nodes, extras⟩ "id" id.toJson) True
      ⟨id, name, stage, data, nodes, extras⟩ :=
    (Uuid.gives id).bind_pure _
  unfold toJson ofJson
  refine ((Gives.toRecord ((((hnodes.member ?_).append
    (hname.cons (hstage.cons (hdata.cons (gives_nil readMember _))))).append
    (hextras.member ?_)).append (hid.member ?_))).bind
      ((gives_requireFields ?_).bind_pure _)).congr ?_
  · intro h
    obtain rfl : nodes = [] := List.isEmpty_iff.mp h
    exact ⟨nofun, rfl⟩
  · intro h
    obtain rfl : extras = .null := isNull_iff.mp h
    exact ⟨trivial, rfl⟩
  · intro h
    obtain rfl : id = .nil := Uuid.isNil_iff.mp h
    exact ⟨trivial, rfl⟩
  · simp [Table.names]
  · simp [Finite]

/-- The fields that the document form of a context leaves out. -/
def Omits (context : Context) (field : String) : Prop :=
  field = "id" ∧ context.id = .nil ∨ field = "blocks" ∧ context.nodes = [] ∨
    field = "extras" ∧ context.extras = .null

theorem mem_memberNames (context : Context) (field : String) :
    field ∈ context.toJson.memberNames ↔ field ∈ fields ∧ ¬ context.Omits field := by
  unfold toJson memberNames
  simp only [Table.names_append, Table.names_cons, Table.names_nil, List.mem_append, List.mem_cons,
    mem_names_member, isNull_eq_false, Uuid.isNil_eq_false, List.isEmpty_eq_false_iff]
  unfold Omits fields
  grind

/-- **An authored context comes back from its document form field for field**, exactly when every
    32-bit number in its slot values is finite. What is written of contexts, nodes and slots is every
    field but those whose value a reader starts from, so these are restored as they were. -/
theorem document_restores_omitted (context : Context) :
    (∀ decoded, ofJson context.toJson = .ok decoded ↔ context.Finite ∧ decoded = context) ∧
      (∀ field, field ∈ context.toJson.memberNames ↔ field ∈ fields ∧ ¬ context.Omits field) ∧
      (∀ node : Node, ∀ field,
        field ∈ node.toJson.memberNames ↔ field ∈ Node.fields ∧ ¬ node.Omits field) ∧
      ∀ slot : Slot, ∀ field,
        field ∈ slot.toJson.memberNames ↔ field ∈ Slot.fields ∧ ¬ slot.Omits field :=
  ⟨readsBack context, context.mem_memberNames, Node.mem_memberNames, Slot.mem_memberNames⟩

end Context
end EffectGraph
