import EffectGraph.Compile.Notice
import EffectGraph.Document.Slot
import EffectGraph.Input.Bound

/-!
# `Input.Binding` — binding the declared inputs of a block to its slots

Every declared input is bound, in the order of the declarations, to its slot or to its default. No
two slots may have one name. A slot that names no declared input is passed over: it is left from an
earlier configuration of the block.
-/

namespace EffectGraph

/-- Why slots cannot be bound. -/
inductive BindError where
  /-- Two slots have one name. -/
  | duplicateSlot (name : String)
  /-- A slot holds a value of another type than its input takes. -/
  | typeMismatch (name : String) (expected actual : ValueType)
deriving DecidableEq, Repr

/-- The error in words. -/
def BindError.message : BindError → String
  | .duplicateSlot name => "duplicate slot: \"" ++ name ++ "\""
  | .typeMismatch name expected actual =>
    "unexpected value for slot " ++ name ++ " expected: " ++ expected.sourceName ++ " got " ++
      actual.sourceName

namespace Declaration

/-- The expression that an input is bound to by a slot, or without one. -/
def bind (declaration : Declaration) (slot? : Option SlotValue) : Except BindError Expression :=
  match slot? with
  | none => .ok declaration.wrapDefault
  | some (.parameter name) => .ok (declaration.wrap (.parameter name declaration.valueType))
  | some (.literal value) =>
    if value.type = declaration.valueType then .ok (declaration.wrap (.constant value))
    else .error (.typeMismatch declaration.name declaration.valueType value.type)

end Declaration

namespace BoundInputs

/-- Goes through the slots in order, after slots of the given names. -/
def checkSlots (declarations : List Declaration) (seen : List String) :
    List Slot → Noted BindError Unit
  | [] => pure ()
  | slot :: rest => do
    if slot.name ∈ seen then throw (.duplicateSlot slot.name)
    unless declarations.any (·.name == slot.name) do Noted.note (.ignoredSlot slot.name)
    checkSlots declarations (slot.name :: seen) rest

/-- What the first slot of a name binds to. -/
def slotValue? (slots : List Slot) (name : String) : Option SlotValue :=
  (slots.find? (·.name == name)).map (·.value)

/-- Binds every declared input, later declarations of a name in place of earlier ones. -/
def bindDeclared (slots : List Slot) (inputs : BoundInputs) (declarations : List Declaration) :
    Except BindError BoundInputs :=
  declarations.foldlM
    (fun inputs d => inputs.insert d.name <$> d.bind (slotValue? slots d.name)) inputs

/-- Binds the declared inputs to slots. -/
def ofSlots (declarations : List Declaration) (slots : List Slot) : Noted BindError BoundInputs := do
  checkSlots declarations [] slots
  Noted.ofExcept (bindDeclared slots empty declarations)

end BoundInputs
end EffectGraph
