import EffectGraph.Json.Pointer
import EffectGraph.PostProcess.Settings

/-!
# `PostProcess.Property` — editing a document through handles

A `Property` is a handle to a place of a document, held as a pointer. It does not own the document;
every access takes it. Writing needs the object that the property is a member of, and creates the
member if it is not there yet.

## Contents
- `Property.root` and `Property.find`, which make handles, and `Property.name`.
- `Property.get` and `Property.getAs`.
- `Property.write`, a step on the document, and `Property.set`, what comes of it.
- `PostProcessHandles`, the handles to the members of the post-process settings.
-/

namespace EffectGraph

/-- A handle to a place of a document. -/
structure Property where
  /-- The place as a pointer. -/
  pointer : String
deriving DecidableEq, Repr

/-- Why a property cannot be read or written. -/
inductive PropertyError where
  /-- There is no such place. -/
  | missing (pointer : String)
  /-- The place holds no members. -/
  | notAnObject (pointer : String)
  /-- A value cannot be read as, or written from, the type asked for. -/
  | conversion (pointer : String) (e : DecodeError)

/-- The error in words. -/
def PropertyError.message : PropertyError → String
  | .missing pointer => "missing property: " ++ pointer
  | .notAnObject pointer => "property " ++ pointer ++ " is not an object"
  | .conversion pointer e => "serialization error for " ++ pointer ++ ": " ++ e.report

namespace Property

/-- The handle to the whole document. -/
def root : Property := ⟨""⟩

/-- The handle to the place that a name leads to from here. -/
def find (property : Property) (name : String) : Property :=
  ⟨property.pointer ++ String.ofList ('/' :: Pointer.escape name.toList)⟩

/-- The last name of the place, empty for the whole document. -/
def name (property : Property) : String :=
  match Pointer.splitLast? property.pointer.toList with
  | none => String.ofList (Pointer.unescape property.pointer.toList)
  | some (_, last) => String.ofList (Pointer.unescape last)

/-- The value of the property. -/
def get (property : Property) (document : Json) : Except PropertyError Json :=
  match Pointer.resolve? property.pointer document with
  | none => .error (.missing property.pointer)
  | some value => .ok value

/-- The value of the property, decoded. -/
def getAs {α : Type} (decode : Json → Decoded α) (property : Property) (document : Json) :
    Except PropertyError α := do
  let value ← property.get document
  (decode value).mapError (.conversion property.pointer)

/-- Puts a member into the object that is held as state. Anything but an object is refused. -/
def insertMember (name : String) (value : Json) (notAnObject : PropertyError) :
    EStateM PropertyError Json Unit
  | .object members => .ok () (.object (Table.insert members name value))
  | place => .error notAnObject place

/-- Writes the property of a document that is held as state, by way of the object that has it as a
    member. The whole document is no member of anything and is replaced. -/
def write (property : Property) (value : Json) : EStateM PropertyError Json Unit :=
  match Pointer.splitLast? property.pointer.toList with
  | none => EStateM.set value
  | some (parent, _) =>
    Pointer.lend parent (.missing (String.ofList parent))
      (insertMember property.name value (.notAnObject (String.ofList parent)))

/-- The same with a value that may have failed to be written; that failure comes first. -/
def writeEncoded (property : Property) : Decoded Json → EStateM PropertyError Json Unit
  | .ok value => property.write value
  | .error e => throw (.conversion property.pointer e)

/-- What comes of a step on a document: the document that it leaves if it succeeds, else the error. -/
def outcome (step : EStateM PropertyError Json Unit) (document : Json) : Except PropertyError Json :=
  match step document with
  | .ok _ written => .ok written
  | .error e _ => .error e

/-- The document with another value of the property. -/
def set (property : Property) (document value : Json) : Except PropertyError Json :=
  outcome (property.write value) document

/-- The document with another value of the property, if the value could be encoded. -/
def setEncoded (property : Property) (document : Json) (value : Decoded Json) :
    Except PropertyError Json :=
  outcome (property.writeEncoded value) document

end Property

/-- The handles to post-process settings and their members. -/
structure PostProcessHandles where
  root : Property
  lutSize : Property
  lutFormat : Property

/-- The handles to the settings at a property. -/
def PostProcessHandles.of (root : Property) : PostProcessHandles :=
  ⟨root, root.find PostProcessSettings.lutSizeName, root.find PostProcessSettings.lutFormatName⟩

end EffectGraph
