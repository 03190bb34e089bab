import EffectGraph.Json.Source

/-!
# `Json.Layout` — what of a text is read

A reader of a document knows which members it wants. The ones it does not know are skipped without
a look inside, so neither their depth nor an unreadable number or string in them matters; a member
that it knows must not be written twice. In the free parts of a document everything is read and the
last of two members of one name wins.

A `Layout` says this for one kind of place, and the kinds that occur are named by a type `κ`, so a
layout may refer to itself. `Source.settle` turns a tree into the `Json` value that the decoders
work on.
-/

namespace EffectGraph

/-- What is read at a place of a document, in terms of the kinds of place `κ`. -/
inductive Layout (κ : Type) where
  /-- Everything. -/
  | free
  /-- These members. They may also be given as an array, in this order. -/
  | record (fields : List (String × κ))
  /-- An array of exactly these parts. -/
  | tuple (parts : List κ)
  /-- An array of any length. -/
  | sequence (item : κ)
  /-- An object of exactly one member, which is one of these, or a plain string. -/
  | choice (variants : List (String × κ))

/-- How deep arrays and objects may nest in what is read. -/
def depthLimit : Nat := 127

namespace Source

mutual

/-- The value of a tree of which everything is read, `none` if it has an unreadable part or nests
    too deep. -/
def settleFree (depth : Nat) : Source → Option Json
  | .null => some .null
  | .bool b => some (.bool b)
  | .number n => n.map .number
  | .string s => s.map .string
  | .array items => if depth = 0 then none else (settleItemsFree (depth - 1) items).map .array
  | .object members =>
    if depth = 0 then none
    else (settleMembersFree (depth - 1) members).map fun pairs => .object (Table.ofPairs pairs)

/-- The values of the items of a free array. -/
def settleItemsFree (depth : Nat) : List Source → Option (List Json)
  | [] => some []
  | item :: rest => do
    let item ← settleFree depth item
    let rest ← settleItemsFree depth rest
    return item :: rest

/-- The members of a free object, as they were written. -/
def settleMembersFree (depth : Nat) : List (Option String × Source) → Option (List (String × Json))
  | [] => some []
  | (name, value) :: rest => do
    let name ← name
    let value ← settleFree depth value
    let rest ← settleMembersFree depth rest
    return (name, value) :: rest

end

variable {κ : Type} (layout : κ → Layout κ)

mutual

/-- The value of a tree at a place of the given kind: what the layout of the kind does not read is
    left out, and a record given as an array gets its names. -/
def settle (depth : Nat) (kind : κ) : Source → Option Json
  | .array items =>
    if depth = 0 then none
    else
      match layout kind with
      | .record fields =>
        if fields.length < items.length then none
        else (settleItems (depth - 1) (fields.map (·.2)) items).map fun values =>
          .object (Table.ofPairs ((fields.map (·.1)).zip values))
      | .tuple parts =>
        if items.length = parts.length then (settleItems (depth - 1) parts items).map .array
        else none
      | .sequence item =>
        (settleItems (depth - 1) (List.replicate items.length item) items).map .array
      | _ => (settleItemsFree (depth - 1) items).map .array
  | .object members =>
    if depth = 0 then none
    else
      match layout kind with
      | .record fields =>
        (settleMembers (depth - 1) fields members).bind fun pairs =>
          if (pairs.map (·.1)).Nodup then some (.object (Table.ofPairs pairs)) else none
      | .choice variants =>
        if members.length = 1 then
          (settleMembers (depth - 1) variants members).bind fun pairs =>
            if pairs.isEmpty then none else some (.object pairs)
        else none
      | _ => (settleMembersFree (depth - 1) members).map fun pairs => .object (Table.ofPairs pairs)
  | .null => some .null
  | .bool b => some (.bool b)
  | .number n => n.map .number
  | .string s => s.map .string

/-- The values of the items of an array, each at a place of its own kind. -/
def settleItems (depth : Nat) : List κ → List Source → Option (List Json)
  | kind :: kinds, item :: rest => do
    let item ← settle depth kind item
    let rest ← settleItems depth kinds rest
    return item :: rest
  | _, [] => some []
  | [], _ => some []

/-- The members that are among the fields, as they were written. -/
def settleMembers (depth : Nat) (fields : List (String × κ)) :
    List (Option String × Source) → Option (List (String × Json))
  | [] => some []
  | (name, value) :: rest => do
    let name ← name
    match fields.lookup name with
    | none => settleMembers depth fields rest
    | some kind =>
      let value ← settle depth kind value
      let rest ← settleMembers depth fields rest
      return (name, value) :: rest

end

end Source

/-- The value that a text of the given kind holds, `none` when the text is unreadable. -/
def Layout.read {κ : Type} (layout : κ → Layout κ) (kind : κ) (text : String) : Option Json :=
  (Source.ofText text).bind (Source.settle layout depthLimit kind)

/-- The value of a text of which everything is read. -/
def Json.ofText (text : String) : Option Json :=
  (Source.ofText text).bind (Source.settleFree depthLimit)

end EffectGraph
