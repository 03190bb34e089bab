import EffectGraph.Proofs.Outcome
import EffectGraph.Proofs.Writing
import Mathlib.Data.List.Basic

/-!
# `Proofs.Lenses` — writes through handles obey the laws that editing relies on

Writing twice is writing the second value, writing back what was read changes nothing, and writes at
diverging places can be exchanged. The last law is the one with an argument: one of the two writes may
create the member that decides whether an object is met by the other, or fail where the other succeeds.

`Json.store` is one step of a write. `Json.writeAt` is the whole write as a recursion along the names to
the parent, which is how the laws are shown; that handles write just so is `Property.set_ofNames_append`.
Where two lists of names part, the two writes store under different names of one value and neither sees
what the other stored (`writeAt_store`); up to there they go into the same child.

## Contents
- `Json.store`, with the laws of one step.
- `Json.writeAt`, with `writeAt_writeAt`, `writeAt_follow?` and `writeAt_exchange`.
- `Property.attempt`, a write on a held document that tells what came of it.
-/

namespace EffectGraph

open Outcome

namespace Json

variable {name other last otherLast : String} {parent others : List String}
variable {json child value later old written afterOther : Json}

/-! ## One step -/

/-- The items with another one in the place of the index that a name stands for. -/
def storeItem (name : String) (value : Json) (items : List Json) : List Json :=
  match arrayIndex? name with
  | none => items
  | some index => items.set index value

/-- The value with another member or item of a name. A member that is not there is created. -/
def store (name : String) (value : Json) : Json → Json
  | .object members => .object (Table.insert members name value)
  | .array items => .array (storeItem name value items)
  | json => json

theorem replaceStep_array {items : List Json} :
    replaceStep name value (.array items) = .array (storeItem name value items) := by
  rw [replaceStep, storeItem]
  cases arrayIndex? name <;> rfl

/-- Where a name leads somewhere, storing is replacing. -/
theorem replaceStep_eq_store (h : json.step? name = some child) :
    replaceStep name value json = store name value json := by
  cases json with
  | object members =>
    have hhas : Table.has members name = true := by
      rw [Table.has]
      exact Option.isSome_iff_exists.mpr ⟨child, h⟩
    rw [replaceStep, store, Table.insert, if_pos hhas]
  | array items => exact replaceStep_array
  | _ => rfl

theorem step?_store_self (h : json.step? name = some child) :
    (store name value json).step? name = some value := by
  rw [← replaceStep_eq_store h]
  exact step?_replaceStep_self h

theorem step?_store_of_ne (h : other ≠ name) :
    (store name value json).step? other = json.step? other := by
  cases json with
  | object members => exact Table.get?_insert_of_ne h
  | array items =>
    rw [store, ← replaceStep_array]
    exact step?_replaceStep_of_ne h
  | _ => rfl

/-- Of two values stored under one name the second stays. -/
theorem store_store : store name value (store name old json) = store name value json := by
  cases json with
  | object members => rw [store, store, Table.insert_insert, store]
  | array items => cases hn : arrayIndex? name <;> simp [store, storeItem, hn]
  | _ => rfl

/-- Storing what a name leads to already changes nothing. -/
theorem store_step? (h : json.step? name = some child) : store name child json = json := by
  rw [← replaceStep_eq_store h]
  exact replaceStep_step? h

/-- Values stored under different names do not touch each other. -/
theorem store_comm (h : other ≠ name) :
    store other later (store name value json) = store name value (store other later json) := by
  cases json with
  | object members => rw [store, store, Table.insert_comm h, store, store]
  | array items =>
    cases hn : arrayIndex? name with
    | none => simp [store, storeItem, hn]
    | some index =>
      cases ho : arrayIndex? other with
      | none => simp [store, storeItem, hn, ho]
      | some otherIndex =>
        have hne : index ≠ otherIndex := by
          rintro rfl
          exact h (arrayIndex?_inj ho hn)
        simp [store, storeItem, hn, ho, List.set_comm _ _ hne]
  | _ => rfl

/-! ## A write along names -/

/-- The object with another member. The error has yet to be told the pointer of the object. -/
def writeMember (name : String) (value : Json) : Json → Except (String → PropertyError) Json
  | .object members => .ok (.object (Table.insert members name value))
  | _ => .error .notAnObject

/-- The value with another member `last` of the object that the names lead to. -/
def writeAt : List String → String → Json → Json → Except (String → PropertyError) Json
  | [], last, value, json => writeMember last value json
  | name :: rest, last, value, json =>
    match json.step? name with
    | none => .error .missing
    | some child => (fun written => store name written json) <$> writeAt rest last value child

theorem writeAt_cons (h : json.step? name = some child) :
    writeAt (name :: parent) last value json =
      (fun written => store name written json) <$> writeAt parent last value child := by
  rw [writeAt, h]

theorem writeMember_store (h : last ≠ name) :
    writeMember last value (store name child json) =
      (fun written => store name child written) <$> writeMember last value json := by
  cases json with
  | object members =>
    show Except.ok (object ((Table.insert members name child).insert last value)) =
      Except.ok (object ((Table.insert members last value).insert name child))
    rw [Table.insert_comm h]
  | array items => rfl
  | _ => rfl

/-- **A write does not see what is stored under another name than its first one.** -/
theorem writeAt_store (h : parent.headD last ≠ name) :
    writeAt parent last value (store name child json) =
      (fun written => store name child written) <$> writeAt parent last value json := by
  cases parent with
  | nil => exact writeMember_store h
  | cons first rest =>
    have hfirst : first ≠ name := h
    rw [writeAt, writeAt, step?_store_of_ne hfirst]
    cases json.step? first with
    | none => rfl
    | some inner =>
      -- both sides write into the same child, and the two results are stored in either order
      show (fun written => store first written (store name child json)) <$> writeAt rest last value inner =
        (fun written => store name child written) <$>
          (fun written => store first written json) <$> writeAt rest last value inner
      cases writeAt rest last value inner with
      | error e => rfl
      | ok written =>
        show Except.ok (store first written (store name child json)) =
          Except.ok (store name child (store first written json))
        rw [store_comm hfirst]

/-- A write that succeeds has stored something under its first name. -/
theorem exists_store_of_writeAt (h : writeAt parent last value json = .ok written) :
    ∃ child, written = store (parent.headD last) child json := by
  cases parent with
  | nil =>
    cases json with
    | object members => exact ⟨value, (Except.ok.inj h).symm⟩
    | _ => cases h
  | cons first rest =>
    cases hs : json.step? first with
    | none => rw [writeAt, hs] at h; cases h
    | some child =>
      rw [writeAt_cons hs, map_eq_ok] at h
      obtain ⟨inner, -, rfl⟩ := h
      exact ⟨inner, rfl⟩

/-! ## What becomes of a write -/

theorem writeAt_of_missing (h : follow? parent json = none) :
    writeAt parent last value json = .error .missing := by
  induction parent generalizing json with
  | nil => cases h
  | cons name rest ih =>
    cases hs : json.step? name with
    | none => rw [writeAt, hs]
    | some child =>
      rw [follow?_cons, hs, Option.bind_some] at h
      rw [writeAt_cons hs, ih h]
      rfl

theorem writeAt_of_notAnObject {found : Json} (h : follow? parent json = some found)
    (hfound : ∀ members, found ≠ .object members) :
    writeAt parent last value json = .error .notAnObject := by
  induction parent generalizing json with
  | nil =>
    obtain rfl := Option.some.inj h
    cases json with
    | object members => exact absurd rfl (hfound members)
    | _ => rfl
  | cons name rest ih =>
    rw [follow?_cons, Option.bind_eq_some_iff] at h
    obtain ⟨child, hs, hf⟩ := h
    rw [writeAt_cons hs, ih hf]
    rfl

theorem writeAt_of_object {members : Table Json} (h : follow? parent json = some (.object members)) :
    writeAt parent last value json =
      .ok (replaceAt parent (.object (Table.insert members last value)) json) := by
  induction parent generalizing json with
  | nil =>
    obtain rfl := Option.some.inj h
    rfl
  | cons name rest ih =>
    rw [follow?_cons, Option.bind_eq_some_iff] at h
    obtain ⟨child, hs, hf⟩ := h
    rw [writeAt_cons hs, ih hf, replaceAt, hs]
    exact congrArg Except.ok (replaceStep_eq_store hs).symm

/-! ## The laws -/

/-- **A second write in the same place gives what it gives without the first.** -/
theorem writeAt_writeAt (h : writeAt parent last value json = .ok written) :
    writeAt parent last later written = writeAt parent last later json := by
  induction parent generalizing json written with
  | nil =>
    cases json with
    | object members =>
      obtain rfl := Except.ok.inj h
      show Except.ok (object ((Table.insert members last value).insert last later)) =
        Except.ok (object (Table.insert members last later))
      rw [Table.insert_insert]
    | _ => cases h
  | cons name rest ih =>
    cases hs : json.step? name with
    | none => rw [writeAt, hs] at h; cases h
    | some child =>
      rw [writeAt_cons hs, map_eq_ok] at h
      obtain ⟨inner, hi, rfl⟩ := h
      rw [writeAt_cons (step?_store_self hs), writeAt_cons hs, ih hi]
      simp only [store_store]

/-- **Writing what is there already changes nothing.** -/
theorem writeAt_follow? {members : Table Json} (hparent : follow? parent json = some (.object members))
    (h : Table.get? members last = some value) : writeAt parent last value json = .ok json := by
  induction parent generalizing json with
  | nil =>
    obtain rfl := Option.some.inj hparent
    show Except.ok (object (Table.insert members last value)) = Except.ok (object members)
    rw [Table.insert_get? h]
  | cons name rest ih =>
    rw [follow?_cons, Option.bind_eq_some_iff] at hparent
    obtain ⟨child, hs, hf⟩ := hparent
    rw [writeAt_cons hs, ih hf]
    show Except.ok (store name child json) = Except.ok json
    rw [store_step? hs]

/-- Two writes of which the first succeeds: the second has the outcome that it has without the first,
    and if it succeeds too, the two can be exchanged. -/
def Exchanges (first second : Json → Except (String → PropertyError) Json) (json written : Json) : Prop :=
  (∀ e, second json = .error e → second written = .error e) ∧
  ∀ other, second json = .ok other → ∃ both, second written = .ok both ∧ first other = .ok both

/-- Writes that start under different names store there, and neither sees the other. -/
theorem exchanges_of_ne (hne : others.headD otherLast ≠ parent.headD last)
    (h : writeAt parent last value json = .ok written) :
    Exchanges (writeAt parent last value) (writeAt others otherLast later) json written := by
  obtain ⟨child, rfl⟩ := exists_store_of_writeAt h
  have hsecond : writeAt others otherLast later (store (parent.headD last) child json) =
      (fun written => store (parent.headD last) child written) <$>
        writeAt others otherLast later json := writeAt_store hne
  constructor
  · intro e he
    rw [hsecond, he]
    rfl
  · intro other hother
    obtain ⟨otherChild, rfl⟩ := exists_store_of_writeAt hother
    refine ⟨store (parent.headD last) child (store (others.headD otherLast) otherChild json), ?_, ?_⟩
    · rw [hsecond, hother]
      rfl
    · rw [writeAt_store hne.symm, h]
      show Except.ok (store (others.headD otherLast) otherChild
        (store (parent.headD last) child json)) = _
      rw [store_comm hne]

/-- Writes that can be exchanged in a child can be exchanged in the whole. -/
theorem Exchanges.cons {rest otherRest : List String} {inner : Json} (hs : json.step? name = some child)
    (h : Exchanges (writeAt rest last value) (writeAt otherRest otherLast later) child inner) :
    Exchanges (writeAt (name :: rest) last value) (writeAt (name :: otherRest) otherLast later) json
      (store name inner json) := by
  obtain ⟨hfails, hsucceeds⟩ := h
  have hs' : (store name inner json).step? name = some inner := step?_store_self hs
  constructor
  · intro e he
    rw [writeAt_cons hs, map_eq_error] at he
    rw [writeAt_cons hs', hfails e he]
    rfl
  · intro other hother
    rw [writeAt_cons hs, map_eq_ok] at hother
    obtain ⟨otherInner, hi, rfl⟩ := hother
    obtain ⟨both, hsecond, hfirst⟩ := hsucceeds otherInner hi
    refine ⟨store name both json, ?_, ?_⟩
    · rw [writeAt_cons hs', hsecond]
      show Except.ok (store name both (store name inner json)) = Except.ok (store name both json)
      rw [store_store]
    · rw [writeAt_cons (step?_store_self hs), hfirst]
      show Except.ok (store name both (store name otherInner json)) = Except.ok (store name both json)
      rw [store_store]

/-- **Writes along diverging names can be exchanged.** -/
theorem writeAt_exchange (hn : ¬ parent ++ [last] <+: others ++ [otherLast])
    (ho : ¬ others ++ [otherLast] <+: parent ++ [last])
    (h : writeAt parent last value json = .ok written) (later : Json) :
    Exchanges (writeAt parent last value) (writeAt others otherLast later) json written := by
  induction parent generalizing others json written with
  | nil =>
    refine exchanges_of_ne ?_ h
    rintro heq
    -- with the same first name, the write of one member would be on the way of the other
    cases others with
    | nil =>
      obtain rfl : otherLast = last := heq
      exact hn (List.prefix_refl _)
    | cons first rest =>
      obtain rfl : first = last := heq
      exact hn (List.cons_prefix_cons.mpr ⟨rfl, List.nil_prefix⟩)
  | cons name rest ih =>
    by_cases heq : others.headD otherLast = name
    · cases others with
      | nil =>
        obtain rfl : otherLast = name := heq
        exact absurd (List.cons_prefix_cons.mpr ⟨rfl, List.nil_prefix⟩) ho
      | cons first otherRest =>
        obtain rfl : first = name := heq
        rw [List.cons_append, List.cons_append, List.cons_prefix_cons] at hn ho
        cases hs : json.step? first with
        | none => rw [writeAt, hs] at h; cases h
        | some child =>
          rw [writeAt_cons hs, map_eq_ok] at h
          obtain ⟨inner, hi, rfl⟩ := h
          exact (ih (fun h => hn ⟨rfl, h⟩) (fun h => ho ⟨rfl, h⟩) hi).cons hs
    · exact exchanges_of_ne heq h

end Json

/-! ## Handles -/

namespace Property

variable {names others parent : List String} {last : String} {document between value later : Json}

/-- A write through a handle is a write along its names, whose error is told the pointer of the
    parent. -/
theorem set_ofNames_append : (ofNames (parent ++ [last])).set document value =
    (Json.writeAt parent last value document).mapError fun e => e (ofNames parent).pointer := by
  cases hparent : Json.follow? parent document with
  | none =>
    rw [Json.writeAt_of_missing hparent]
    exact set_eq_error.mpr (.inl ⟨rfl, hparent⟩)
  | some found =>
    by_cases hobject : ∃ members, found = .object members
    · obtain ⟨members, rfl⟩ := hobject
      rw [Json.writeAt_of_object hparent]
      exact set_eq_ok.mpr ⟨members, hparent, rfl⟩
    · have hfound : ∀ members, found ≠ .object members := fun members h => hobject ⟨members, h⟩
      rw [Json.writeAt_of_notAnObject hparent hfound]
      exact set_eq_error.mpr (.inr ⟨rfl, found, hparent, hfound⟩)

/-! ### One place -/

/-- **After a write that succeeded, another one through the same handle has the outcome that it has
    without the first.** -/
theorem set_set (h : (ofNames names).set document value = .ok between) :
    (ofNames names).set between later = (ofNames names).set document later := by
  rcases names.eq_nil_or_concat' with rfl | ⟨parent, last, rfl⟩
  · rfl
  · rw [set_ofNames_append, mapError_eq_ok] at h
    rw [set_ofNames_append, set_ofNames_append, Json.writeAt_writeAt h]

/-- **Writing back what was read changes nothing**, where the parent is an object. -/
theorem set_get {members : Table Json} (hparent : (ofNames parent).get document = .ok (.object members))
    (h : (ofNames (parent ++ [last])).get document = .ok value) :
    (ofNames (parent ++ [last])).set document value = .ok document := by
  rw [get_eq_ok] at hparent h
  rw [Json.follow?_append, hparent, Option.bind_some, Json.follow?_cons, Json.step?,
    Option.bind_eq_some_iff] at h
  obtain ⟨child, hchild, hf⟩ := h
  obtain rfl := Option.some.inj hf
  rw [set_ofNames_append, Json.writeAt_follow? hparent hchild]
  rfl

/-! ### Two places -/

variable {property : Property} {encoded : Decoded Json} {written : Json}

/-- A write that succeeds was given a value that could be encoded. -/
theorem setEncoded_eq_ok : property.setEncoded document encoded = .ok written ↔
    ∃ value, encoded = .ok value ∧ property.set document value = .ok written := by
  cases encoded with
  | ok value =>
    show property.set document value = .ok written ↔ _
    simp
  | error e =>
    show Except.error (PropertyError.conversion property.pointer e) = .ok written ↔ _
    simp

/-- **Of two writes at diverging places, neither makes a difference to the outcome of the other**, and
    if both succeed they give one document in either order. -/
theorem setEncoded_exchange (hn : ¬ names <+: others) (ho : ¬ others <+: names)
    (h : (ofNames names).setEncoded document encoded = .ok written) (otherEncoded : Decoded Json) :
    (∀ e, (ofNames others).setEncoded document otherEncoded = .error e →
      (ofNames others).setEncoded written otherEncoded = .error e) ∧
    ∀ other, (ofNames others).setEncoded document otherEncoded = .ok other →
      ∃ both, (ofNames others).setEncoded written otherEncoded = .ok both ∧
        (ofNames names).setEncoded other encoded = .ok both := by
  obtain ⟨value, rfl, hset⟩ := setEncoded_eq_ok.mp h
  cases otherEncoded with
  | error e =>
    -- a value that cannot be encoded is refused before the document is looked at
    refine ⟨fun e he => he, ?_⟩
    intro other hother
    cases hother
  | ok later =>
    -- neither handle is the one of the whole document, whose names begin all others
    rcases names.eq_nil_or_concat' with rfl | ⟨parent, last, rfl⟩
    · exact absurd List.nil_prefix hn
    rcases others.eq_nil_or_concat' with rfl | ⟨otherParent, otherLast, rfl⟩
    · exact absurd List.nil_prefix ho
    rw [set_ofNames_append, mapError_eq_ok] at hset
    obtain ⟨hfails, hsucceeds⟩ := Json.writeAt_exchange hn ho hset later
    show (∀ e, set _ document later = .error e → set _ written later = .error e) ∧
      ∀ other, set _ document later = .ok other →
        ∃ both, set _ written later = .ok both ∧ set _ other value = .ok both
    simp only [set_ofNames_append, mapError_eq_ok, mapError_eq_error]
    refine ⟨?_, hsucceeds⟩
    rintro e ⟨told, he, rfl⟩
    exact ⟨told, hfails told he, rfl⟩

/-- Writes a property of a document that is held as state, and tells what came of it. -/
def attempt (property : Property) (value : Decoded Json) : StateM Json (Except PropertyError Unit) :=
  fun document =>
    match property.writeEncoded value document with
    | .ok _ written => (.ok (), written)
    | .error e left => (.error e, left)

theorem attempt_of_ok (h : property.setEncoded document encoded = .ok written) :
    property.attempt encoded document = (.ok (), written) := by
  have hrun : property.writeEncoded encoded document = .ok () written := run_eq_ok.mpr h
  rw [attempt, hrun]

theorem attempt_of_error {e : PropertyError} (h : property.setEncoded document encoded = .error e) :
    property.attempt encoded document = (.error e, document) := by
  have hrun : property.writeEncoded encoded document = .error e document :=
    (run_eq_error (failsInPlace_writeEncoded property encoded)).mpr ⟨h, rfl⟩
  rw [attempt, hrun]

/-- Two steps on a state, the second one whatever the first one gave. -/
theorem run_pair {σ α β γ : Type} (first : StateM σ α) (second : StateM σ β) (pair : α → β → γ)
    (state : σ) :
    (do let a ← first
        let b ← second
        return pair a b) state =
      (pair (first state).1 (second (first state).2).1, (second (first state).2).2) :=
  rfl

/-- **Writes at diverging places can be exchanged**, whatever comes of each. -/
theorem attempt_comm (hn : ¬ names <+: others) (ho : ¬ others <+: names)
    (encoded otherEncoded : Decoded Json) :
    (do let first ← (ofNames names).attempt encoded
        let second ← (ofNames others).attempt otherEncoded
        return (first, second)) =
    (do let second ← (ofNames others).attempt otherEncoded
        let first ← (ofNames names).attempt encoded
        return (first, second)) := by
  funext document
  rw [run_pair, run_pair]
  cases hp : (ofNames names).setEncoded document encoded with
  | error e =>
    rw [attempt_of_error hp]
    cases hq : (ofNames others).setEncoded document otherEncoded with
    | error e' => rw [attempt_of_error hq, attempt_of_error hp]
    | ok other =>
      obtain ⟨hfails, -⟩ := setEncoded_exchange ho hn hq encoded
      rw [attempt_of_ok hq, attempt_of_error (hfails e hp)]
  | ok written =>
    obtain ⟨hfails, hsucceeds⟩ := setEncoded_exchange hn ho hp otherEncoded
    rw [attempt_of_ok hp]
    cases hq : (ofNames others).setEncoded document otherEncoded with
    | error e' => rw [attempt_of_error hq, attempt_of_error (hfails e' hq), attempt_of_ok hp]
    | ok other =>
      obtain ⟨both, hsecond, hfirst⟩ := hsucceeds other hq
      rw [attempt_of_ok hq, attempt_of_ok hsecond, attempt_of_ok hfirst]

/-- **Writes through handles obey the laws of a lens.** For every document,

    * after a write that succeeded, a write through the same handle has the outcome that it has without
      the first one, so that of two the second alone counts;
    * writing back what was read leaves the document as it is, for the whole document and for every
      handle whose parent is an object;
    * two writes through handles of which neither has names that begin with those of the other can be
      exchanged: the document is the same, and each of them fails, with its error, or succeeds as in the
      other order. -/
theorem handles_obey_lens_laws (names : List String) (document : Json) :
    (∀ first second between, (ofNames names).setEncoded document first = .ok between →
      (ofNames names).setEncoded between second = (ofNames names).setEncoded document second) ∧
    (∀ found, (ofNames names).get document = .ok found →
      (∀ parent last, names = parent ++ [last] →
        ∃ members, (ofNames parent).get document = .ok (.object members)) →
      (ofNames names).set document found = .ok document) ∧
    ∀ others, ¬ names <+: others → ¬ others <+: names → ∀ value other : Decoded Json,
      (do let first ← (ofNames names).attempt value
          let second ← (ofNames others).attempt other
          return (first, second)) =
      (do let second ← (ofNames others).attempt other
          let first ← (ofNames names).attempt value
          return (first, second)) := by
  refine ⟨?again, ?back, ?exchange⟩
  case again =>
    intro first second between h
    obtain ⟨value, rfl, hset⟩ := setEncoded_eq_ok.mp h
    cases second with
    | error e => rfl
    | ok later => exact set_set hset
  case back =>
    intro found hfound hparent
    rcases names.eq_nil_or_concat' with rfl | ⟨parent, last, rfl⟩
    · obtain rfl := Option.some.inj (get_eq_ok.mp hfound)
      exact set_root
    · obtain ⟨members, hobject⟩ := hparent parent last rfl
      exact set_get hobject hfound
  case exchange =>
    intro others hn ho value other
    exact attempt_comm hn ho value other

/-- The size of the camera is written twice, its old value is written back, and it is written before or
    after a new member beside it, or a member of a camera that is not there. -/
theorem cameras_lens_laws :
    (∃ between, (ofNames ["cameras", "0", "lut/size"]).setEncoded cameras (.ok (.nat 64)) = .ok between ∧
      (ofNames ["cameras", "0", "lut/size"]).setEncoded between (.ok (.nat 16)) =
        (ofNames ["cameras", "0", "lut/size"]).setEncoded cameras (.ok (.nat 16))) ∧
    (ofNames ["cameras", "0", "lut/size"]).get cameras = .ok (.nat 32) ∧
    (ofNames ["cameras", "0", "lut/size"]).set cameras (.nat 32) = .ok cameras ∧
    ∀ others ∈ [["cameras", "0", "format"], ["cameras", "1", "~"]],
      ¬ ["cameras", "0", "lut/size"] <+: others ∧ ¬ others <+: ["cameras", "0", "lut/size"] ∧
      (do let first ← (ofNames ["cameras", "0", "lut/size"]).attempt (.ok (.nat 64))
          let second ← (ofNames others).attempt (.ok .null)
          return (first, second)) =
      (do let second ← (ofNames others).attempt (.ok .null)
          let first ← (ofNames ["cameras", "0", "lut/size"]).attempt (.ok (.nat 64))
          return (first, second)) := by
  obtain ⟨again, back, exchange⟩ := handles_obey_lens_laws ["cameras", "0", "lut/size"] cameras
  have hcamera : ∃ members, (ofNames ["cameras", "0"]).get cameras = .ok (.object members) :=
    ⟨_, get_eq_ok.mpr rfl⟩
  obtain ⟨between, hfirst⟩ : ∃ between,
      (ofNames ["cameras", "0", "lut/size"]).set cameras (.nat 64) = .ok between :=
    exists_set_iff.mpr hcamera
  have hread : (ofNames ["cameras", "0", "lut/size"]).get cameras = .ok (.nat 32) := get_eq_ok.mpr rfl
  refine ⟨⟨between, hfirst, again (.ok (.nat 64)) _ between hfirst⟩, hread, back _ hread ?_, ?_⟩
  · intro parent last h
    have hnames : ["cameras", "0"] ++ ["lut/size"] = parent ++ [last] := h
    obtain ⟨rfl, -⟩ := List.append_inj' hnames rfl
    exact hcamera
  · intro others hmem
    have hdiverge : ¬ ["cameras", "0", "lut/size"] <+: others ∧
        ¬ others <+: ["cameras", "0", "lut/size"] := by
      rcases List.mem_cons.mp hmem with rfl | hmem
      · decide
      · obtain rfl := List.mem_singleton.mp hmem
        decide
    exact ⟨hdiverge.1, hdiverge.2, exchange others hdiverge.1 hdiverge.2 _ _⟩

end Property
end EffectGraph
