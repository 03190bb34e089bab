import EffectGraph.Json.Layout
import EffectGraph.Proofs.AscendingTables
import EffectGraph.Proofs.Lenses
import Mathlib.Data.List.Induction

/-!
# `Proofs.DistinctNames` — the objects of a document have each name once

The members of an object are a map, and as a list they are what insertions make of one. So an
object has each name once wherever it stands in a document that was read from a text
(`Json.distinctNames_ofText`), and no write through a handle changes that
(`Property.distinctNames_attempt`). The two make an invariant of the documents that there are, those that
were read and then edited (`Property.Edited.distinctNames`): a handle reads no other objects in them
(`Property.Edited.nodup_names`).
-/

namespace EffectGraph

open Outcome

/-! ## Tables -/

namespace Table

variable {α : Type} {table pairs : Table α} {name : String} {value : α} {entry : String × α}

theorem mem_of_mem_replace (h : entry ∈ replace name value table) :
    entry = (name, value) ∨ entry ∈ table := by
  induction table with
  | nil => cases h
  | cons first rest ih =>
    obtain ⟨key, old⟩ := first
    rw [replace] at h
    split at h
    next hkey =>
      rw [hkey, List.mem_cons] at h
      exact h.imp id (List.mem_cons_of_mem _)
    next =>
      rcases List.mem_cons.mp h with rfl | h
      · exact .inr List.mem_cons_self
      · exact (ih h).imp id (List.mem_cons_of_mem _)

/-- After an insertion a table has the new entry and none but old ones beside it. -/
theorem mem_of_mem_insert (h : entry ∈ table.insert name value) :
    entry = (name, value) ∨ entry ∈ table := by
  rw [insert] at h
  split at h
  next => exact mem_of_mem_replace h
  next => exact mem_place.mp h

/-- A table of pairs has distinct names and no other entries than the pairs. -/
theorem ofPairs_spec (pairs : List (String × α)) :
    (ofPairs pairs).names.Nodup ∧ ∀ entry ∈ ofPairs pairs, entry ∈ pairs := by
  unfold ofPairs
  -- from the back, since the last pair is inserted into the table of those before it
  induction pairs using List.reverseRecOn with
  | nil => exact ⟨List.nodup_nil, fun entry h => h⟩
  | append_singleton front last ih =>
    obtain ⟨hnames, hmem⟩ := ih
    rw [List.foldl_append]
    refine ⟨nodup_insert hnames, ?_⟩
    intro entry h
    rcases mem_of_mem_insert h with rfl | h
    · exact List.mem_append_right front List.mem_cons_self
    · exact List.mem_append_left [last] (hmem entry h)

theorem mem_of_get? (h : table.get? name = some value) : (name, value) ∈ table := by
  obtain ⟨front, rest, rfl, -⟩ := List.lookup_eq_some_iff.mp h
  exact List.mem_append_right front List.mem_cons_self

end Table

/-! ## Documents -/

namespace Json

/-- Every object in a value, at any depth, has each name once. -/
inductive DistinctNames : Json → Prop where
  | null : DistinctNames .null
  | bool (b : Bool) : DistinctNames (.bool b)
  | number (n : JsonNumber) : DistinctNames (.number n)
  | string (s : String) : DistinctNames (.string s)
  | array {items : List Json} (h : ∀ item ∈ items, DistinctNames item) : DistinctNames (.array items)
  | object {members : Table Json} (hnames : members.names.Nodup)
      (h : ∀ member ∈ members, DistinctNames member.2) : DistinctNames (.object members)

variable {names : List String} {name : String} {json place value : Json}

theorem DistinctNames.step? (h : json.DistinctNames) (hstep : json.step? name = some place) :
    place.DistinctNames := by
  cases step?_eq_some.mp hstep with
  | member hget =>
    cases h with
    | object _ h => exact h _ (Table.mem_of_get? hget)
  | item _ hitem =>
    cases h with
    | array h => exact h _ (List.mem_of_getElem? hitem)

/-- What names lead to has distinct names if the whole has. -/
theorem DistinctNames.follow? (h : json.DistinctNames) (hfollow : follow? names json = some place) :
    place.DistinctNames := by
  induction names generalizing json with
  | nil =>
    obtain rfl := Option.some.inj hfollow
    exact h
  | cons name rest ih =>
    rw [follow?_cons, Option.bind_eq_some_iff] at hfollow
    obtain ⟨child, hstep, hrest⟩ := hfollow
    exact ih (h.step? hstep) hrest

/-- Storing a value keeps names distinct. -/
theorem DistinctNames.store (h : json.DistinctNames) (hvalue : value.DistinctNames) :
    (store name value json).DistinctNames := by
  cases h with
  | object hnames h =>
    refine .object (Table.nodup_insert hnames) ?_
    intro member hmem
    rcases Table.mem_of_mem_insert hmem with rfl | hmem
    · exact hvalue
    · exact h member hmem
  | @array items h =>
    refine .array ?_
    intro item hmem
    rw [storeItem] at hmem
    split at hmem
    next => exact h item hmem
    next =>
      rcases List.mem_or_eq_of_mem_set hmem with hmem | rfl
      · exact h item hmem
      · exact hvalue
  | null => exact .null
  | bool b => exact .bool b
  | number n => exact .number n
  | string s => exact .string s

theorem DistinctNames.writeAt {last : String} {written : Json} (h : json.DistinctNames)
    (hvalue : value.DistinctNames) (hwrite : writeAt names last value json = .ok written) :
    written.DistinctNames := by
  induction names generalizing json written with
  | nil =>
    cases json with
    | object members =>
      obtain rfl := Except.ok.inj hwrite
      exact h.store hvalue
    | _ => cases hwrite
  | cons name rest ih =>
    cases hs : json.step? name with
    | none => rw [Json.writeAt, hs] at hwrite; cases hwrite
    | some child =>
      rw [writeAt_cons hs, map_eq_ok] at hwrite
      obtain ⟨inner, hinner, rfl⟩ := hwrite
      exact h.store (ih (h.step? hs) hinner)

/-! ## Texts -/

mutual

/-- What is read from a text has distinct names. -/
theorem distinctNames_settleFree {depth : Nat} {source : Source} {json : Json}
    (h : source.settleFree depth = some json) : json.DistinctNames := by
  cases source with
  | null => obtain rfl := Option.some.inj h; exact .null
  | bool b => obtain rfl := Option.some.inj h; exact .bool b
  | number n => obtain ⟨n, -, rfl⟩ := Option.map_eq_some_iff.mp h; exact .number n
  | string s => obtain ⟨s, -, rfl⟩ := Option.map_eq_some_iff.mp h; exact .string s
  | array items =>
    rw [Source.settleFree] at h
    split at h
    next => cases h
    next =>
      obtain ⟨values, hvalues, rfl⟩ := Option.map_eq_some_iff.mp h
      exact .array (distinctNames_settleItemsFree hvalues)
  | object members =>
    rw [Source.settleFree] at h
    split at h
    next => cases h
    next =>
      -- a name that was written twice is once in the table of what was written
      obtain ⟨pairs, hpairs, rfl⟩ := Option.map_eq_some_iff.mp h
      obtain ⟨hnames, hmem⟩ := Table.ofPairs_spec pairs
      refine .object hnames ?_
      intro member hmember
      exact distinctNames_settleMembersFree hpairs member (hmem member hmember)

theorem distinctNames_settleItemsFree {depth : Nat} {items : List Source} {values : List Json}
    (h : Source.settleItemsFree depth items = some values) : ∀ value ∈ values, value.DistinctNames := by
  cases items with
  | nil =>
    obtain rfl := Option.some.inj h
    exact List.forall_mem_nil _
  | cons item rest =>
    rw [Source.settleItemsFree, Option.bind_eq_bind, Option.bind_eq_some_iff] at h
    obtain ⟨first, hfirst, h⟩ := h
    obtain ⟨later, hlater, h⟩ := Option.bind_eq_some_iff.mp h
    obtain rfl := Option.some.inj h
    exact List.forall_mem_cons.mpr
      ⟨distinctNames_settleFree hfirst, distinctNames_settleItemsFree hlater⟩

theorem distinctNames_settleMembersFree {depth : Nat} {members : List (Option String × Source)}
    {pairs : List (String × Json)} (h : Source.settleMembersFree depth members = some pairs) :
    ∀ pair ∈ pairs, pair.2.DistinctNames := by
  cases members with
  | nil =>
    obtain rfl := Option.some.inj h
    exact List.forall_mem_nil _
  | cons member rest =>
    obtain ⟨name, source⟩ := member
    rw [Source.settleMembersFree, Option.bind_eq_bind, Option.bind_eq_some_iff] at h
    obtain ⟨name, -, h⟩ := h
    obtain ⟨first, hfirst, h⟩ := Option.bind_eq_some_iff.mp h
    obtain ⟨later, hlater, h⟩ := Option.bind_eq_some_iff.mp h
    obtain rfl := Option.some.inj h
    exact List.forall_mem_cons.mpr
      ⟨distinctNames_settleFree hfirst, distinctNames_settleMembersFree hlater⟩

end

/-- **The objects of a document that was read from a text have each name once.** -/
theorem distinctNames_ofText {text : String} {document : Json} (h : ofText text = some document) :
    document.DistinctNames := by
  obtain ⟨source, -, hsettle⟩ := Option.bind_eq_some_iff.mp h
  exact distinctNames_settleFree hsettle

end Json

namespace Property

variable {names : List String} {document value written : Json} {encoded : Decoded Json}
  {members : Table Json}

/-- **Writes through handles keep the names of every object distinct.** -/
theorem distinctNames_set (h : document.DistinctNames) (hvalue : value.DistinctNames)
    (hset : (ofNames names).set document value = .ok written) : written.DistinctNames := by
  rcases names.eq_nil_or_concat' with rfl | ⟨parent, last, rfl⟩
  · obtain rfl := Except.ok.inj hset
    exact hvalue
  · rw [set_ofNames_append, mapError_eq_ok] at hset
    exact h.writeAt hvalue hset

/-- One write, whatever comes of it. -/
theorem distinctNames_attempt (h : document.DistinctNames)
    (hvalue : ∀ value, encoded = .ok value → value.DistinctNames) :
    ((ofNames names).attempt encoded document).2.DistinctNames := by
  cases hset : (ofNames names).setEncoded document encoded with
  | error e =>
    rw [attempt_of_error hset]
    exact h
  | ok written =>
    rw [attempt_of_ok hset]
    obtain ⟨value, hencoded, hset⟩ := setEncoded_eq_ok.mp hset
    exact distinctNames_set h (hvalue value hencoded) hset

/-- A document that was read from a text and then edited through handles. Some of the writes may have
    failed. -/
inductive Edited : Json → Prop where
  | read {text : String} {document : Json} (h : Json.ofText text = some document) : Edited document
  | write {document : Json} (names : List String) (encoded : Decoded Json) (h : Edited document)
      (hvalue : ∀ value, encoded = .ok value → value.DistinctNames) :
      Edited ((ofNames names).attempt encoded document).2

/-- **The objects of an edited document have each name once.** -/
theorem Edited.distinctNames (h : Edited document) : document.DistinctNames := by
  induction h with
  | read h => exact Json.distinctNames_ofText h
  | write names encoded h hvalue ih => exact distinctNames_attempt ih hvalue

/-- Of an object that a handle reads in an edited document, the names are distinct. -/
theorem Edited.nodup_names (h : Edited document)
    (hget : (ofNames names).get document = .ok (.object members)) : members.names.Nodup := by
  cases h.distinctNames.follow? (get_eq_ok.mp hget) with
  | object hnames _ => exact hnames

end Property
end EffectGraph
