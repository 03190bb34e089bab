import EffectGraph.Attribute
import EffectGraph.Proofs.FirstAppearance

/-!
# `Proofs.Merging` — merging requirements is a join that loses nothing and adds nothing

Merging adds one requirement at a time: an attribute that the list has already keeps its place, and a
new one goes to the end. So the attributes of a merged list are those of the list it started from,
followed by the new ones in the order in which they first occur. Modes only widen, and just as far as
the requirements of the attribute ask for; where all of them agree on the mode, merging does not change
it.

A list sums up the requirements that led to it (`SumsUp`). One addition keeps this up
(`SumsUp.add`), so merging does (`SumsUp.merge`), and a merged list can be written down from the
requirements alone (`merge_eq_map`). What is said of merging twice, in parts or in another order is read
off from there.

## Contents
- `attributes_merge`, the order of a merged list, and `HaveModes`, modes that are given beforehand.
- `modeOf`, the mode that some requirements ask for together, and `SumsUp`.
- `merge_of_subset` and `merge_perm`, merging what was merged before and merging in another order.
-/

namespace EffectGraph

namespace AccessMode

theorem union_self (mode : AccessMode) : mode.union mode = mode := by
  cases mode <;> rfl

/-- The mode that reads, writes or does both. -/
def ofAccess (reads writes : Bool) : AccessMode :=
  match reads, writes with
  | true, true => .readWrite
  | false, true => .write
  | _, false => .read

theorem union_eq (a b : AccessMode) : a.union b = ofAccess (a.reads || b.reads) (a.writes || b.writes) := by
  cases a <;> cases b <;> rfl

theorem ofAccess_reads_writes (mode : AccessMode) : ofAccess mode.reads mode.writes = mode := by
  cases mode <;> rfl

theorem writes_ofAccess (reads writes : Bool) : (ofAccess reads writes).writes = writes := by
  cases reads <;> cases writes <;> rfl

/-- A mode that does nothing is left out, so reading is what is left when there is no writing. -/
theorem reads_ofAccess {reads writes : Bool} (h : (reads || writes) = true) :
    (ofAccess reads writes).reads = reads := by
  cases reads <;> cases writes <;> first | rfl | cases h

theorem reads_or_writes (mode : AccessMode) : (mode.reads || mode.writes) = true := by
  cases mode <;> rfl

end AccessMode

namespace Requirement

/-- The attributes of a list of requirements, in order. -/
def attributes (list : List Requirement) : List Attribute := list.map (·.attr)

variable {list more : List Requirement} {new : Requirement}

/-! ## One requirement -/

/-- An addition widens a mode or appends an attribute. -/
theorem attributes_add (list : List Requirement) (new : Requirement) :
    attributes (add list new) = pushNew (attributes list) new.attr := by
  unfold pushNew
  induction list with
  | nil => simp [add, attributes]
  | cons old rest ih =>
    rw [add]
    by_cases h : old.attr = new.attr
    · rw [if_pos h]
      have hmem : new.attr ∈ attributes (old :: rest) := by simp [attributes, h]
      rw [if_pos hmem]
      rfl
    · rw [if_neg h]
      have hmem : new.attr ∈ attributes (old :: rest) ↔ new.attr ∈ attributes rest := by
        simp [attributes, Ne.symm h]
      show old.attr :: attributes (add rest new) = _
      rw [ih]
      simp only [hmem]
      by_cases hr : new.attr ∈ attributes rest
      · rw [if_pos hr, if_pos hr]; rfl
      · rw [if_neg hr, if_neg hr]; rfl

theorem nodup_add (h : (attributes list).Nodup) : (attributes (add list new)).Nodup := by
  rw [attributes_add]
  exact nodup_pushNew h

/-- Every requirement has the mode that `mode` gives its attribute. -/
def HaveModes (mode : Attribute → AccessMode) (list : List Requirement) : Prop :=
  ∀ requirement ∈ list, requirement.mode = mode requirement.attr

instance (mode : Attribute → AccessMode) (list : List Requirement) : Decidable (HaveModes mode list) :=
  inferInstanceAs (Decidable (∀ requirement ∈ list, _))

theorem HaveModes.add {mode : Attribute → AccessMode} (h : HaveModes mode list)
    (hn : new.mode = mode new.attr) : HaveModes mode (Requirement.add list new) := by
  induction list with
  | nil => simpa [Requirement.add, HaveModes] using hn
  | cons old rest ih =>
    obtain ⟨hold, hrest⟩ : old.mode = mode old.attr ∧ HaveModes mode rest :=
      List.forall_mem_cons.mp h
    rw [Requirement.add]
    by_cases ha : old.attr = new.attr
    · rw [if_pos ha]
      refine List.forall_mem_cons.mpr ⟨?_, hrest⟩
      -- both modes are the one of the attribute, so there is nothing to widen
      show old.mode.union new.mode = mode old.attr
      rw [hn, ← ha, hold, AccessMode.union_self]
    · rw [if_neg ha]
      exact List.forall_mem_cons.mpr ⟨hold, ih hrest⟩

/-! ## Any number of them -/

theorem nodup_merge (h : (attributes list).Nodup) : (attributes (merge list more)).Nodup := by
  induction more generalizing list with
  | nil => exact h
  | cons new rest ih => exact ih (nodup_add h)

theorem HaveModes.merge {mode : Attribute → AccessMode} (h : HaveModes mode list)
    (hm : HaveModes mode more) : HaveModes mode (Requirement.merge list more) := by
  induction more generalizing list with
  | nil => exact h
  | cons new rest ih =>
    obtain ⟨hnew, hrest⟩ := List.forall_mem_cons.mp hm
    exact ih (h.add hnew) hrest

theorem attributes_merge_eq_foldl (list more : List Requirement) :
    attributes (merge list more) = (attributes more).foldl pushNew (attributes list) := by
  induction more generalizing list with
  | nil => rfl
  | cons new rest ih =>
    have hstep : attributes (merge list (new :: rest)) = attributes (merge (add list new) rest) := rfl
    rw [hstep, ih, attributes_add]
    rfl

/-- **The order of a merged list**: what was there, then what is new, as it first occurs. -/
theorem attributes_merge (list more : List Requirement) :
    attributes (merge list more) =
      attributes list ++ ((attributes more).removeAll (attributes list)).eraseDups := by
  rw [attributes_merge_eq_foldl, foldl_pushNew]

/-- The attributes of a list that was merged from nothing, as they first occur. -/
theorem attributes_merge_nil (more : List Requirement) :
    attributes (merge [] more) = (attributes more).eraseDups := by
  rw [attributes_merge_eq_foldl]
  exact foldl_pushNew_nil (attributes more)

/-! ## The mode that requirements ask for -/

variable {source : List Requirement} {a : Attribute}

/-- The mode that allows what some of the requirements of an attribute allows. -/
def modeOf (source : List Requirement) (a : Attribute) : AccessMode :=
  .ofAccess (source.any fun r => r.attr = a && r.mode.reads)
    (source.any fun r => r.attr = a && r.mode.writes)

theorem modeOf_writes : (modeOf source a).writes = true ↔ ∃ r ∈ source, r.attr = a ∧ r.mode.writes := by
  rw [modeOf, AccessMode.writes_ofAccess]
  simp

/-- What is asked for an attribute is reading, writing or both. -/
theorem any_reads_or_any_writes (h : a ∈ attributes source) :
    ((source.any fun r => r.attr = a && r.mode.reads) ||
      source.any fun r => r.attr = a && r.mode.writes) = true := by
  obtain ⟨r, hr, rfl⟩ := List.mem_map.mp h
  rcases Bool.or_eq_true_iff.mp r.mode.reads_or_writes with hreads | hwrites
  · have hany : source.any (fun s => s.attr = r.attr && s.mode.reads) = true :=
      List.any_eq_true.mpr ⟨r, hr, by simp [hreads]⟩
    rw [hany, Bool.true_or]
  · have hany : source.any (fun s => s.attr = r.attr && s.mode.writes) = true :=
      List.any_eq_true.mpr ⟨r, hr, by simp [hwrites]⟩
    rw [hany, Bool.or_true]

theorem modeOf_reads (h : a ∈ attributes source) :
    (modeOf source a).reads = true ↔ ∃ r ∈ source, r.attr = a ∧ r.mode.reads := by
  rw [modeOf, AccessMode.reads_ofAccess (any_reads_or_any_writes h)]
  simp

/-- Neither the order nor the number of the requirements matters. -/
theorem modeOf_congr {other : List Requirement} (h : ∀ r, r ∈ source ↔ r ∈ other) :
    modeOf source = modeOf other := by
  have hany : ∀ p : Requirement → Bool, source.any p = other.any p := by
    intro p
    rw [Bool.eq_iff_iff, List.any_eq_true, List.any_eq_true]
    simp only [h]
  funext a
  rw [modeOf, modeOf, hany, hany]

theorem modeOf_append_of_ne (h : new.attr ≠ a) : modeOf (source ++ [new]) a = modeOf source a := by
  simp [modeOf, h]

/-- A further requirement of an attribute widens its mode. -/
theorem modeOf_append_of_mem (h : new.attr ∈ attributes source) :
    modeOf (source ++ [new]) new.attr = (modeOf source new.attr).union new.mode := by
  rw [AccessMode.union_eq, modeOf, modeOf, AccessMode.writes_ofAccess,
    AccessMode.reads_ofAccess (any_reads_or_any_writes h)]
  simp

theorem modeOf_append_of_not_mem (h : new.attr ∉ attributes source) :
    modeOf (source ++ [new]) new.attr = new.mode := by
  have hnone : ∀ p : AccessMode → Bool, source.any (fun r => r.attr = new.attr && p r.mode) = false := by
    intro p
    rw [List.any_eq_false]
    intro r hr
    have hne : r.attr ≠ new.attr := fun he => h (List.mem_map.mpr ⟨r, hr, he⟩)
    simp [hne]
  rw [modeOf, List.any_append, List.any_append, hnone, hnone]
  simp [AccessMode.ofAccess_reads_writes]

/-! ## Lists that sum up requirements -/

/-- The requirement with a wider mode, if the other one is of the same attribute. -/
def widen (new old : Requirement) : Requirement :=
  if old.attr = new.attr then ⟨old.attr, old.mode.union new.mode⟩ else old

/-- In a list without repeated attributes, an addition widens the one entry of its attribute. -/
theorem add_of_mem (h : (attributes list).Nodup) (hmem : new.attr ∈ attributes list) :
    add list new = list.map (widen new) := by
  induction list with
  | nil => cases hmem
  | cons old rest ih =>
    obtain ⟨hold, hrest⟩ : old.attr ∉ attributes rest ∧ (attributes rest).Nodup := List.nodup_cons.mp h
    rw [add, List.map_cons, widen]
    by_cases ha : old.attr = new.attr
    · rw [if_pos ha, if_pos ha]
      -- no later entry is of the attribute
      have hlater : rest.map (widen new) = rest := by
        have hid : ∀ r ∈ rest, widen new r = id r := by
          intro r hr
          have hne : r.attr ≠ new.attr := by
            intro he
            exact hold (List.mem_map.mpr ⟨r, hr, he.trans ha.symm⟩)
          rw [widen, if_neg hne, id]
        rw [List.map_congr_left hid, List.map_id]
      rw [hlater]
    · rw [if_neg ha, if_neg ha]
      have hmem' : new.attr ∈ attributes rest := by
        rcases List.mem_cons.mp hmem with he | hmem'
        · exact absurd he.symm ha
        · exact hmem'
      rw [ih hrest hmem']

theorem add_of_not_mem (h : new.attr ∉ attributes list) : add list new = list ++ [new] := by
  induction list with
  | nil => rfl
  | cons old rest ih =>
    obtain ⟨hne, hrest⟩ := not_or.mp (mt List.mem_cons.mpr h)
    rw [add, if_neg (Ne.symm hne), ih hrest, List.cons_append]

/-- The list has the attributes of the requirements, each once and with the mode that they ask for. -/
structure SumsUp (list source : List Requirement) : Prop where
  nodup : (attributes list).Nodup
  attributes_iff : ∀ a, a ∈ attributes list ↔ a ∈ attributes source
  modes : HaveModes (modeOf source) list

/-- **An addition keeps this up**, with one requirement more to sum up. -/
theorem SumsUp.add (h : SumsUp list source) (new : Requirement) :
    SumsUp (Requirement.add list new) (source ++ [new]) where
  nodup := nodup_add h.nodup
  attributes_iff := by
    intro a
    rw [attributes_add, mem_pushNew, h.attributes_iff]
    simp [attributes, eq_comm]
  modes := by
    by_cases hmem : new.attr ∈ attributes list
    · have hsource : new.attr ∈ attributes source := (h.attributes_iff _).mp hmem
      rw [add_of_mem h.nodup hmem]
      intro r hr
      obtain ⟨old, hold, rfl⟩ := List.mem_map.mp hr
      rw [widen]
      by_cases ha : old.attr = new.attr
      · rw [if_pos ha]
        show old.mode.union new.mode = modeOf (source ++ [new]) old.attr
        rw [h.modes old hold, ha, modeOf_append_of_mem hsource]
      · rw [if_neg ha, h.modes old hold, modeOf_append_of_ne (Ne.symm ha)]
    · have hsource : new.attr ∉ attributes source := mt (h.attributes_iff _).mpr hmem
      rw [add_of_not_mem hmem]
      intro r hr
      rcases List.mem_append.mp hr with hr | hr
      · have hne : new.attr ≠ r.attr := by
          intro he
          exact hmem (List.mem_map.mpr ⟨r, hr, he.symm⟩)
        rw [h.modes r hr, modeOf_append_of_ne hne]
      · obtain rfl := List.mem_singleton.mp hr
        rw [modeOf_append_of_not_mem hsource]

/-- **So does merging.** -/
theorem SumsUp.merge (h : SumsUp list source) (more : List Requirement) :
    SumsUp (Requirement.merge list more) (source ++ more) := by
  induction more generalizing list source with
  | nil => rwa [List.append_nil]
  | cons new rest ih =>
    rw [List.append_cons]
    exact ih (h.add new)

theorem sumsUp_nil : SumsUp [] [] where
  nodup := List.nodup_nil
  attributes_iff := fun _ => Iff.rfl
  modes := by
    intro r hr
    cases hr

/-- Requirements of distinct new attributes are appended as they are. -/
theorem merge_of_nodup (h : (attributes (list ++ more)).Nodup) : merge list more = list ++ more := by
  induction more generalizing list with
  | nil => rw [List.append_nil]; rfl
  | cons new rest ih =>
    have hnew : new.attr ∉ attributes list := by
      intro hmem
      rw [attributes, List.map_append, List.nodup_append] at h
      obtain ⟨-, -, hdisjoint⟩ := h
      exact hdisjoint _ hmem _ (List.mem_map_of_mem List.mem_cons_self) rfl
    rw [List.append_cons] at h ⊢
    rw [← ih h, ← add_of_not_mem hnew]
    rfl

/-- A list without repeated attributes sums up itself. -/
theorem SumsUp.self (h : (attributes list).Nodup) : SumsUp list list := by
  have hmerge : Requirement.merge [] list = list := merge_of_nodup h
  have hsums : SumsUp (Requirement.merge [] list) list := sumsUp_nil.merge list
  rwa [hmerge] at hsums

/-- A list is determined by its attributes and their modes. -/
theorem HaveModes.eq_map {mode : Attribute → AccessMode} (h : HaveModes mode list) :
    list = (attributes list).map fun a => ⟨a, mode a⟩ := by
  have hentry : ∀ r ∈ list, (⟨r.attr, mode r.attr⟩ : Requirement) = id r := by
    intro r hr
    rw [← h r hr]
    rfl
  rw [attributes, List.map_map]
  exact ((List.map_congr_left hentry).trans (List.map_id list)).symm

/-! ## What merging comes to -/

/-- What sums up a list of requirements sums up the merged list. -/
theorem sumsUp_merge (h : (attributes list).Nodup) (more : List Requirement) :
    SumsUp (merge list more) (list ++ more) :=
  (SumsUp.self h).merge more

/-- **A merged list, written down from the requirements**: each attribute in its place, with the mode
    that the requirements ask for together. -/
theorem merge_eq_map (h : (attributes list).Nodup) (more : List Requirement) :
    merge list more =
      (attributes list ++ ((attributes more).removeAll (attributes list)).eraseDups).map
        fun a => ⟨a, modeOf (list ++ more) a⟩ := by
  rw [← attributes_merge]
  exact (sumsUp_merge h more).modes.eq_map

theorem merge_append (list first rest : List Requirement) :
    merge list (first ++ rest) = merge (merge list first) rest :=
  List.foldl_append

/-- **Merging again what was merged before changes nothing**, in any selection and order. -/
theorem merge_of_subset (h : (attributes list).Nodup) {again : List Requirement}
    (hagain : again ⊆ list ++ more) : merge (merge list more) again = merge list more := by
  have hmerged : SumsUp (merge list more) (list ++ more) := sumsUp_merge h more
  -- no attribute is new, and no mode is asked for that was not asked for before
  have hnone : (attributes again).removeAll (attributes (merge list more)) = [] := by
    apply List.eq_nil_iff_forall_not_mem.mpr
    intro a ha
    obtain ⟨hin, hout⟩ := mem_removeAll.mp ha
    obtain ⟨r, hr, rfl⟩ := List.mem_map.mp hin
    exact hout ((hmerged.attributes_iff _).mpr (List.mem_map_of_mem (hagain hr)))
  have hattributes : attributes (merge (merge list more) again) = attributes (merge list more) := by
    rw [attributes_merge, hnone]
    simp
  have hmode : modeOf (list ++ more ++ again) = modeOf (list ++ more) := by
    apply modeOf_congr
    intro r
    rw [List.mem_append]
    exact ⟨fun hr => hr.elim id (fun hr => hagain hr), .inl⟩
  have hmodes : HaveModes (modeOf (list ++ more)) (merge (merge list more) again) := by
    rw [← hmode]
    exact (hmerged.merge again).modes
  rw [hmodes.eq_map, hattributes, ← hmerged.modes.eq_map]

/-- **Another order of the requirements changes the order of the new attributes and nothing else.** -/
theorem merge_perm (h : (attributes list).Nodup) {other : List Requirement} (hperm : more.Perm other) :
    ∃ kept new new', merge list more = kept ++ new ∧ merge list other = kept ++ new' ∧
      attributes kept = attributes list ∧ new.Perm new' := by
  have hmode : modeOf (list ++ other) = modeOf (list ++ more) := by
    apply modeOf_congr
    intro r
    rw [List.mem_append, List.mem_append, hperm.mem_iff]
  have hattributes : (attributes more).Perm (attributes other) := hperm.map _
  have hnew : ((attributes more).removeAll (attributes list)).eraseDups.Perm
      ((attributes other).removeAll (attributes list)).eraseDups := by
    apply (List.perm_ext_iff_of_nodup (nodup_eraseDups _) (nodup_eraseDups _)).mpr
    intro a
    rw [List.mem_eraseDups, List.mem_eraseDups, mem_removeAll, mem_removeAll, hattributes.mem_iff]
  refine ⟨(attributes list).map fun a => ⟨a, modeOf (list ++ more) a⟩, _, _, ?_, ?_, ?_,
    hnew.map fun a => (⟨a, modeOf (list ++ more) a⟩ : Requirement)⟩
  · rw [merge_eq_map h, List.map_append]
  · rw [merge_eq_map h, hmode, List.map_append]
  · rw [attributes, List.map_map]
    exact List.map_id _

/-- **Merging is a lossless and exact join.** For a list without repeated attributes and any requirements
    that are merged into it,

    * the merged list has no repeated attributes: those of the list stand first, in their order, and the
      new ones follow in the order in which they first occur;
    * the mode of an attribute reads exactly if some requirement of it, in the list or merged into it,
      reads, and writes exactly if one of them writes;
    * merging requirements again that were there before changes nothing;
    * merging in two parts gives what merging at once gives;
    * merging in another order gives the same entries for the attributes of the list, and the new ones
      in another order. -/
theorem merge_is_exact_join (h : (attributes list).Nodup) (more : List Requirement) :
    (attributes (merge list more)).Nodup ∧
    attributes (merge list more) =
      attributes list ++ ((attributes more).removeAll (attributes list)).eraseDups ∧
    (∀ entry ∈ merge list more,
      (entry.mode.reads ↔ ∃ r ∈ list ++ more, r.attr = entry.attr ∧ r.mode.reads) ∧
      (entry.mode.writes ↔ ∃ r ∈ list ++ more, r.attr = entry.attr ∧ r.mode.writes)) ∧
    (∀ again, again ⊆ list ++ more → merge (merge list more) again = merge list more) ∧
    (∀ first rest, more = first ++ rest → merge list more = merge (merge list first) rest) ∧
    ∀ other, more.Perm other →
      ∃ kept new new', merge list more = kept ++ new ∧ merge list other = kept ++ new' ∧
        attributes kept = attributes list ∧ new.Perm new' := by
  have hmerged : SumsUp (merge list more) (list ++ more) := sumsUp_merge h more
  refine ⟨hmerged.nodup, attributes_merge list more, ?modes, ?again, ?parts, ?order⟩
  case modes =>
    intro entry he
    have hattribute : entry.attr ∈ attributes (list ++ more) :=
      (hmerged.attributes_iff _).mp (List.mem_map_of_mem he)
    rw [hmerged.modes entry he]
    exact ⟨modeOf_reads hattribute, modeOf_writes⟩
  case again =>
    intro again hagain
    exact merge_of_subset h hagain
  case parts =>
    rintro first rest rfl
    exact merge_append list first rest
  case order =>
    intro other hperm
    exact merge_perm h hperm

/-- What a block has that reads where the particle is. -/
def positioned : List Requirement := [⟨.particleId, .read⟩, ⟨.position, .read⟩]

/-- Two more blocks write the position and move the target. Neither the target that is met twice nor the
    block that is merged again is listed again, and the position is now read and written. -/
theorem positioned_merged :
    (attributes positioned).Nodup ∧
    attributes (merge positioned [⟨.targetPosition, .write⟩, ⟨.position, .write⟩, ⟨.targetPosition, .read⟩]) =
      [.particleId, .position, .targetPosition] ∧
    (⟨.position, .readWrite⟩ : Requirement) ∈
      merge positioned [⟨.targetPosition, .write⟩, ⟨.position, .write⟩, ⟨.targetPosition, .read⟩] ∧
    AccessMode.readWrite.writes ∧
    merge (merge positioned [⟨.targetPosition, .write⟩, ⟨.position, .write⟩, ⟨.targetPosition, .read⟩])
        [⟨.position, .write⟩, ⟨.particleId, .read⟩] =
      merge positioned [⟨.targetPosition, .write⟩, ⟨.position, .write⟩, ⟨.targetPosition, .read⟩] := by
  have h : (attributes positioned).Nodup := by decide
  obtain ⟨-, order, modes, again, -, -⟩ := merge_is_exact_join h
    [⟨.targetPosition, .write⟩, ⟨.position, .write⟩, ⟨.targetPosition, .read⟩]
  have hentry : (⟨.position, .readWrite⟩ : Requirement) ∈
      merge positioned [⟨.targetPosition, .write⟩, ⟨.position, .write⟩, ⟨.targetPosition, .read⟩] := by
    decide
  obtain ⟨-, hwrites⟩ := modes _ hentry
  exact ⟨h, order, hentry, hwrites.mpr ⟨⟨.position, .write⟩, by decide, rfl, rfl⟩,
    again _ (by decide)⟩

end Requirement
end EffectGraph
