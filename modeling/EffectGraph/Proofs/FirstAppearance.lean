/-!
# `Proofs.FirstAppearance` — lists in the order in which their elements first occur

Requirements are merged and inputs are bound one after another: what is there already keeps its place
and what is new goes to the end. Such a history leaves the elements in the order in which they first
occur, each of them once (`foldl_pushNew`).
-/

namespace EffectGraph

/-! ## The first of some elements -/

section

variable {α : Type}

/-- What some element has, a first element has. -/
theorem exists_first {p : α → Prop} {list : List α} (h : ∃ a ∈ list, p a) :
    ∃ before a after, list = before ++ a :: after ∧ (∀ b ∈ before, ¬ p b) ∧ p a := by
  induction list with
  | nil =>
    obtain ⟨a, ha, -⟩ := h
    cases ha
  | cons first rest ih =>
    by_cases hp : p first
    · exact ⟨[], first, rest, rfl, by simp, hp⟩
    · obtain ⟨a, ha, hpa⟩ := h
      have hrest : ∃ a ∈ rest, p a := by
        rcases List.mem_cons.mp ha with rfl | ha
        · exact absurd hpa hp
        · exact ⟨a, ha, hpa⟩
      obtain ⟨before, b, after, rfl, hbefore, hb⟩ := ih hrest
      exact ⟨first :: before, b, after, rfl, List.forall_mem_cons.mpr ⟨hp, hbefore⟩, hb⟩

/-- The first element without a property, and what stands around it, is determined. -/
theorem first_unique {p : α → Prop} {before after before' after' : List α} {a a' : α}
    (h : before ++ a :: after = before' ++ a' :: after') (hbefore : ∀ b ∈ before, p b)
    (hbefore' : ∀ b ∈ before', p b) (ha : ¬ p a) (ha' : ¬ p a') :
    before = before' ∧ a = a' ∧ after = after' := by
  rcases List.append_eq_append_iff.mp h with ⟨between, rfl, hrest⟩ | ⟨between, rfl, hrest⟩
  · cases between with
    | nil => simpa using hrest
    | cons b between =>
      obtain ⟨rfl, -⟩ := List.cons.inj hrest
      exact absurd (hbefore' a (by simp)) ha
  · cases between with
    | nil => simpa using hrest.symm
    | cons b between =>
      obtain ⟨rfl, -⟩ := List.cons.inj hrest
      exact absurd (hbefore a' (by simp)) ha'

theorem nodup_append_singleton {list : List α} {a : α} (h : list.Nodup) (ha : a ∉ list) :
    (list ++ [a]).Nodup := by
  refine List.nodup_append.mpr ⟨h, by simp, ?_⟩
  intro b hb c hc hbc
  rw [List.mem_singleton] at hc
  exact ha (hc ▸ hbc ▸ hb)

/-- What goes on after elements without repetitions either repeats none of them or has a first element
    that occurred before it. -/
theorem exists_first_repetition_append {start list : List α} (hs : start.Nodup)
    (h : ¬ (start ++ list).Nodup) :
    ∃ before a after, start ++ list = before ++ a :: after ∧ before.Nodup ∧ a ∈ before := by
  induction list generalizing start with
  | nil =>
    rw [List.append_nil] at h
    exact absurd hs h
  | cons a rest ih =>
    by_cases ha : a ∈ start
    · exact ⟨start, a, rest, rfl, hs, ha⟩
    · -- the element is new, so the repetition comes after it
      rw [List.append_cons] at h ⊢
      exact ih (nodup_append_singleton hs ha) h

/-- A list with a repetition has a first element that occurred before it. -/
theorem exists_first_repetition {list : List α} (h : ¬ list.Nodup) :
    ∃ before a after, list = before ++ a :: after ∧ before.Nodup ∧ a ∈ before := by
  have hwhole : ¬ ([] ++ list).Nodup := h
  exact exists_first_repetition_append List.nodup_nil hwhole

end

variable {α : Type} [BEq α] [LawfulBEq α]

/-! ## Lists without their repetitions -/

theorem nodup_eraseDups (l : List α) : l.eraseDups.Nodup := by
  cases l with
  | nil => simp
  | cons a rest =>
    rw [List.eraseDups_cons, List.nodup_cons]
    refine ⟨?_, nodup_eraseDups (rest.filter fun b => !b == a)⟩
    intro h
    rw [List.mem_eraseDups, List.mem_filter] at h
    simp at h
  termination_by l.length
  decreasing_by exact Nat.lt_succ_of_le (List.length_filter_le _ _)

theorem mem_removeAll {before after : List α} {a : α} :
    a ∈ after.removeAll before ↔ a ∈ after ∧ a ∉ before := by
  simp [List.removeAll]

/-- Without repetitions, `a` stands before `b` exactly when it is met before `b` is. -/
theorem pair_sublist_eraseDups {a b : α} (hab : a ≠ b) {l : List α} :
    [a, b].Sublist l.eraseDups ↔ ∃ before after, l = before ++ a :: after ∧ b ∉ before ∧ b ∈ after := by
  constructor
  · intro h
    have hb : b ∈ l := List.mem_eraseDups.mp (h.subset (by simp))
    -- split where `b` is met first
    obtain ⟨before, after, rfl, hfirst⟩ := List.eq_append_cons_of_mem hb
    have ha : a ∈ before := by
      apply Classical.byContradiction
      intro ha
      -- otherwise `b` is listed at the split and `a` not up to there
      rw [List.append_cons, List.eraseDups_append, List.sublist_append_iff] at h
      obtain ⟨left, right, hsplit, hleft, hright⟩ := h
      cases left with
      | nil =>
        obtain rfl : [a, b] = right := hsplit
        have hlater : b ∈ after.removeAll (before ++ [b]) :=
          List.mem_eraseDups.mp (hright.subset (by simp))
        exact (mem_removeAll.mp hlater).2 (by simp)
      | cons c left =>
        obtain ⟨rfl, -⟩ := List.cons.inj hsplit
        have hearlier : a ∈ before ++ [b] := List.mem_eraseDups.mp (hleft.subset (by simp))
        simp [ha, hab] at hearlier
    obtain ⟨start, rest, rfl⟩ := List.append_of_mem ha
    refine ⟨start, rest ++ b :: after, by simp, ?_, by simp⟩
    intro hs
    exact hfirst (List.mem_append_left _ hs)
  · rintro ⟨before, after, rfl, hbefore, hafter⟩
    rw [List.append_cons, List.eraseDups_append]
    have hleft : a ∈ (before ++ [a]).eraseDups := List.mem_eraseDups.mpr (by simp)
    have hright : b ∈ (after.removeAll (before ++ [a])).eraseDups := by
      rw [List.mem_eraseDups, mem_removeAll]
      simp [hafter, hbefore, hab.symm]
    exact (List.singleton_sublist.mpr hleft).append (List.singleton_sublist.mpr hright)

/-! ## Lists that grow by what is new -/

/-- The list with an element at its end, unless the element is there already. -/
def pushNew (list : List α) (a : α) : List α := if a ∈ list then list else list ++ [a]

theorem nodup_pushNew {list : List α} {a : α} (h : list.Nodup) : (pushNew list a).Nodup := by
  unfold pushNew
  split
  next => exact h
  next hnew => exact nodup_append_singleton h hnew

theorem mem_pushNew {list : List α} {a b : α} : b ∈ pushNew list a ↔ b ∈ list ∨ b = a := by
  unfold pushNew
  split
  next ha =>
    constructor
    · exact .inl
    · rintro (hb | rfl)
      · exact hb
      · exact ha
  next => rw [List.mem_append, List.mem_singleton]

/-- **A list that grew by what is new** is what it was, followed by the new elements as they first
    occur. -/
theorem foldl_pushNew (list more : List α) :
    more.foldl pushNew list = list ++ (more.removeAll list).eraseDups := by
  induction more generalizing list with
  | nil => simp
  | cons a rest ih =>
    rw [List.foldl_cons, ih, List.cons_removeAll]
    unfold pushNew
    by_cases h : a ∈ list
    · simp [h]
    · -- the rest has to avoid one element more, which is what erasing its repetitions does
      have hrest : (rest.removeAll list).filter (fun b => !b == a) = rest.removeAll (list ++ [a]) := by
        rw [List.removeAll, List.removeAll, List.filter_filter]
        apply List.filter_congr
        intro b _
        by_cases hb : b = a <;> simp [hb]
      simp [h, List.eraseDups_cons, hrest]

theorem foldl_pushNew_nil (more : List α) : more.foldl pushNew [] = more.eraseDups := by
  rw [foldl_pushNew, List.nil_append, List.removeAll, List.filter_eq_self.mpr (by simp)]

end EffectGraph
