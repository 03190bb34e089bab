import EffectGraph.Table

/-!
# `Proofs.Tables` — tables after one insertion and after two

A name that was inserted has the new value and every other name has what it had
(`Table.get?_insert_self`, `Table.get?_insert_of_ne`). Of two insertions of one name the second counts
(`Table.insert_insert`), two of different names can be exchanged (`Table.insert_comm`), and inserting
what a name has already leaves the table as it is (`Table.insert_get?`). The two ways in which an
insertion can go, replacing an entry and placing a new one, are shown apart, each by induction on the
table.
-/

namespace EffectGraph.Table

variable {α : Type} {table : Table α} {name other : String} {value old otherValue : α}

/-! ## Names -/

theorem names_nil : names ([] : List (String × α)) = [] := rfl

theorem names_cons (entry : String × α) (rest : List (String × α)) :
    names (entry :: rest) = entry.1 :: names rest :=
  rfl

theorem names_append (entries rest : List (String × α)) :
    names (entries ++ rest) = names entries ++ names rest :=
  List.map_append

theorem has_iff_mem_names {table : Table α} {name : String} :
    table.has name ↔ name ∈ table.names := by
  unfold has get? names
  induction table with
  | nil => simp
  | cons entry rest ih =>
    obtain ⟨key, value⟩ := entry
    rw [List.lookup_cons, List.map_cons, List.mem_cons]
    by_cases h : name = key
    · simp [h]
    · rw [beq_eq_false_iff_ne.mpr h, or_iff_right h]
      exact ih

/-! ## Values -/

theorem get?_cons (key : String) :
    get? ((key, old) :: table) name = if name = key then some old else table.get? name := by
  rw [get?, get?, List.lookup_cons]
  by_cases h : name = key
  · simp [h]
  · simp [h, beq_false_of_ne h]

/-- An entry that was replaced has the new value. -/
theorem get?_replace_self (h : table.get? name = some old) :
    get? (replace name value table) name = some value := by
  induction table with
  | nil => cases h
  | cons entry rest ih =>
    obtain ⟨key, first⟩ := entry
    rw [replace]
    by_cases hk : key = name
    · rw [if_pos hk, get?_cons, if_pos hk.symm]
    · rw [get?_cons, if_neg (Ne.symm hk)] at h
      rw [if_neg hk, get?_cons, if_neg (Ne.symm hk), ih h]

/-- Replacing an entry leaves the entries of other names alone. -/
theorem get?_replace_of_ne (h : other ≠ name) :
    get? (replace name value table) other = table.get? other := by
  induction table with
  | nil => rfl
  | cons entry rest ih =>
    obtain ⟨key, first⟩ := entry
    rw [replace]
    by_cases hk : key = name
    · rw [if_pos hk, get?_cons, get?_cons, if_neg (hk ▸ h), if_neg (hk ▸ h)]
    · rw [if_neg hk, get?_cons, get?_cons, ih]

theorem get?_place_self (h : table.get? name = none) :
    get? (place name value table) name = some value := by
  induction table with
  | nil => rw [place, get?_cons, if_pos rfl]
  | cons entry rest ih =>
    obtain ⟨key, first⟩ := entry
    rw [place]
    split
    next => rw [get?_cons, if_pos rfl]
    next =>
      -- the entry that stands before is one of another name
      rw [get?_cons] at h
      by_cases hk : name = key
      · rw [if_pos hk] at h
        cases h
      · rw [if_neg hk] at h
        rw [get?_cons, if_neg hk, ih h]

theorem get?_place_of_ne (h : other ≠ name) :
    get? (place name value table) other = table.get? other := by
  induction table with
  | nil => rw [place, get?_cons, if_neg h]
  | cons entry rest ih =>
    obtain ⟨key, first⟩ := entry
    rw [place]
    split
    next => rw [get?_cons, if_neg h]
    next => rw [get?_cons, get?_cons, ih]

/-- A name has the value that was inserted for it, whether or not it had one before. -/
theorem get?_insert_self : (table.insert name value).get? name = some value := by
  rw [insert, has]
  cases h : table.get? name with
  | none => exact get?_place_self h
  | some old => exact get?_replace_self h

/-- An insertion leaves the values of other names alone. -/
theorem get?_insert_of_ne (h : other ≠ name) :
    (table.insert name value).get? other = table.get? other := by
  rw [insert]
  split
  next => exact get?_replace_of_ne h
  next => exact get?_place_of_ne h

/-! ## Two changes -/

/-- Replacing an entry by what it is changes nothing. -/
theorem replace_get? (h : table.get? name = some value) : replace name value table = table := by
  induction table with
  | nil => rfl
  | cons entry rest ih =>
    obtain ⟨key, first⟩ := entry
    rw [get?_cons] at h
    rw [replace]
    by_cases hk : key = name
    · rw [if_pos hk.symm] at h
      rw [if_pos hk, Option.some.inj h]
    · rw [if_neg (Ne.symm hk)] at h
      rw [if_neg hk, ih h]

theorem replace_replace : replace name value (replace name old table) = replace name value table := by
  induction table with
  | nil => rfl
  | cons entry rest ih =>
    obtain ⟨key, first⟩ := entry
    rw [replace, replace]
    by_cases hk : key = name
    · rw [if_pos hk, if_pos hk, replace, if_pos hk]
    · rw [if_neg hk, if_neg hk, replace, if_neg hk, ih]

/-- The entry that was placed for a new name is the one that is replaced. -/
theorem replace_place (h : table.get? name = none) :
    replace name value (place name old table) = place name value table := by
  induction table with
  | nil => rw [place, place, replace, if_pos rfl]
  | cons entry rest ih =>
    obtain ⟨key, first⟩ := entry
    rw [get?_cons] at h
    have hk : name ≠ key := by
      intro hk
      rw [if_pos hk] at h
      cases h
    rw [if_neg hk] at h
    rw [place, place]
    by_cases hlt : name < key
    · rw [if_pos hlt, if_pos hlt, replace, if_pos rfl]
    · rw [if_neg hlt, if_neg hlt, replace, if_neg hk.symm, ih h]

theorem replace_comm (h : other ≠ name) :
    replace other otherValue (replace name value table) =
      replace name value (replace other otherValue table) := by
  induction table with
  | nil => rfl
  | cons entry rest ih =>
    obtain ⟨key, first⟩ := entry
    by_cases hk : key = name
    · have ho : key ≠ other := fun ho => h (ho.symm.trans hk)
      simp only [replace, if_pos hk, if_neg ho]
    · by_cases ho : key = other
      · simp only [replace, if_neg hk, if_pos ho]
      · simp only [replace, if_neg hk, if_neg ho, ih]

theorem replace_place_of_ne (h : other ≠ name) :
    replace other otherValue (place name value table) =
      place name value (replace other otherValue table) := by
  induction table with
  | nil => simp only [place, replace, if_neg h.symm]
  | cons entry rest ih =>
    obtain ⟨key, first⟩ := entry
    -- the place of the new entry depends on the names alone, and those are not replaced
    by_cases hlt : name < key
    · by_cases ho : key = other
      · simp only [place, replace, if_pos hlt, if_pos ho, if_neg h.symm]
      · simp only [place, replace, if_pos hlt, if_neg ho, if_neg h.symm]
    · by_cases ho : key = other
      · simp only [place, replace, if_neg hlt, if_pos ho]
      · simp only [place, replace, if_neg hlt, if_neg ho, ih]

/-- The smaller of two names, placed after the greater, is placed in front of it. -/
theorem place_place_of_lt (h : name < other) :
    place name value (place other otherValue table) =
      place other otherValue (place name value table) := by
  have hge : ¬ other < name := String.lt_asymm h
  induction table with
  | nil => simp only [place, if_pos h, if_neg hge]
  | cons entry rest ih =>
    obtain ⟨key, first⟩ := entry
    by_cases ho : other < key
    · have hn : name < key := String.lt_trans h ho
      simp only [place, if_pos ho, if_pos hn, if_pos h, if_neg hge]
    · by_cases hn : name < key
      · simp only [place, if_neg ho, if_pos hn, if_neg hge]
      · simp only [place, if_neg ho, if_neg hn, ih]

theorem place_comm (h : other ≠ name) :
    place other otherValue (place name value table) =
      place name value (place other otherValue table) := by
  by_cases hlt : other < name
  · exact place_place_of_lt hlt
  · have hgt : name < other := by
      apply Classical.byContradiction
      intro hnot
      exact h (String.le_antisymm (String.not_lt.mp hnot) (String.not_lt.mp hlt))
    exact (place_place_of_lt hgt).symm

theorem has_congr {first : Table α} (h : first.get? name = table.get? name) :
    first.has name = table.has name := by
  rw [has, has, h]

/-- **The second of two insertions of a name counts.** -/
theorem insert_insert : (table.insert name old).insert name value = table.insert name value := by
  have hlater : (table.insert name old).has name = true := by rw [has, get?_insert_self]; rfl
  rw [insert, if_pos hlater, insert, insert]
  by_cases hn : table.has name
  · rw [if_pos hn, if_pos hn, replace_replace]
  · have hnone : table.get? name = none := by simpa [has] using hn
    rw [if_neg hn, if_neg hn, replace_place hnone]

/-- **Insertions of different names can be exchanged.** -/
theorem insert_comm (h : other ≠ name) :
    (table.insert name value).insert other otherValue =
      (table.insert other otherValue).insert name value := by
  have ho : (table.insert name value).has other = table.has other :=
    has_congr (get?_insert_of_ne h)
  have hn : (table.insert other otherValue).has name = table.has name :=
    has_congr (get?_insert_of_ne h.symm)
  rw [insert, ho, insert, insert, hn, insert]
  by_cases hname : table.has name
  · by_cases hother : table.has other
    · simp only [if_pos hname, if_pos hother, replace_comm h]
    · simp only [if_pos hname, if_neg hother, replace_place_of_ne h.symm]
  · by_cases hother : table.has other
    · simp only [if_neg hname, if_pos hother, replace_place_of_ne h]
    · simp only [if_neg hname, if_neg hother, place_comm h]

/-- Inserting what a name has already changes nothing. -/
theorem insert_get? (h : table.get? name = some value) : table.insert name value = table := by
  have hn : table.has name = true := by rw [has, h]; rfl
  rw [insert, if_pos hn, replace_get? h]

end EffectGraph.Table
