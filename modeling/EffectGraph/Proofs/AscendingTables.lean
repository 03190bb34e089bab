import EffectGraph.Proofs.Tables
import Mathlib.Data.List.Sort

/-!
# `Proofs.AscendingTables` — an ascending table is determined by what it says of names

Insertions keep names distinct (`nodup_insert`) and a table ascending (`Ascending.insert`). An ascending
table has each name once, so that its entries are the pairs that looking up gives (`Ascending.mem_iff`).
Two ascending tables that look up alike are therefore one list (`Ascending.ext`), whatever insertions led
to them.
-/

namespace EffectGraph.Table

variable {α : Type} {table other : Table α} {name key : String} {value old : α}

/-- The names of the entries ascend, each of them once. -/
def Ascending (table : Table α) : Prop := table.Pairwise fun a b => a.1 < b.1

theorem ascending_names (h : table.Ascending) : table.names.Pairwise (· < ·) :=
  List.pairwise_map.mpr h

/-! ## Insertions -/

theorem names_replace : names (replace name value table) = table.names := by
  induction table with
  | nil => rfl
  | cons entry rest ih =>
    obtain ⟨key, old⟩ := entry
    rw [replace]
    split
    next => rfl
    next => rw [names_cons, names_cons, ih]

/-- A new entry stands somewhere among the old ones. -/
theorem place_perm : (place name value table).Perm ((name, value) :: table) := by
  induction table with
  | nil => exact List.Perm.refl _
  | cons first rest ih =>
    obtain ⟨key, old⟩ := first
    rw [place]
    split
    next => exact List.Perm.refl _
    next => exact (ih.cons _).trans (List.Perm.swap _ _ _)

theorem mem_place {entry : String × α} :
    entry ∈ place name value table ↔ entry = (name, value) ∨ entry ∈ table := by
  rw [place_perm.mem_iff, List.mem_cons]

/-- Insertions keep names distinct. -/
theorem nodup_insert (h : table.names.Nodup) : (table.insert name value).names.Nodup := by
  rw [insert]
  split
  next =>
    rw [names_replace]
    exact h
  next hnew =>
    have hperm : (names (place name value table)).Perm (name :: table.names) := place_perm.map Prod.fst
    rw [hperm.nodup_iff, List.nodup_cons]
    exact ⟨fun hmem => hnew (has_iff_mem_names.mpr hmem), h⟩

theorem Ascending.replace (h : table.Ascending) : Ascending (Table.replace name value table) := by
  have hnames : (names (Table.replace name value table)).Pairwise (· < ·) := by
    rw [names_replace]
    exact ascending_names h
  exact List.pairwise_map.mp hnames

/-- A new name is placed between the smaller and the greater ones. -/
theorem Ascending.place (h : table.Ascending) (hn : name ∉ table.names) :
    Ascending (Table.place name value table) := by
  induction table with
  | nil => exact List.pairwise_singleton _ _
  | cons entry rest ih =>
    obtain ⟨key, old⟩ := entry
    obtain ⟨hkey, hrest⟩ := List.pairwise_cons.mp h
    rw [names_cons, List.mem_cons, not_or] at hn
    obtain ⟨hne, hnrest⟩ := hn
    rw [Table.place]
    split
    next hlt =>
      refine List.pairwise_cons.mpr ⟨?_, h⟩
      intro later hl
      rcases List.mem_cons.mp hl with rfl | hl
      · exact hlt
      · exact String.lt_trans hlt (hkey later hl)
    next hnot =>
      refine List.pairwise_cons.mpr ⟨?_, ih hrest hnrest⟩
      intro later hl
      rcases mem_place.mp hl with rfl | hl
      · -- the new name is neither smaller than the first one nor equal to it
        apply Classical.byContradiction
        intro hge
        exact hne (String.le_antisymm (String.not_lt.mp hge) (String.not_lt.mp hnot))
      · exact hkey later hl

theorem Ascending.insert (h : table.Ascending) : (table.insert name value).Ascending := by
  rw [Table.insert]
  split
  next => exact h.replace
  next hnew => exact h.place (fun hmem => hnew (has_iff_mem_names.mpr hmem))

/-! ## What is looked up -/

theorem exists_get?_iff : (∃ value, table.get? name = some value) ↔ name ∈ table.names := by
  rw [← has_iff_mem_names, has, Option.isSome_iff_exists]

theorem get?_eq_none (h : name ∉ table.names) : table.get? name = none := by
  rw [← has_iff_mem_names, has] at h
  simpa using h

/-- The entries are the pairs that looking up gives. -/
theorem Ascending.mem_iff (h : table.Ascending) :
    (name, value) ∈ table ↔ table.get? name = some value := by
  induction table with
  | nil => simp [get?]
  | cons entry rest ih =>
    obtain ⟨key, old⟩ := entry
    obtain ⟨hkey, hrest⟩ := List.pairwise_cons.mp h
    rw [get?_cons, List.mem_cons, ih hrest]
    by_cases hk : name = key
    · -- the name of the first entry is no later one
      subst hk
      have hnew : name ∉ names rest := by
        intro hmem
        obtain ⟨later, hl, hname⟩ := List.mem_map.mp hmem
        have hlt : name < later.1 := hkey later hl
        rw [hname] at hlt
        exact String.lt_irrefl name hlt
      rw [if_pos rfl, get?_eq_none hnew]
      simp [eq_comm]
    · simp [hk]

/-- **Ascending tables that look up alike are equal.** -/
theorem Ascending.ext (h : table.Ascending) (ho : other.Ascending)
    (halike : ∀ name value, table.get? name = some value ↔ other.get? name = some value) :
    table = other := by
  have hirrefl : Std.Irrefl fun a b : String × α => a.1 < b.1 := ⟨fun a => String.lt_irrefl a.1⟩
  have hantisymm : Std.Antisymm fun a b : String × α => a.1 < b.1 :=
    ⟨fun _ _ hab hba => absurd hba (String.lt_asymm hab)⟩
  refine List.Pairwise.eq_of_mem_iff h ho ?_
  rintro ⟨name, value⟩
  rw [h.mem_iff, ho.mem_iff]
  exact halike name value

end EffectGraph.Table
