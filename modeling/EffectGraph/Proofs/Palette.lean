import EffectGraph.Compile.Registry
import EffectGraph.Proofs.AscendingTables
import EffectGraph.Proofs.Traversal

/-!
# `Proofs.Palette` — registry and palette do not show in which order kinds were registered

A registry is the outcome of a history of registrations. Of a history it keeps the last kind of each
identity (`Registry.get?_ofHistory`), in a table that stays ascending, so that histories with the same
last kinds lead to one registry (`Registry.ofHistory_congr`).

The palette goes through `offers`: the registered kinds in ascending order of their identities, each
with its ready-made configurations in order. It has one entry for each offer, or the error of the first
offer whose block cannot be built.
-/

namespace EffectGraph

open Outcome

namespace BlockKind

/-- Among kinds in the order of their registration, the kind is the last one of its identity. -/
def IsLast (history : List BlockKind) (identity : String) (kind : BlockKind) : Prop :=
  ∃ before after, history = before ++ kind :: after ∧ kind.identity = identity ∧
    ∀ later ∈ after, later.identity ≠ identity

variable {history : List BlockKind} {identity : String} {kind first : BlockKind}

theorem IsLast.identity_eq (h : IsLast history identity kind) : kind.identity = identity := by
  obtain ⟨-, -, -, he, -⟩ := h
  exact he

/-- The last kind is in the rest of the history, or the rest has none of its identity. -/
theorem isLast_cons :
    IsLast (first :: history) identity kind ↔
      IsLast history identity kind ∨
        identity ∉ history.map (·.identity) ∧ first = kind ∧ kind.identity = identity := by
  constructor
  · rintro ⟨before, after, hsplit, he, hlast⟩
    cases before with
    | nil =>
      obtain ⟨rfl, rfl⟩ := List.cons.inj hsplit
      refine .inr ⟨?_, rfl, he⟩
      intro hmem
      obtain ⟨later, hl, hsame⟩ := List.mem_map.mp hmem
      exact hlast later hl hsame
    | cons _ before =>
      obtain ⟨-, rfl⟩ := List.cons.inj hsplit
      exact .inl ⟨before, after, rfl, he, hlast⟩
  · rintro (⟨before, after, rfl, he, hlast⟩ | ⟨hnone, rfl, he⟩)
    · exact ⟨first :: before, after, rfl, he, hlast⟩
    · refine ⟨[], history, rfl, he, ?_⟩
      intro later hl hsame
      exact hnone (List.mem_map.mpr ⟨later, hl, hsame⟩)

/-- An identity that occurs has a last kind. -/
theorem exists_isLast_iff : (∃ kind, IsLast history identity kind) ↔
    identity ∈ history.map (·.identity) := by
  induction history with
  | nil => simp [IsLast]
  | cons first rest ih =>
    simp only [isLast_cons, exists_or, ih, List.map_cons, List.mem_cons]
    constructor
    · rintro (hmem | ⟨kind, -, rfl, rfl⟩)
      · exact .inr hmem
      · exact .inl rfl
    · rintro (rfl | hmem)
      · by_cases hrest : first.identity ∈ rest.map (·.identity)
        · exact .inl hrest
        · exact .inr ⟨first, hrest, rfl, rfl⟩
      · exact .inl hmem

end BlockKind

namespace Registry

open BlockKind (IsLast)

variable {registry : Registry} {history : List BlockKind} {identity : String} {kind : BlockKind}

/-! ## Registering -/

/-- The registry after kinds were registered one after another. -/
def ofHistory (history : List BlockKind) : Registry := history.foldl register empty

/-- A registration decides what its own identity stands for, and nothing else. -/
theorem get?_register (registry : Registry) (kind : BlockKind) (identity : String) :
    (registry.register kind).get? identity =
      if identity = kind.identity then some kind else registry.get? identity := by
  unfold register get?
  by_cases h : identity = kind.identity
  · rw [if_pos h, h]
    exact Table.get?_insert_self
  · rw [if_neg h]
    exact Table.get?_insert_of_ne h

/-- What an identity stands for after a history: its last kind there, or what it stood for before. -/
theorem get?_foldl_register :
    (history.foldl register registry).get? identity = some kind ↔
      IsLast history identity kind ∨
        identity ∉ history.map (·.identity) ∧ registry.get? identity = some kind := by
  induction history generalizing registry with
  | nil => simp [IsLast]
  | cons first rest ih =>
    rw [List.foldl_cons, ih, BlockKind.isLast_cons, get?_register, List.map_cons, List.mem_cons,
      or_assoc]
    refine or_congr_right ?_
    by_cases h : identity = first.identity
    · subst h
      simp only [if_true, Option.some.injEq, true_or, not_true, false_and, or_false]
      constructor
      · rintro ⟨hnone, rfl⟩; exact ⟨hnone, rfl, rfl⟩
      · rintro ⟨hnone, rfl, -⟩; exact ⟨hnone, rfl⟩
    · rw [if_neg h]
      constructor
      · rintro ⟨hnone, hget⟩
        exact .inr ⟨fun hmem => hmem.elim h hnone, hget⟩
      · rintro (⟨-, rfl, hsame⟩ | ⟨hnone, hget⟩)
        · exact absurd hsame.symm h
        · exact ⟨fun hmem => hnone (.inr hmem), hget⟩

/-- **A registry keeps the last kind of each identity** and nothing else. -/
theorem get?_ofHistory :
    (ofHistory history).get? identity = some kind ↔ IsLast history identity kind := by
  have hempty : empty.get? identity = none := rfl
  rw [ofHistory, get?_foldl_register, hempty]
  simp

theorem ascending_foldl_register (h : registry.kinds.Ascending) :
    (history.foldl register registry).kinds.Ascending := by
  induction history generalizing registry with
  | nil => exact h
  | cons first rest ih => exact ih h.insert

theorem ascending_ofHistory (history : List BlockKind) : (ofHistory history).kinds.Ascending :=
  ascending_foldl_register List.Pairwise.nil

theorem mem_kinds_ofHistory :
    (identity, kind) ∈ (ofHistory history).kinds ↔ IsLast history identity kind := by
  rw [(ascending_ofHistory history).mem_iff]
  exact get?_ofHistory

/-- **Histories with the same last kinds lead to one registry.** -/
theorem ofHistory_congr {other : List BlockKind}
    (h : ∀ identity kind, IsLast history identity kind ↔ IsLast other identity kind) :
    ofHistory history = ofHistory other := by
  have hkinds : (ofHistory history).kinds = (ofHistory other).kinds := by
    refine (ascending_ofHistory history).ext (ascending_ofHistory other) ?_
    intro identity kind
    exact get?_ofHistory.trans ((h identity kind).trans get?_ofHistory.symm)
  exact congrArg Registry.mk hkinds

/-- A replacement is noticed exactly for an identity that was registered before. -/
theorem notices_ofHistory (history : List BlockKind) (kind : BlockKind) :
    (ofHistory history).notices kind =
      if kind.identity ∈ history.map (·.identity) then [.replacedBlock kind.identity] else [] := by
  have hhas : (ofHistory history).kinds.has kind.identity ↔
      kind.identity ∈ history.map (·.identity) := by
    rw [← BlockKind.exists_isLast_iff, Table.has_iff_mem_names, ← Table.exists_get?_iff]
    exact exists_congr fun _ => get?_ofHistory
  unfold notices
  by_cases h : kind.identity ∈ history.map (·.identity)
  · rw [if_pos (hhas.mpr h), if_pos h]
  · rw [if_neg (fun hh => h (hhas.mp hh)), if_neg h]

/-! ## The registered kinds in order -/

/-- The registered kinds, in ascending order of the identities that they stand for. -/
def ordered (registry : Registry) : List BlockKind := registry.kinds.map (·.2)

/-- Every kind is registered under its own identity. -/
theorem kinds_ofHistory (history : List BlockKind) :
    (ofHistory history).kinds = (ofHistory history).ordered.map fun kind => (kind.identity, kind) := by
  have hown : ∀ entry ∈ (ofHistory history).kinds, (entry.2.identity, entry.2) = entry := by
    rintro ⟨identity, kind⟩ hentry
    obtain rfl : kind.identity = identity := (mem_kinds_ofHistory.mp hentry).identity_eq
    rfl
  rw [ordered, List.map_map]
  exact ((List.map_congr_left hown).trans (List.map_id _)).symm

theorem names_ofHistory (history : List BlockKind) :
    (ofHistory history).ordered.map (·.identity) = (ofHistory history).kinds.names := by
  rw [kinds_ofHistory, Table.names, List.map_map]
  rfl

theorem mem_ordered_ofHistory :
    kind ∈ (ofHistory history).ordered ↔ IsLast history kind.identity kind := by
  rw [← mem_kinds_ofHistory, kinds_ofHistory, List.mem_map]
  constructor
  · intro h
    exact ⟨kind, h, rfl⟩
  · rintro ⟨other, ho, hsame⟩
    obtain ⟨-, rfl⟩ := Prod.mk.inj hsame
    exact ho

theorem ascending_identities (history : List BlockKind) :
    ((ofHistory history).ordered.map (·.identity)).Pairwise (· < ·) := by
  rw [names_ofHistory]
  exact Table.ascending_names (ascending_ofHistory history)

/-- Sorting the known identities, in whatever order they come, puts them in the order of the kinds. -/
theorem mergeSort_identities {identities : List String} (hnodup : identities.Nodup)
    (hmem : ∀ identity, identity ∈ identities ↔ identity ∈ history.map (·.identity)) :
    identities.mergeSort = (ofHistory history).ordered.map (·.identity) := by
  have hascending := ascending_identities history
  have hdistinct : ((ofHistory history).ordered.map (·.identity)).Nodup := by
    refine hascending.imp ?_
    rintro a b hlt rfl
    exact String.lt_irrefl a hlt
  have hknown : ∀ identity, identity ∈ identities ↔
      identity ∈ (ofHistory history).ordered.map (·.identity) := by
    intro identity
    rw [hmem, ← BlockKind.exists_isLast_iff, names_ofHistory, ← Table.exists_get?_iff]
    exact exists_congr fun _ => get?_ofHistory.symm
  have htrans : ∀ a b c : String, decide (a ≤ b) = true → decide (b ≤ c) = true →
      decide (a ≤ c) = true := by
    intro a b c hab hbc
    exact decide_eq_true (String.le_trans (of_decide_eq_true hab) (of_decide_eq_true hbc))
  have htotal : ∀ a b : String, (decide (a ≤ b) || decide (b ≤ a)) = true := by
    intro a b
    simpa using String.le_total a b
  have hsorted := List.pairwise_mergeSort htrans htotal identities
  have hperm : identities.mergeSort.Perm ((ofHistory history).ordered.map (·.identity)) :=
    (List.mergeSort_perm identities _).trans
      ((List.perm_ext_iff_of_nodup hnodup hdistinct).mpr hknown)
  -- two sorted lists of the same strings are equal
  refine List.Perm.eq_of_pairwise ?_ hsorted (hascending.imp ?_) hperm
  · intro a b _ _ hab hba
    exact String.le_antisymm (of_decide_eq_true hab) (of_decide_eq_true hba)
  · intro a b hlt
    exact decide_eq_true (String.not_lt.mp (String.lt_asymm hlt))

/-! ## Offers -/

/-- A ready-made configuration of a kind. -/
structure Offer where
  kind : BlockKind
  configuration : Table Json

/-- The settings of an offer are its configuration. -/
def Offer.settings (offer : Offer) : Json := .object offer.configuration

/-- The offers of kinds: for each kind, its ready-made configurations in order. -/
def offers (kinds : List BlockKind) : List Offer :=
  kinds.flatMap fun kind => kind.variants.combinations.map (⟨kind, ·⟩)

/-- The entry shows the offer: it carries its settings, and the name of the block that is built from
    exactly these. -/
def Offer.ShownBy (offer : Offer) (entry : PaletteEntry) : Prop :=
  ∃ block, offer.kind.build offer.settings = .ok block ∧
    entry = ⟨block.name, offer.kind.identity, offer.kind.category, offer.kind.experimental,
      offer.settings⟩

variable {offer : Offer} {entry : PaletteEntry}

theorem exists_shownBy_iff :
    (∃ entry, offer.ShownBy entry) ↔ ∃ block, offer.kind.build offer.settings = .ok block := by
  constructor
  · rintro ⟨entry, block, hblock, -⟩
    exact ⟨block, hblock⟩
  · rintro ⟨block, hblock⟩
    exact ⟨_, block, hblock, rfl⟩

theorem paletteEntry_eq_ok :
    paletteEntry offer.kind.identity offer.kind offer.configuration = .ok entry ↔
      offer.ShownBy entry := by
  unfold paletteEntry Offer.ShownBy Offer.settings
  cases h : offer.kind.build (.object offer.configuration) with
  | error e => simp [h]
  | ok block => simp [h, eq_comm]

theorem paletteEntry_eq_error {e : CompileError} :
    paletteEntry offer.kind.identity offer.kind offer.configuration = .error e ↔
      ∃ cause, offer.kind.build offer.settings = .error cause ∧
        .ofKind offer.kind.identity cause = e := by
  unfold paletteEntry Offer.settings
  cases h : offer.kind.build (.object offer.configuration) with
  | error cause => simp [h]
  | ok block => simp [h]

/-- **The palette goes through the offers of the registered kinds.** -/
theorem palette_ofHistory (history : List BlockKind) :
    (ofHistory history).palette = (offers (ofHistory history).ordered).mapM fun offer =>
      paletteEntry offer.kind.identity offer.kind offer.configuration := by
  rw [offers, ← mapM_flatMap, palette, kinds_ofHistory, List.mapM_map]
  simp only [List.mapM_map]
  rfl

/-! ## Independence of the history -/

/-- **Registry and palette depend on the last kinds of a history only.**

* An identity stands for its last kind, and for nothing if it was never registered. A replacement is
  noticed exactly when the identity was registered before.
* There is one list of the last kinds that is ascending by identity; sorting the known identities gives
  its order, in whatever order they come.
* The palette has one entry for each offer of these kinds, in order; or it is the error of the first
  offer whose block cannot be built, with the identity as its path.
* Histories with the same last kinds have one palette. -/
theorem palette_independent_of_history (history : List BlockKind) :
    (∀ identity kind, (ofHistory history).get? identity = some kind ↔
      IsLast history identity kind) ∧
    (∀ kind, (ofHistory history).notices kind =
      if kind.identity ∈ history.map (·.identity) then [.replacedBlock kind.identity] else []) ∧
    (∃ kinds : List BlockKind, (kinds.map (·.identity)).Pairwise (· < ·) ∧
      (∀ kind, kind ∈ kinds ↔ IsLast history kind.identity kind) ∧
      (∀ identities : List String, identities.Nodup →
        (∀ identity, identity ∈ identities ↔ identity ∈ history.map (·.identity)) →
        identities.mergeSort = kinds.map (·.identity)) ∧
      (∀ entries, (ofHistory history).palette = .ok entries ↔
        List.Forall₂ Offer.ShownBy (offers kinds) entries) ∧
      (∀ e, (ofHistory history).palette = .error e ↔
        ∃ before offer after cause, offers kinds = before ++ offer :: after ∧
          (∀ earlier ∈ before, ∃ block, earlier.kind.build earlier.settings = .ok block) ∧
          offer.kind.build offer.settings = .error cause ∧
          .ofKind offer.kind.identity cause = e)) ∧
    (∀ other : List BlockKind,
      (∀ identity kind, IsLast history identity kind ↔ IsLast other identity kind) →
      (ofHistory history).palette = (ofHistory other).palette) := by
  refine ⟨fun _ _ => get?_ofHistory, notices_ofHistory history, ?kinds, ?congr⟩
  case kinds =>
    refine ⟨(ofHistory history).ordered, ascending_identities history,
      fun _ => mem_ordered_ofHistory, fun _ => mergeSort_identities, ?ok, ?error⟩
    case ok =>
      intro entries
      rw [palette_ofHistory, mapM_eq_ok]
      simp only [paletteEntry_eq_ok]
    case error =>
      intro e
      rw [palette_ofHistory, mapM_eq_error]
      simp only [paletteEntry_eq_ok, paletteEntry_eq_error, exists_shownBy_iff]
      constructor
      · rintro ⟨before, offer, after, hsplit, hbefore, cause, hcause, he⟩
        exact ⟨before, offer, after, cause, hsplit, hbefore, hcause, he⟩
      · rintro ⟨before, offer, after, cause, hsplit, hbefore, hcause, he⟩
        exact ⟨before, offer, after, hsplit, hbefore, cause, hcause, he⟩
  case congr =>
    intro other h
    rw [ofHistory_congr h]

/-- A kind that offers sequences under another identity. -/
def aligned (experimental : Bool) : BlockKind :=
  { BlockKind.sequential with identity := "aligned", experimental }

/-- A kind that is replaced later on leaves no trace, and the palette begins with the identity that
    sorts first although it was registered last. -/
theorem replaced_palette :
    (∀ identity kind, IsLast [aligned true, .sequential, aligned false] identity kind ↔
      IsLast [.sequential, aligned false] identity kind) ∧
    (ofHistory [aligned true, .sequential, aligned false]).palette =
      (ofHistory [.sequential, aligned false]).palette ∧
    ∃ kinds : List BlockKind, (kinds.map (·.identity)).Pairwise (· < ·) ∧
      ["position_sequential", "aligned"].mergeSort = kinds.map (·.identity) := by
  obtain ⟨-, -, ⟨kinds, hascending, -, hsorted, -, -⟩, hcongr⟩ :=
    palette_independent_of_history [aligned true, .sequential, aligned false]
  have hlast : ∀ identity kind, IsLast [aligned true, .sequential, aligned false] identity kind ↔
      IsLast [.sequential, aligned false] identity kind := by
    intro identity kind
    rw [BlockKind.isLast_cons, or_iff_left]
    rintro ⟨hnone, rfl, rfl⟩
    exact hnone (by simp [aligned])
  have hknown : ∀ identity, identity ∈ ["position_sequential", "aligned"] ↔
      identity ∈ [aligned true, .sequential, aligned false].map (·.identity) := by
    intro identity
    simp [aligned, BlockKind.sequential, BlockKind.ofSettings, Sequential.identity, or_comm]
  exact ⟨hlast, hcongr _ hlast, kinds, hascending, hsorted _ (by decide) hknown⟩

end Registry
end EffectGraph
