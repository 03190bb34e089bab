import EffectGraph.Proofs.Outcome
import Mathlib.Data.List.Forall2

/-!
# `Proofs.Traversal` — when every element of a list passes a check, and which one fails first

A checked computation along a list succeeds when it succeeds on every element (`mapM_eq_ok`), and
otherwise ends with the failure of the first element that fails (`mapM_eq_error`). A computation along
lists within a list is one along their concatenation (`mapM_flatMap`).
-/

namespace EffectGraph.Outcome

variable {ε α β γ : Type} {f : α → Except ε β} {list : List α}

theorem mapM_eq_ok {bs : List β} :
    list.mapM f = .ok bs ↔ List.Forall₂ (fun a b => f a = .ok b) list bs := by
  induction list generalizing bs with
  | nil =>
    rw [List.mapM_nil, pure_eq_ok, List.forall₂_nil_left_iff]
    exact eq_comm
  | cons a rest ih =>
    rw [List.mapM_cons, List.forall₂_cons_left_iff]
    simp only [bind_eq_ok, pure_eq_ok, ih]
    constructor
    · rintro ⟨b, hb, bs, hbs, rfl⟩; exact ⟨b, bs, hb, hbs, rfl⟩
    · rintro ⟨b, bs, hb, hbs, rfl⟩; exact ⟨b, hb, bs, hbs, rfl⟩

/-- The failure is the one of the first element that fails. -/
theorem mapM_eq_error {e : ε} :
    list.mapM f = .error e ↔ ∃ before a after, list = before ++ a :: after ∧
      (∀ b ∈ before, ∃ c, f b = .ok c) ∧ f a = .error e := by
  induction list with
  | nil => simp
  | cons a rest ih =>
    rw [List.mapM_cons]
    simp only [bind_eq_error, pure_ne_error, ih, and_false, exists_false, or_false]
    constructor
    · rintro (he | ⟨b, hb, before, a', after, rfl, hbefore, he⟩)
      · exact ⟨[], a, rest, rfl, by simp, he⟩
      · exact ⟨a :: before, a', after, rfl, List.forall_mem_cons.mpr ⟨⟨b, hb⟩, hbefore⟩, he⟩
    · rintro ⟨before, a', after, hsplit, hbefore, he⟩
      cases before with
      | nil =>
        obtain ⟨rfl, -⟩ := List.cons.inj hsplit
        exact .inl he
      | cons first before =>
        obtain ⟨rfl, rfl⟩ := List.cons.inj hsplit
        obtain ⟨⟨b, hb⟩, hothers⟩ := List.forall_mem_cons.mp hbefore
        exact .inr ⟨b, hb, before, a', after, rfl, hothers, he⟩

/-- Lists within a list are gone through as one list. -/
theorem mapM_flatMap (g : γ → List α) (parts : List γ) (f : α → Except ε β) :
    (do let results ← parts.mapM fun part => (g part).mapM f; return results.flatten) =
      (parts.flatMap g).mapM f := by
  induction parts with
  | nil => rfl
  | cons part rest ih =>
    rw [List.flatMap_cons, List.mapM_append, List.mapM_cons, ← ih]
    simp

end EffectGraph.Outcome
