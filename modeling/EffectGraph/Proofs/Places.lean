import EffectGraph.Json.Pointer
import EffectGraph.Proofs.Tables

/-!
# `Proofs.Places` — the places of a document, and what replacing one of them changes

A name leads from an object to the member of that name, and from an array to the item whose index is
written like the name. `Json.Leads` says so for one step and `Json.Walk` for a list of names; that
`Json.follow?` computes nothing else is `follow?_eq_some` and `follow?_eq_none`.

Two lists of names *diverge* when neither begins with the other. Replacing the place of one list is
then not seen along the other (`follow?_replaceAt_of_diverges`): where the two part they leave one
object, or one array, in two directions, and different names never lead to the same item.
-/

namespace EffectGraph

/-! ## Indices and joined names -/

theorem ofDigits_map_digitValue (cs : List Char) :
    ofDigits (cs.map digitValue) = Nat.ofDigitChars 10 cs 0 := by
  rw [ofDigits, List.foldl_map, Nat.ofDigitChars_eq_foldl]
  congr
  funext n c
  rw [digitValue, Nat.mul_comm]

/-- A digit is the character of its value. -/
theorem toDigits_digit {c : Char} (h : c.isDigit = true) :
    c.toNat - '0'.toNat < 10 ∧ Nat.toDigits 10 (c.toNat - '0'.toNat) = [c] := by
  have hbounds : 48 ≤ c.toNat ∧ c.toNat ≤ 57 := Char.isDigit_iff_toNat.mp h
  have hzero : '0'.toNat = 48 := rfl
  have hlt : c.toNat - '0'.toNat < 10 := by omega
  refine ⟨hlt, ?_⟩
  rw [Nat.toDigits_of_lt_base hlt]
  congr 1
  apply Char.toNat_inj.mp
  rw [Nat.toNat_digitChar_of_lt_ten hlt]
  omega

/-- Digits that are read on from a number other than zero go to the end of its decimal text. -/
theorem toDigits_ofDigitChars {n : Nat} {cs : List Char} (hn : 0 < n)
    (hcs : ∀ c ∈ cs, c.isDigit = true) :
    Nat.toDigits 10 (Nat.ofDigitChars 10 cs n) = Nat.toDigits 10 n ++ cs := by
  induction cs generalizing n with
  | nil => simp [Nat.ofDigitChars_eq_foldl]
  | cons c cs ih =>
    obtain ⟨hc, hrest⟩ := List.forall_mem_cons.mp hcs
    obtain ⟨hlt, hdigit⟩ := toDigits_digit hc
    have hstep : Nat.toDigits 10 (10 * n + (c.toNat - '0'.toNat)) = Nat.toDigits 10 n ++ [c] := by
      rw [← hdigit, Nat.toDigits_append_toDigits (by decide) hn hlt]
    rw [Nat.ofDigitChars_cons, ih (by omega) hrest, hstep, List.append_assoc, List.singleton_append]

/-- The decimal text of a number other than zero does not start with a zero. -/
theorem toDigits_ne_zero_cons {n : Nat} (hn : 0 < n) (cs : List Char) :
    Nat.toDigits 10 n ≠ '0' :: cs := by
  induction n using Nat.strongRecOn generalizing cs with
  | ind n ih =>
    intro h
    by_cases hlt : n < 10
    · rw [Nat.toDigits_of_lt_base hlt] at h
      have hchar : n.digitChar.toNat = '0'.toNat := congrArg Char.toNat (List.cons.inj h).1
      rw [Nat.toNat_digitChar_of_lt_ten hlt] at hchar
      have hzero : '0'.toNat = 48 := rfl
      omega
    · -- the text starts with the one of the number without its last digit
      have hpos : 0 < n / 10 := by omega
      have hsplit : n = 10 * (n / 10) + n % 10 := by omega
      rw [hsplit, ← Nat.toDigits_append_toDigits (by decide) hpos (by omega)] at h
      cases hd : Nat.toDigits 10 (n / 10) with
      | nil => exact Nat.toDigits_ne_nil hd
      | cons d ds =>
        rw [hd, List.cons_append] at h
        obtain ⟨rfl, -⟩ := List.cons.inj h
        exact ih (n / 10) (by omega) hpos ds hd

/-- Digits without a needless zero in front are the decimal text of their value. -/
theorem toDigits_ofDigitChars_zero {cs : List Char} (hne : cs ≠ [])
    (hzero : ∀ c rest, cs ≠ '0' :: c :: rest) (hcs : ∀ c ∈ cs, c.isDigit = true) :
    Nat.toDigits 10 (Nat.ofDigitChars 10 cs 0) = cs := by
  cases cs with
  | nil => exact absurd rfl hne
  | cons c rest =>
    obtain ⟨hc, hrest⟩ := List.forall_mem_cons.mp hcs
    obtain ⟨hlt, hdigit⟩ := toDigits_digit hc
    rw [Nat.ofDigitChars_cons, Nat.mul_zero, Nat.zero_add]
    by_cases hpos : 0 < c.toNat - '0'.toNat
    · rw [toDigits_ofDigitChars hpos hrest, hdigit, List.singleton_append]
    · -- a zero stands alone
      have hvalue : c.toNat - '0'.toNat = 0 := by omega
      rw [hvalue] at hdigit ⊢
      obtain ⟨rfl, -⟩ := List.cons.inj hdigit
      cases rest with
      | nil => rfl
      | cons d rest => exact absurd rfl (hzero d rest)

theorem toList_toString (n : Nat) : (toString n).toList = Nat.toDigits 10 n := by
  rw [Nat.toString_eq_repr, Nat.toList_repr]

/-- Parts joined by a separator are the first part and then each other one after a separator. -/
theorem intercalate_cons {α : Type} (separator part : List α) (parts : List (List α)) :
    separator.intercalate (part :: parts) = part ++ parts.flatMap (separator ++ ·) := by
  induction parts generalizing part with
  | nil => simp
  | cons next rest ih =>
    rw [List.intercalate_cons_cons, ih, List.flatMap_cons]
    simp

namespace Json

/-- **A name stands for an index exactly when it is the decimal text of that index.** -/
theorem arrayIndex?_eq_some {name : String} {n : Nat} :
    arrayIndex? name = some n ↔ name = toString n := by
  constructor
  · intro h
    rw [arrayIndex?] at h
    split at h
    next => cases h
    next => cases h
    next hempty hzero =>
      split at h
      next hall =>
        rw [ofDigits_map_digitValue, Option.some.injEq] at h
        rw [List.all_eq_true] at hall
        apply String.toList_injective
        rw [toList_toString, ← h, toDigits_ofDigitChars_zero hempty hzero hall]
      next => cases h
  · rintro rfl
    rw [arrayIndex?]
    split
    next h => exact absurd ((toList_toString n).symm.trans h) Nat.toDigits_ne_nil
    next c rest h =>
      rw [toList_toString] at h
      cases n with
      | zero => cases h
      | succ n => exact absurd h (toDigits_ne_zero_cons n.succ_pos _)
    next =>
      have hall : (Nat.toDigits 10 n).all Char.isDigit = true := by
        rw [List.all_eq_true]
        intro c hc
        exact Nat.isDigit_of_mem_toDigits (by decide) (by decide) hc
      rw [toList_toString, if_pos hall, ofDigits_map_digitValue,
        Nat.ofDigitChars_toDigits (by decide) (by decide)]

/-- Different names stand for different indices. -/
theorem arrayIndex?_inj {name other : String} {n : Nat} (h : arrayIndex? name = some n)
    (ho : arrayIndex? other = some n) : name = other :=
  (arrayIndex?_eq_some.mp h).trans (arrayIndex?_eq_some.mp ho).symm

/-! ## Steps and walks -/

/-- A name leads from an object to its member of that name, and from an array to the item whose index
    is written like the name. -/
inductive Leads (name : String) : Json → Json → Prop where
  | member {members : Table Json} {child : Json} (h : Table.get? members name = some child) :
      Leads name (.object members) child
  | item {items : List Json} {index : Nat} {child : Json} (hn : name = toString index)
      (h : items[index]? = some child) : Leads name (.array items) child

/-- Names lead on from a place one after the other. -/
inductive Walk : List String → Json → Json → Prop where
  | here {json : Json} : Walk [] json json
  | step {name : String} {rest : List String} {json child place : Json}
      (h : Leads name json child) (hrest : Walk rest child place) : Walk (name :: rest) json place

variable {name other : String} {names others rest : List String} {json child place value : Json}

theorem step?_eq_some : json.step? name = some child ↔ Leads name json child := by
  constructor
  · intro h
    cases json with
    | object members => exact .member h
    | array items =>
      obtain ⟨index, hn, hi⟩ := Option.bind_eq_some_iff.mp h
      exact .item (arrayIndex?_eq_some.mp hn) hi
    | _ => cases h
  · intro h
    cases h with
    | member h => exact h
    | item hn h => exact Option.bind_eq_some_iff.mpr ⟨_, arrayIndex?_eq_some.mpr hn, h⟩

theorem follow?_cons : follow? (name :: rest) json = (json.step? name).bind (follow? rest) := rfl

/-- What is found along names is where they lead. -/
theorem follow?_eq_some : follow? names json = some place ↔ Walk names json place := by
  induction names generalizing json with
  | nil =>
    constructor
    · intro h; cases h; exact .here
    · intro h; cases h; rfl
  | cons name rest ih =>
    rw [follow?_cons, Option.bind_eq_some_iff]
    constructor
    · rintro ⟨child, hs, hf⟩
      exact .step (step?_eq_some.mp hs) (ih.mp hf)
    · intro h
      cases h with
      | step hl hw => exact ⟨_, step?_eq_some.mpr hl, ih.mpr hw⟩

/-- Some name leads nowhere from the place that the names before it lead to. -/
def Stops (names : List String) (json : Json) : Prop :=
  ∃ before name after place, names = before ++ name :: after ∧ Walk before json place ∧
    ∀ child, ¬ Leads name place child

/-- Nothing is found along names exactly when one of them leads nowhere. -/
theorem follow?_eq_none : follow? names json = none ↔ Stops names json := by
  induction names generalizing json with
  | nil =>
    refine iff_of_false (by simp [follow?]) ?_
    rintro ⟨before, name, after, place, h, -⟩
    cases before <;> cases h
  | cons name rest ih =>
    rw [follow?_cons]
    cases hs : json.step? name with
    | none =>
      refine iff_of_true rfl ⟨[], name, rest, json, rfl, .here, ?_⟩
      intro child hl
      rw [step?_eq_some.mpr hl] at hs
      cases hs
    | some child =>
      rw [Option.bind_some, ih]
      constructor
      · rintro ⟨before, last, after, place, rfl, hw, hl⟩
        exact ⟨name :: before, last, after, place, rfl, .step (step?_eq_some.mp hs) hw, hl⟩
      · rintro ⟨before, last, after, place, h, hw, hl⟩
        cases hw with
        | here =>
          obtain ⟨rfl, -⟩ := List.cons.inj h
          exact absurd (step?_eq_some.mp hs) (hl child)
        | step hfirst hw =>
          obtain ⟨rfl, rfl⟩ := List.cons.inj h
          -- the first name leads to one child only
          rw [step?_eq_some.mpr hfirst, Option.some.injEq] at hs
          exact ⟨_, last, after, place, rfl, hs ▸ hw, hl⟩

theorem follow?_append :
    follow? (names ++ rest) json = (follow? names json).bind (follow? rest) := by
  induction names generalizing json with
  | nil => rfl
  | cons name names ih =>
    rw [List.cons_append, follow?_cons, follow?_cons, Option.bind_assoc]
    congr
    funext child
    exact ih

/-! ## Replacing a place -/

/-- A name leads to what was put in its place. -/
theorem step?_replaceStep_self (h : json.step? name = some child) :
    (replaceStep name value json).step? name = some value := by
  cases step?_eq_some.mp h with
  | member h => exact Table.get?_replace_self h
  | @item items index _ hn h =>
    obtain ⟨hlt, -⟩ := List.getElem?_eq_some_iff.mp h
    rw [← arrayIndex?_eq_some] at hn
    simp [replaceStep, step?, hn, hlt]

/-- Other names lead to what they led to before. -/
theorem step?_replaceStep_of_ne (h : other ≠ name) :
    (replaceStep name value json).step? other = json.step? other := by
  cases json with
  | object members => exact Table.get?_replace_of_ne h
  | array items =>
    cases hn : arrayIndex? name with
    | none => simp [replaceStep, hn]
    | some index =>
      cases ho : arrayIndex? other with
      | none => simp [replaceStep, step?, hn, ho]
      | some otherIndex =>
        have hne : index ≠ otherIndex := by
          rintro rfl
          exact h (arrayIndex?_inj ho hn)
        simp [replaceStep, step?, hn, ho, List.getElem?_set_ne hne]
  | _ => rfl

/-- Putting back what a name leads to changes nothing. -/
theorem replaceStep_step? (h : json.step? name = some child) : replaceStep name child json = json := by
  cases step?_eq_some.mp h with
  | member h => rw [replaceStep, Table.replace_get? h]
  | @item items index _ hn h =>
    obtain ⟨hlt, rfl⟩ := List.getElem?_eq_some_iff.mp h
    rw [← arrayIndex?_eq_some] at hn
    simp [replaceStep, hn]

/-- Putting back what names lead to changes nothing. -/
theorem replaceAt_follow? (h : follow? names json = some place) : replaceAt names place json = json := by
  induction names generalizing json with
  | nil => exact (Option.some.inj h).symm
  | cons name rest ih =>
    rw [follow?_cons, Option.bind_eq_some_iff] at h
    obtain ⟨child, hs, hf⟩ := h
    rw [replaceAt, hs]
    show replaceStep name (replaceAt rest place child) json = json
    rw [ih hf, replaceStep_step? hs]

/-- Names that lead on from a replaced place lead on from the new value. -/
theorem follow?_replaceAt_self (h : follow? names json = some place) :
    follow? names (replaceAt names value json) = some value := by
  induction names generalizing json with
  | nil => rfl
  | cons name rest ih =>
    rw [follow?_cons, Option.bind_eq_some_iff] at h
    obtain ⟨child, hs, hf⟩ := h
    rw [replaceAt, hs, follow?_cons]
    show ((replaceStep name (replaceAt rest value child) json).step? name).bind _ = _
    rw [step?_replaceStep_self hs, Option.bind_some, ih hf]

/-- Names that part from those of a replaced place lead to what they led to before. -/
theorem follow?_replaceAt_of_diverges (hn : ¬ names <+: others) (ho : ¬ others <+: names) :
    follow? others (replaceAt names value json) = follow? others json := by
  induction names generalizing others json with
  | nil => exact absurd List.nil_prefix hn
  | cons name rest ih =>
    cases others with
    | nil => exact absurd List.nil_prefix ho
    | cons other others =>
      rw [replaceAt, follow?_cons, follow?_cons]
      cases hs : json.step? name with
      | none => rfl
      | some child =>
        show ((replaceStep name (replaceAt rest value child) json).step? other).bind _ = _
        by_cases he : other = name
        · -- both lists go on from one child
          subst he
          rw [List.cons_prefix_cons] at hn ho
          rw [step?_replaceStep_self hs, hs, Option.bind_some, Option.bind_some]
          exact ih (fun h => hn ⟨rfl, h⟩) (fun h => ho ⟨rfl, h⟩)
        · rw [step?_replaceStep_of_ne he]

end Json
end EffectGraph
