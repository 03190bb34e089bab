import EffectGraph.Block.Variants
import EffectGraph.Proofs.AscendingTables

/-!
# `Proofs.Combinations` — the ready-made configurations are counted in a mixed radix

A block kind with the axes `a`, `b` and `c` has one configuration for each choice of a value from each of
them. The configurations stand in the order of numbers that are written with one digit per axis: the digit
of an axis runs through the positions of its values, and the digit of the last axis changes first. So the
digit of an axis in the number `m` is `m / size after % n`, where `n` is the number of its values and
`size after` how often the axes after it can be chosen.

Everything follows the recursion over the axes: the first axis divides the configurations into blocks of
the length `size rest`, and dividing by that length leaves the digits of the other axes alone
(`digit_add`).

## Contents
- `Variants.withValues` and `Variants.size`.
- `getElem?_combinations_cons`, one axis more, and `get?_combinations`, the value of each axis.
- `Variants.indexOf`, the number of a choice, and `eq_of_digits`, that it is the only one.
-/

namespace EffectGraph.Variants

variable {axes before after rest : Variants} {axis : String} {values : List Json} {m : Nat}

/-- The axes that have values. -/
def withValues (variants : Variants) : Variants := variants.filter fun axis => !axis.2.isEmpty

/-- How many choices of one value per axis there are: the product of the numbers of values. -/
def size : Variants → Nat
  | [] => 1
  | (_, values) :: rest => values.length * size rest

/-- No axis is without values. -/
def HasValues (axes : Variants) : Prop := ∀ axis ∈ axes, axis.2 ≠ []

theorem hasValues_withValues (variants : Variants) : HasValues variants.withValues := by
  intro axis ha
  obtain ⟨-, hne⟩ := List.mem_filter.mp ha
  simpa using hne

/-- Axes without values make no difference. -/
theorem combinations_withValues (variants : Variants) : combinations variants.withValues = combinations variants := by
  induction variants with
  | nil => rfl
  | cons first rest ih =>
    obtain ⟨axis, values⟩ := first
    cases values with
    | nil =>
      show combinations (withValues rest) = combinations rest
      exact ih
    | cons value values =>
      show combinations ((axis, value :: values) :: withValues rest) = _
      rw [combinations, combinations, ih]

theorem combinations_cons (h : values ≠ []) : combinations ((axis, values) :: rest) =
    values.flatMap fun value => (combinations rest).map ((axis, value) :: ·) := by
  rw [combinations, if_neg]
  rwa [List.isEmpty_iff]

/-! ## Numbers with one digit per axis -/

theorem size_append (before after : Variants) : size (before ++ after) = size before * size after := by
  induction before with
  | nil => exact (Nat.one_mul _).symm
  | cons first rest ih =>
    obtain ⟨axis, values⟩ := first
    rw [List.cons_append, size, size, ih, Nat.mul_assoc]

theorem size_pos (h : HasValues axes) : 0 < size axes := by
  induction axes with
  | nil => exact Nat.one_pos
  | cons first rest ih =>
    obtain ⟨axis, values⟩ := first
    obtain ⟨hvalues, hrest⟩ := List.forall_mem_cons.mp h
    exact Nat.mul_pos (List.length_pos_of_ne_nil hvalues) (ih hrest)

/-- A multiple of the number of choices does not show in the digits. -/
theorem digit_add (h : HasValues axes) (hsplit : axes = before ++ (axis, values) :: after) (k i : Nat) :
    (size axes * k + i) / size after % values.length = i / size after % values.length := by
  subst hsplit
  obtain ⟨-, hlater⟩ := List.forall_mem_append.mp h
  have hpos : 0 < size after := size_pos fun axis ha => hlater axis (List.mem_cons_of_mem _ ha)
  have hfactor : size (before ++ (axis, values) :: after) * k + i =
      i + size after * (values.length * (size before * k)) := by
    rw [size_append, size]
    ac_rfl
  rw [hfactor, Nat.add_mul_div_left _ _ hpos, Nat.add_mul_mod_self_left]

/-- Leaving the multiples out leaves the digits alone. -/
theorem digit_mod (h : HasValues axes) (hsplit : axes = before ++ (axis, values) :: after) (m : Nat) :
    m % size axes / size after % values.length = m / size after % values.length := by
  have hm : size axes * (m / size axes) + m % size axes = m := Nat.div_add_mod m (size axes)
  calc m % size axes / size after % values.length
      = (size axes * (m / size axes) + m % size axes) / size after % values.length :=
        (digit_add h hsplit _ _).symm
    _ = m / size after % values.length := by rw [hm]

/-- The number that has the chosen positions for its digits. -/
def indexOf (choice : String → Nat) : Variants → Nat
  | [] => 0
  | (axis, _) :: rest => size rest * choice axis + indexOf choice rest

theorem indexOf_lt {choice : String → Nat} (h : ∀ entry ∈ axes, choice entry.1 < entry.2.length) :
    indexOf choice axes < size axes := by
  induction axes with
  | nil => exact Nat.one_pos
  | cons first rest ih =>
    obtain ⟨axis, values⟩ := first
    obtain ⟨hfirst, hrest⟩ := List.forall_mem_cons.mp h
    show size rest * choice axis + indexOf choice rest < values.length * size rest
    calc size rest * choice axis + indexOf choice rest
        < size rest * choice axis + size rest := Nat.add_lt_add_left (ih hrest) _
      _ = size rest * (choice axis + 1) := rfl
      _ ≤ size rest * values.length := Nat.mul_le_mul_left _ hfirst
      _ = values.length * size rest := Nat.mul_comm _ _

/-- The digits of the number of a choice are the chosen positions. -/
theorem digit_indexOf {choice : String → Nat} (h : ∀ entry ∈ axes, choice entry.1 < entry.2.length)
    (hsplit : axes = before ++ (axis, values) :: after) :
    indexOf choice axes / size after % values.length = choice axis := by
  induction before generalizing axes with
  | nil =>
    subst hsplit
    obtain ⟨hfirst, hrest⟩ := List.forall_mem_cons.mp h
    have hlt : indexOf choice after < size after := indexOf_lt hrest
    have hpos : 0 < size after := Nat.lt_of_le_of_lt (Nat.zero_le _) hlt
    show (size after * choice axis + indexOf choice after) / size after % values.length = choice axis
    rw [Nat.mul_add_div hpos, Nat.div_eq_of_lt hlt, Nat.add_zero, Nat.mod_eq_of_lt hfirst]
  | cons first before ih =>
    subst hsplit
    obtain ⟨-, hrest⟩ := List.forall_mem_cons.mp h
    have hvalues : HasValues (before ++ (axis, values) :: after) := by
      intro entry he hnone
      have hlt := hrest entry he
      rw [hnone] at hlt
      exact Nat.not_lt_zero _ hlt
    show (size (before ++ (axis, values) :: after) * choice first.1 +
      indexOf choice (before ++ (axis, values) :: after)) / size after % values.length = choice axis
    rw [digit_add hvalues rfl]
    exact ih hrest rfl

/-- **Numbers of choices with the same digits are equal.** -/
theorem eq_of_digits (h : HasValues axes) {other : Nat} (hm : m < size axes) (ho : other < size axes)
    (hdigits : ∀ before axis values after, axes = before ++ (axis, values) :: after →
      m / size after % values.length = other / size after % values.length) : m = other := by
  induction axes generalizing m other with
  | nil =>
    have hzero : ∀ n, n < size [] → n = 0 := fun n hn => Nat.lt_one_iff.mp hn
    rw [hzero m hm, hzero other ho]
  | cons first rest ih =>
    obtain ⟨axis, values⟩ := first
    obtain ⟨-, hrest⟩ := List.forall_mem_cons.mp h
    have hpos : 0 < size rest := size_pos hrest
    have hquotient : m / size rest = other / size rest := by
      have hfirst := hdigits [] axis values rest rfl
      rwa [Nat.mod_eq_of_lt (Nat.div_lt_of_lt_mul (Nat.mul_comm .. ▸ hm)),
        Nat.mod_eq_of_lt (Nat.div_lt_of_lt_mul (Nat.mul_comm .. ▸ ho))] at hfirst
    -- the other digits are those of the remainders
    have hremainder : m % size rest = other % size rest := by
      apply ih hrest (Nat.mod_lt _ hpos) (Nat.mod_lt _ hpos)
      intro before axis' values' after hsplit
      rw [digit_mod hrest hsplit, digit_mod hrest hsplit]
      exact hdigits ((axis, values) :: before) axis' values' after (by rw [hsplit]; rfl)
    rw [← Nat.div_add_mod m (size rest), ← Nat.div_add_mod other (size rest), hquotient, hremainder]

/-! ## Combinations by their numbers -/

/-- A table of results has one row for each first argument. -/
theorem getElem?_flatMap_map {α β γ : Type} (values : List α) {rest : List β} (f : α → β → γ)
    (h : rest ≠ []) (m : Nat) : (values.flatMap fun value => rest.map (f value))[m]? =
      values[m / rest.length]?.bind fun value => rest[m % rest.length]?.map (f value) := by
  have hpos : 0 < rest.length := List.length_pos_of_ne_nil h
  induction values generalizing m with
  | nil => simp
  | cons value values ih =>
    rw [List.flatMap_cons]
    by_cases hlt : m < rest.length
    · rw [List.getElem?_append_left (by rwa [List.length_map]), Nat.div_eq_of_lt hlt,
        Nat.mod_eq_of_lt hlt, List.getElem?_map]
      rfl
    · obtain ⟨later, rfl⟩ := Nat.exists_eq_add_of_le (Nat.not_lt.mp hlt)
      rw [List.getElem?_append_right (by simp), List.length_map, Nat.add_sub_cancel_left, ih,
        Nat.add_div_left _ hpos, Nat.add_mod_left, List.getElem?_cons_succ]

theorem length_combinations (h : HasValues axes) : (combinations axes).length = size axes := by
  induction axes with
  | nil => rfl
  | cons first rest ih =>
    obtain ⟨axis, values⟩ := first
    obtain ⟨hvalues, hrest⟩ := List.forall_mem_cons.mp h
    rw [combinations_cons hvalues, size]
    simp [List.length_flatMap, ih hrest]

/-- **One axis more**: its digit is in front, and the other digits pick a combination of the other
    axes. -/
theorem getElem?_combinations_cons (h : HasValues ((axis, values) :: rest)) (m : Nat) :
    (combinations ((axis, values) :: rest))[m]? = values[m / size rest]?.bind fun value =>
      (combinations rest)[m % size rest]?.map ((axis, value) :: ·) := by
  obtain ⟨hvalues, hrest⟩ := List.forall_mem_cons.mp h
  have hlength : (combinations rest).length = size rest := length_combinations hrest
  have hne : combinations rest ≠ [] := by
    apply List.ne_nil_of_length_pos
    rw [hlength]
    exact size_pos hrest
  rw [combinations_cons hvalues, getElem?_flatMap_map values (fun value c => (axis, value) :: c) hne,
    hlength]

/-- A combination has the names of the axes. -/
theorem names_of_mem (h : HasValues axes) {combination : Table Json}
    (hc : combination ∈ combinations axes) : combination.names = Table.names axes := by
  induction axes generalizing combination with
  | nil =>
    obtain rfl := List.mem_singleton.mp hc
    rfl
  | cons first rest ih =>
    obtain ⟨axis, values⟩ := first
    obtain ⟨hvalues, hrest⟩ := List.forall_mem_cons.mp h
    rw [combinations_cons hvalues] at hc
    obtain ⟨value, -, hmem⟩ := List.mem_flatMap.mp hc
    obtain ⟨others, hothers, rfl⟩ := List.mem_map.mp hmem
    rw [Table.names_cons, Table.names_cons, ih hrest hothers]

/-- **The digit of an axis is the position of its value.** -/
theorem get?_combinations (h : HasValues axes) (hasc : Table.Ascending axes)
    {combination : Table Json} (hm : (combinations axes)[m]? = some combination)
    (hsplit : axes = before ++ (axis, values) :: after) :
    combination.get? axis = values[m / size after % values.length]? := by
  induction axes generalizing before m combination with
  | nil => cases before <;> cases hsplit
  | cons first rest ih =>
    obtain ⟨firstAxis, firstValues⟩ := first
    obtain ⟨hfirst, hrestasc⟩ := List.pairwise_cons.mp hasc
    obtain ⟨-, hrest⟩ := List.forall_mem_cons.mp h
    rw [getElem?_combinations_cons h] at hm
    obtain ⟨value, hvalue, hm⟩ := Option.bind_eq_some_iff.mp hm
    obtain ⟨others, hothers, rfl⟩ := Option.map_eq_some_iff.mp hm
    rw [Table.get?_cons]
    cases before with
    | nil =>
      obtain ⟨hentry, rfl⟩ := List.cons.inj hsplit
      obtain ⟨rfl, rfl⟩ := Prod.mk.inj hentry
      obtain ⟨hlt, -⟩ := List.getElem?_eq_some_iff.mp hvalue
      rw [if_pos rfl, Nat.mod_eq_of_lt hlt, hvalue]
    | cons entry before =>
      obtain ⟨-, hrestsplit⟩ := List.cons.inj hsplit
      have hlt : firstAxis < axis := hfirst (axis, values) (by simp [hrestsplit])
      have hne : axis ≠ firstAxis := by
        rintro rfl
        exact String.lt_irrefl _ hlt
      rw [if_neg hne, ih hrest hrestasc hothers hrestsplit, digit_mod hrest hrestsplit]

/-- The digits of a number are the positions that are chosen for the axes. -/
def Picks (axes : Variants) (m : Nat) (choice : String → Nat) : Prop :=
  ∀ before axis values after, axes = before ++ (axis, values) :: after →
    m / size after % values.length = choice axis

/-- **The combinations are counted in a mixed radix.** For a table of axes in ascending order of their
    names,

    * there are as many combinations as the product of the numbers of values of the axes that have
      values, and one empty combination if no axis has any;
    * every combination has the names of these axes for its names, in ascending order;
    * in the combination at the position `m`, the value of an axis is the one at the digit of `m` for the
      axis, where every axis is a digit and that of the last axis changes first;
    * each choice of one position per axis is made by exactly one number. -/
theorem combinations_counted_in_mixed_radix {variants : Variants} (h : Table.Ascending variants) :
    (combinations variants).length = size variants.withValues ∧
    (variants.withValues = [] → combinations variants = [[]]) ∧
    (∀ combination ∈ combinations variants,
      combination.Ascending ∧ combination.names = Table.names variants.withValues) ∧
    (∀ m combination, (combinations variants)[m]? = some combination →
      ∀ before axis values after, variants.withValues = before ++ (axis, values) :: after →
        combination.get? axis = values[m / size after % values.length]?) ∧
    ∀ choice : String → Nat, (∀ entry ∈ variants.withValues, choice entry.1 < entry.2.length) →
      ∃ m, m < size variants.withValues ∧ variants.withValues.Picks m choice ∧
        ∀ other, other < size variants.withValues → variants.withValues.Picks other choice →
          other = m := by
  have hvalues : HasValues variants.withValues := hasValues_withValues variants
  have hasc : Table.Ascending variants.withValues := List.Pairwise.filter _ h
  rw [← combinations_withValues]
  refine ⟨length_combinations hvalues, ?none, ?names, ?values, ?choices⟩
  case none =>
    intro hnone
    rw [hnone]
    rfl
  case names =>
    intro combination hc
    have hnames : combination.names = Table.names variants.withValues := names_of_mem hvalues hc
    refine ⟨?_, hnames⟩
    have hpairwise : combination.names.Pairwise (· < ·) := by
      rw [hnames]
      exact Table.ascending_names hasc
    exact List.pairwise_map.mp hpairwise
  case values =>
    intro m combination hm before axis values after hsplit
    exact get?_combinations hvalues hasc hm hsplit
  case choices =>
    intro choice hchoice
    have hpicks : variants.withValues.Picks (indexOf choice variants.withValues) choice := by
      intro before axis values after hsplit
      exact digit_indexOf hchoice hsplit
    refine ⟨indexOf choice variants.withValues, indexOf_lt hchoice, hpicks, ?_⟩
    intro other hlt hother
    apply eq_of_digits hvalues hlt (indexOf_lt hchoice)
    intro before axis values after hsplit
    rw [hother before axis values after hsplit, hpicks before axis values after hsplit]

/-- Two formats and three sizes, and an axis that is left empty. -/
def formatsAndSizes : Variants :=
  [("format", [.string "half", .string "float"]), ("kind", []), ("size", [.nat 16, .nat 32, .nat 64])]

/-- There are six combinations. The one at the position 4 has the second format and the second size, and
    no other number picks these two. -/
theorem formatsAndSizes_counted :
    Table.Ascending formatsAndSizes ∧ (combinations formatsAndSizes).length = 6 ∧
    (∀ combination, (combinations formatsAndSizes)[4]? = some combination →
      combination.names = ["format", "size"] ∧ combination.get? "format" = some (.string "float") ∧
      combination.get? "size" = some (.nat 32)) ∧
    (∀ entry ∈ formatsAndSizes.withValues, 1 < entry.2.length) ∧
    ∃ m, m < 6 ∧ formatsAndSizes.withValues.Picks m (fun _ => 1) := by
  have h : Table.Ascending formatsAndSizes := by
    show List.Pairwise _ _
    decide
  obtain ⟨hlength, -, hnames, hvalues, hchoices⟩ := combinations_counted_in_mixed_radix h
  have hchoice : ∀ entry ∈ formatsAndSizes.withValues, 1 < entry.2.length := by
    decide
  refine ⟨h, hlength, ?_, hchoice, ?_⟩
  · intro combination hc
    obtain ⟨-, hc'⟩ := hnames combination (List.mem_of_getElem? hc)
    exact ⟨hc', hvalues 4 combination hc [] _ _ _ rfl, hvalues 4 combination hc [_] _ _ _ rfl⟩
  · obtain ⟨m, hlt, hpicks, -⟩ := hchoices (fun _ => 1) hchoice
    exact ⟨m, hlt, hpicks⟩

end EffectGraph.Variants
