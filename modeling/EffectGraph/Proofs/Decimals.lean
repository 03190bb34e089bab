import EffectGraph.Number.Decimal
import EffectGraph.Proofs.Widening

/-!
# `Proofs.Decimals` — decimals, the numerals that they are written as, and what those read as

A decimal stands for a rational number, and decimals of one value read as one code
(`Decimal.code_congr`). With this, the way from a code to a text and back has two halves:

* the shortest decimal of a code reads as that code (`BinaryFormat.code_shortest`): a candidate is
  taken only if it does, and the exact decimal, which stands in when there is none, does too;
* a decimal is written as a numeral of the same value, in one of three forms
  (`DecimalStyle.exists_numeral`), and a numeral is read as its value (`Numeral.value_read`).
-/

namespace EffectGraph

/-! ## The value of a decimal -/

namespace Decimal

/-- The number that a decimal stands for. -/
def value (d : Decimal) : ℚ := d.significand * 10 ^ d.exponent

theorem ten_zpow (exponent : ℤ) :
    (10 : ℚ) ^ exponent = 10 ^ exponent.toNat / 10 ^ (-exponent).toNat := by
  conv_lhs => rw [← Int.toNat_sub_toNat_neg exponent]
  rw [zpow_sub₀ (by norm_num), zpow_natCast, zpow_natCast]

theorem code_eq (f : BinaryFormat) (d : Decimal) :
    d.code f = f.nearest (d.significand * 10 ^ d.exponent.toNat * 2 ^ f.unitExponent)
      (10 ^ (-d.exponent).toNat) := by
  unfold code
  simp only [Nat.pow_eq]

variable {d other : Decimal}

/-- **Decimals of one value read as one code.** -/
theorem code_congr (f : BinaryFormat) (h : d.value = other.value) : d.code f = other.code f := by
  rw [value, value, ten_zpow, ten_zpow, ← mul_div_assoc, ← mul_div_assoc,
    div_eq_div_iff (by positivity) (by positivity)] at h
  have hcross : d.significand * 10 ^ d.exponent.toNat * 10 ^ (-other.exponent).toNat =
      other.significand * 10 ^ other.exponent.toNat * 10 ^ (-d.exponent).toNat := by
    exact_mod_cast h
  rw [code_eq, code_eq]
  apply f.nearest_congr (Nat.pow_pos (by decide)) (Nat.pow_pos (by decide))
  rw [Nat.mul_right_comm, hcross, Nat.mul_right_comm]

theorem code_of_significand_eq_zero (f : BinaryFormat) (h : d.significand = 0) : d.code f = 0 := by
  have hden : 0 < 10 ^ (-d.exponent).toNat := Nat.pow_pos (by decide)
  have hunits : f.units 0 = 0 := by
    unfold BinaryFormat.units
    dsimp only
    rw [Nat.zero_sub, Nat.zero_mul]
  have hzero := f.nearest_units 0 hden
  rw [hunits, Nat.zero_mul, Nat.zero_min] at hzero
  rw [code_eq, h, Nat.zero_mul, Nat.zero_mul]
  exact hzero

end Decimal

/-! ## The shortest decimal of a code -/

namespace BinaryFormat

variable (f : BinaryFormat)

theorem code_exact (code : Nat) : (f.exact code).code f = min code f.infinity := by
  have hup : (f.exact code).exponent.toNat = 0 := Int.toNat_neg_natCast _
  have hdown : (-(f.exact code).exponent).toNat = f.unitExponent := by simp [exact]
  have hsignificand : (f.exact code).significand = f.units code * 5 ^ f.unitExponent := by
    unfold exact
    rw [Nat.pow_eq]
  have hten : 10 ^ f.unitExponent = 5 ^ f.unitExponent * 2 ^ f.unitExponent := Nat.mul_pow 5 2 _
  rw [Decimal.code_eq, hup, hdown, hsignificand, Nat.pow_zero, Nat.mul_one, Nat.mul_assoc, ← hten]
  exact f.nearest_units code (Nat.pow_pos (by decide))

/-- Whichever of the two candidates comes first, each is taken only if it reads as the code. -/
theorem code_of_shortened {tie : TieBreak} {code dropped : Nat} {d : Decimal}
    (h : f.shortened? tie code dropped = some d) : d.code f = code := by
  have htaken : ∀ first second : Decimal,
      (if first.code f == code then some first
        else if second.code f == code then some second else none) = some d →
      d.code f = code := by
    intro first second htake
    by_cases hfirst : first.code f == code
    · rw [if_pos hfirst] at htake
      cases htake
      exact beq_iff_eq.mp hfirst
    · rw [if_neg hfirst] at htake
      by_cases hsecond : second.code f == code
      · rw [if_pos hsecond] at htake
        cases htake
        exact beq_iff_eq.mp hsecond
      · rw [if_neg hsecond] at htake
        cases htake
  unfold shortened? at h
  exact htaken _ _ h

/-- **The shortest decimal of a code reads as it.** -/
theorem code_shortest (tie : TieBreak) {code : Nat} (h : code ≤ f.infinity) :
    (f.shortest tie code).code f = code := by
  unfold shortest
  dsimp only
  cases hfound : (List.range f.digitBound).findSome? fun n =>
      f.shortened? tie code ((Nat.toDigits 10 (f.exact code).significand).length - (n + 1)) with
  | none =>
    rw [Option.getD_none, f.code_exact code]
    exact Nat.min_eq_left h
  | some d =>
    obtain ⟨n, -, hn⟩ := List.exists_of_findSome?_eq_some hfound
    exact f.code_of_shortened hn

end BinaryFormat

/-! ## The digits of a decimal -/

theorem isDigit_toDigits (n : Nat) : ∀ c ∈ Nat.toDigits 10 n, c.isDigit = true :=
  fun _ hc => Nat.isDigit_of_mem_toDigits (by decide) (by decide) hc

theorem isDigit_zeros (k : Nat) : ∀ c ∈ List.replicate k '0', c.isDigit = true := by
  intro c hc
  rw [List.eq_of_mem_replicate hc]
  rfl

theorem not_mem_of_isDigit {mark : Char} {cs : List Char} (h : ∀ c ∈ cs, c.isDigit = true)
    (hmark : mark.isDigit = false) : mark ∉ cs := by
  intro hmem
  rw [h mark hmem] at hmark
  cases hmark

namespace Decimal

variable (d : Decimal)

/-- Only zeros at the end are left out of the digits. -/
theorem exists_toDigits_eq :
    ∃ zeros, Nat.toDigits 10 d.significand = d.digits ++ List.replicate zeros '0' := by
  have hsplit : d.digits ++ (Nat.toDigits 10 d.significand).rtakeWhile (· == '0') =
      Nat.toDigits 10 d.significand := by
    unfold digits List.rtakeWhile
    rw [← List.reverse_append, List.takeWhile_append_dropWhile, List.reverse_reverse]
  have hzeros : (Nat.toDigits 10 d.significand).rtakeWhile (· == '0') =
      List.replicate ((Nat.toDigits 10 d.significand).rtakeWhile (· == '0')).length '0' := by
    rw [List.eq_replicate_iff]
    refine ⟨rfl, fun c hc => ?_⟩
    have hzero : (c == '0') = true := List.mem_rtakeWhile_imp (p := (· == '0')) hc
    exact beq_iff_eq.mp hzero
  exact ⟨_, by rw [← hzeros, hsplit]⟩

theorem isDigit_digits : ∀ c ∈ d.digits, c.isDigit = true := by
  intro c hc
  obtain ⟨zeros, hdigits⟩ := d.exists_toDigits_eq
  apply isDigit_toDigits d.significand
  rw [hdigits]
  exact List.mem_append_left _ hc

theorem digits_ne_nil {d : Decimal} (h : d.significand ≠ 0) : d.digits ≠ [] := by
  intro hnil
  obtain ⟨zeros, hdigits⟩ := d.exists_toDigits_eq
  apply h
  rw [← Nat.ofDigitChars_ten_toDigits (n := d.significand), hdigits, hnil, List.nil_append,
    Nat.ofDigitChars_replicate_zero, Nat.mul_zero]

/-- The value is `0.d₁d₂… * 10 ^ point`. -/
theorem value_eq_digits :
    d.value = Nat.ofDigitChars 10 d.digits 0 * 10 ^ (d.point - d.digits.length) := by
  obtain ⟨zeros, hdigits⟩ := d.exists_toDigits_eq
  have hsignificand : d.significand = 10 ^ zeros * Nat.ofDigitChars 10 d.digits 0 := by
    rw [← Nat.ofDigitChars_replicate_zero, ← Nat.ofDigitChars_append, ← hdigits,
      Nat.ofDigitChars_ten_toDigits]
  have hpoint : d.point - d.digits.length = zeros + d.exponent := by
    unfold point
    rw [hdigits, List.length_append, List.length_replicate]
    omega
  rw [hpoint, zpow_add₀ (by norm_num), zpow_natCast, value, hsignificand]
  push_cast
  ring

end Decimal

/-! ## Numerals -/

/-- A written number without its sign: digits on both sides of a point, and an exponent. Where no
    digits follow the point, the point is left out too. -/
structure Numeral where
  /-- The digits before the point. -/
  whole : List Char
  /-- The digits after the point. -/
  fraction : List Char
  /-- The exponent, if one is written. -/
  exponent : Option Int
  isDigit : ∀ c ∈ whole ++ fraction, c.isDigit = true

namespace Numeral

/-- The number that a numeral stands for. -/
def value (n : Numeral) : ℚ :=
  Nat.ofDigitChars 10 (n.whole ++ n.fraction) 0 * 10 ^ (n.exponent.getD 0 - n.fraction.length)

/-- The text of an exponent. -/
def exponentChars (exponent : Int) : List Char :=
  (if exponent < 0 then ['-'] else []) ++ Nat.toDigits 10 exponent.natAbs

/-- The text before the exponent. -/
def mantissaChars (n : Numeral) : List Char :=
  n.whole ++ if n.fraction.isEmpty then [] else '.' :: n.fraction

/-- The text of a numeral. -/
def chars (n : Numeral) : List Char :=
  n.mantissaChars ++ match n.exponent with
    | none => []
    | some exponent => 'e' :: exponentChars exponent

variable {n : Numeral}

theorem isDigit_whole : ∀ c ∈ n.whole, c.isDigit = true :=
  fun c hc => n.isDigit c (List.mem_append_left _ hc)

theorem isDigit_fraction : ∀ c ∈ n.fraction, c.isDigit = true :=
  fun c hc => n.isDigit c (List.mem_append_right _ hc)

theorem mem_mantissaChars {c : Char} (h : c ∈ n.mantissaChars) : c.isDigit = true ∨ c = '.' := by
  unfold mantissaChars at h
  rcases List.mem_append.mp h with hwhole | hrest
  · exact .inl (isDigit_whole c hwhole)
  · by_cases hempty : n.fraction.isEmpty
    · rw [if_pos hempty] at hrest
      cases hrest
    · rw [if_neg hempty] at hrest
      rcases List.mem_cons.mp hrest with hpoint | hfraction
      · exact .inr hpoint
      · exact .inl (isDigit_fraction c hfraction)

theorem exponentMark_not_mem_mantissaChars : 'e' ∉ n.mantissaChars := by
  intro hmem
  rcases mem_mantissaChars hmem with hdigit | hpoint
  · exact absurd hdigit (by decide)
  · exact absurd hpoint (by decide)

theorem mem_exponentChars {exponent : Int} {c : Char} (h : c ∈ exponentChars exponent) :
    c.isDigit = true ∨ c = '-' := by
  unfold exponentChars at h
  rcases List.mem_append.mp h with hsign | hdigits
  · by_cases hneg : exponent < 0
    · rw [if_pos hneg] at hsign
      exact .inr (List.mem_singleton.mp hsign)
    · rw [if_neg hneg] at hsign
      cases hsign
  · exact .inl (isDigit_toDigits _ c hdigits)

/-- A numeral is written with digits and three marks. -/
theorem mem_chars {c : Char} (h : c ∈ n.chars) : c.isDigit = true ∨ c ∈ ['.', 'e', '-'] := by
  unfold chars at h
  rcases List.mem_append.mp h with hmantissa | hexponent
  · rcases mem_mantissaChars hmantissa with hdigit | rfl
    · exact .inl hdigit
    · exact .inr (by simp)
  · cases hwritten : n.exponent with
    | none =>
      rw [hwritten] at hexponent
      cases hexponent
    | some exponent =>
      rw [hwritten] at hexponent
      rcases List.mem_cons.mp hexponent with rfl | hrest
      · exact .inr (by simp)
      · rcases mem_exponentChars hrest with hdigit | rfl
        · exact .inl hdigit
        · exact .inr (by simp)

/-- A numeral with digits before the point begins with one of them. -/
theorem exists_chars_eq_cons (h : n.whole ≠ []) :
    ∃ c rest, n.chars = c :: rest ∧ c.isDigit = true := by
  obtain ⟨c, rest, hwhole⟩ := List.exists_cons_of_ne_nil h
  have hdigit : c.isDigit = true := by
    apply isDigit_whole (n := n)
    rw [hwhole]
    exact List.mem_cons_self
  unfold chars mantissaChars
  rw [hwhole]
  exact ⟨c, _, rfl, hdigit⟩

/-! ### Reading -/

/-- What stands before a mark. -/
def before (mark : Char) (cs : List Char) : List Char := cs.takeWhile (· != mark)

/-- What stands after a mark. -/
def after (mark : Char) (cs : List Char) : List Char := (cs.dropWhile (· != mark)).drop 1

section

variable {mark : Char} {cs : List Char} (h : mark ∉ cs)

include h

theorem forall_bne : ∀ c ∈ cs, (c != mark) = true :=
  fun _ hc => bne_iff_ne.mpr (ne_of_mem_of_not_mem hc h)

theorem before_append (rest : List Char) : before mark (cs ++ mark :: rest) = cs := by
  unfold before
  rw [List.takeWhile_append_of_pos (forall_bne h)]
  simp

theorem after_append (rest : List Char) : after mark (cs ++ mark :: rest) = rest := by
  unfold after
  rw [List.dropWhile_append_of_pos (forall_bne h)]
  simp

theorem before_of_not_mem : before mark cs = cs :=
  List.takeWhile_eq_self_iff.mpr (forall_bne h)

theorem after_of_not_mem : after mark cs = [] := by
  unfold after
  rw [List.dropWhile_eq_nil_iff.mpr (forall_bne h), List.drop_nil]

end

/-- The whole number that digits stand for, after a minus sign or without one. -/
def readInt (cs : List Char) : Int :=
  if cs.head? = some '-' then -(Nat.ofDigitChars 10 cs.tail 0) else Nat.ofDigitChars 10 cs 0

/-- The decimal that a text stands for. -/
def read (cs : List Char) : Decimal :=
  let mantissa := before 'e' cs
  let fraction := after '.' mantissa
  ⟨Nat.ofDigitChars 10 (before '.' mantissa ++ fraction) 0,
    readInt (after 'e' cs) - fraction.length⟩

theorem readInt_exponentChars (exponent : Int) : readInt (exponentChars exponent) = exponent := by
  unfold readInt exponentChars
  by_cases hneg : exponent < 0
  · rw [if_pos hneg, List.singleton_append, List.head?_cons, if_pos rfl, List.tail_cons,
      Nat.ofDigitChars_ten_toDigits]
    omega
  · have hhead : (Nat.toDigits 10 exponent.natAbs).head? ≠ some '-' := by
      intro hhead
      have hmem : '-' ∈ Nat.toDigits 10 exponent.natAbs := List.mem_of_head? hhead
      exact not_mem_of_isDigit (isDigit_toDigits _) (by decide) hmem
    rw [if_neg hneg, List.nil_append, if_neg hhead, Nat.ofDigitChars_ten_toDigits]
    omega

variable (n)

theorem before_point : before '.' n.mantissaChars = n.whole := by
  have hwhole : '.' ∉ n.whole := not_mem_of_isDigit isDigit_whole (by decide)
  unfold mantissaChars
  by_cases hempty : n.fraction.isEmpty
  · rw [if_pos hempty, List.append_nil]
    exact before_of_not_mem hwhole
  · rw [if_neg hempty]
    exact before_append hwhole _

theorem after_point : after '.' n.mantissaChars = n.fraction := by
  have hwhole : '.' ∉ n.whole := not_mem_of_isDigit isDigit_whole (by decide)
  unfold mantissaChars
  by_cases hempty : n.fraction.isEmpty
  · rw [if_pos hempty, List.append_nil, List.isEmpty_iff.mp hempty]
    exact after_of_not_mem hwhole
  · rw [if_neg hempty]
    exact after_append hwhole _

theorem before_exponent : before 'e' n.chars = n.mantissaChars := by
  unfold chars
  cases n.exponent with
  | none =>
    rw [List.append_nil]
    exact before_of_not_mem exponentMark_not_mem_mantissaChars
  | some exponent => exact before_append exponentMark_not_mem_mantissaChars _

theorem readInt_after_exponent : readInt (after 'e' n.chars) = n.exponent.getD 0 := by
  unfold chars
  cases n.exponent with
  | none =>
    rw [List.append_nil, after_of_not_mem exponentMark_not_mem_mantissaChars]
    rfl
  | some exponent =>
    show readInt (after 'e' (n.mantissaChars ++ 'e' :: exponentChars exponent)) = exponent
    rw [after_append exponentMark_not_mem_mantissaChars]
    exact readInt_exponentChars exponent

/-- **A numeral is read as its value.** -/
theorem value_read : (read n.chars).value = n.value := by
  unfold read Decimal.value value
  simp only [before_exponent, readInt_after_exponent, before_point, after_point]

example : read ['1', '.', '5', 'e', '-', '7'] = ⟨15, -8⟩ := by rfl

/-- Zeros after the digits of a numeral are a matter of its exponent. -/
theorem value_eq {n : Numeral} {ds : List Char} (zeros : Nat) {e : Int}
    (hdigits : n.whole ++ n.fraction = ds ++ List.replicate zeros '0')
    (he : n.exponent.getD 0 - n.fraction.length + zeros = e) :
    n.value = Nat.ofDigitChars 10 ds 0 * 10 ^ e := by
  unfold value
  rw [hdigits, Nat.ofDigitChars_append, Nat.ofDigitChars_replicate_zero, ← he,
    zpow_add₀ (by norm_num), zpow_natCast]
  push_cast
  ring

end Numeral

/-! ## What is written -/

namespace DecimalStyle

section

variable {ds : List Char} (hdigit : ∀ c ∈ ds, c.isDigit = true) (hne : ds ≠ [])

include hdigit hne

/-- Below one: zeros between the point and the digits. -/
theorem exists_numeral_below {point : Int} (hpoint : point ≤ 0) :
    ∃ n : Numeral, ['0', '.'] ++ List.replicate (-point).toNat '0' ++ ds = n.chars ∧
      n.value = Nat.ofDigitChars 10 ds 0 * 10 ^ (point - ds.length) ∧ n.whole ≠ [] := by
  refine ⟨⟨['0'], List.replicate (-point).toNat '0' ++ ds, none, ?_⟩, ?_, ?_,
    List.cons_ne_nil _ _⟩
  · intro c hc
    rcases List.mem_append.mp hc with hc | hc
    · exact isDigit_zeros 1 c hc
    · rcases List.mem_append.mp hc with hc | hc
      · exact isDigit_zeros _ c hc
      · exact hdigit c hc
  · simp [Numeral.chars, Numeral.mantissaChars, hne]
  · have hvalue : Nat.ofDigitChars 10 (['0'] ++ (List.replicate (-point).toNat '0' ++ ds)) 0 =
        Nat.ofDigitChars 10 ds 0 := by
      rw [Nat.ofDigitChars_append, Nat.ofDigitChars_append, Nat.ofDigitChars_replicate_zero]
      rfl
    have hexponent : (0 : Int) - (List.replicate (-point).toNat '0' ++ ds).length =
        point - ds.length := by
      rw [List.length_append, List.length_replicate]
      omega
    unfold Numeral.value
    dsimp only
    rw [hvalue, Option.getD_none, hexponent]

/-- From one on: the point between the digits, or after zeros that follow them. -/
theorem exists_numeral_around {places : Nat} (hplaces : 0 < places) :
    ∃ n : Numeral, ds.take places ++ List.replicate (places - ds.length) '0' ++ ['.'] ++
        (if (ds.drop places).isEmpty then ['0'] else ds.drop places) = n.chars ∧
      n.value = Nat.ofDigitChars 10 ds 0 * 10 ^ ((places : Int) - ds.length) ∧ n.whole ≠ [] := by
  rcases Nat.lt_or_ge places ds.length with hlt | hge
  · have htake : ds.take places ≠ [] := by simp [hne, hplaces.ne']
    have hdrop : (ds.drop places).isEmpty = false := by simp [hlt]
    have hnone : places - ds.length = 0 := by omega
    rw [hdrop, hnone, List.replicate_zero, List.append_nil]
    refine ⟨⟨ds.take places, ds.drop places, none, ?_⟩, ?_, ?_, htake⟩
    · rw [List.take_append_drop]
      exact hdigit
    · simp [Numeral.chars, Numeral.mantissaChars, hlt]
    · refine Numeral.value_eq 0 ?_ ?_
      · rw [List.take_append_drop, List.replicate_zero, List.append_nil]
      · simp
        omega
  · have htake : ds.take places = ds := List.take_of_length_le hge
    have hdrop : ds.drop places = [] := List.drop_eq_nil_of_le hge
    rw [hdrop, htake]
    refine ⟨⟨ds ++ List.replicate (places - ds.length) '0', ['0'], none, ?_⟩, ?_, ?_,
      List.append_ne_nil_of_left_ne_nil hne _⟩
    · intro c hc
      rcases List.mem_append.mp hc with hc | hc
      · rcases List.mem_append.mp hc with hc | hc
        · exact hdigit c hc
        · exact isDigit_zeros _ c hc
      · exact isDigit_zeros 1 c hc
    · simp [Numeral.chars, Numeral.mantissaChars]
    · refine Numeral.value_eq (places - ds.length + 1) ?_ ?_
      · simp [List.replicate_add]
      · simp
        omega

/-- Far from one: a single digit before the point, and an exponent. -/
theorem exists_numeral_scaled (point : Int) :
    ∃ n : Numeral, (ds.take 1 ++ if (ds.drop 1).isEmpty then [] else '.' :: ds.drop 1) ++
        'e' :: Numeral.exponentChars (point - 1) = n.chars ∧
      n.value = Nat.ofDigitChars 10 ds 0 * 10 ^ (point - ds.length) ∧ n.whole ≠ [] := by
  have hlength : 0 < ds.length := List.length_pos_iff.mpr hne
  refine ⟨⟨ds.take 1, ds.drop 1, some (point - 1), ?_⟩, rfl, ?_, ?_⟩
  · rw [List.take_append_drop]
    exact hdigit
  · refine Numeral.value_eq 0 ?_ ?_
    · rw [List.take_append_drop, List.replicate_zero, List.append_nil]
    · simp
      omega
  · simp [hne]

end

/-- **A decimal is written as a numeral of the same value.** -/
theorem exists_numeral (style : DecimalStyle) (hmark : style.exponentMark = "") {d : Decimal}
    (hd : d.significand ≠ 0) :
    ∃ n : Numeral, (style.write d).toList = n.chars ∧ n.value = d.value ∧ n.whole ≠ [] := by
  have hne : d.digits ≠ [] := Decimal.digits_ne_nil hd
  rw [d.value_eq_digits]
  unfold write
  dsimp only
  by_cases hnear : style.leastPoint ≤ d.point ∧ d.point ≤ style.greatestPoint
  · rw [if_pos hnear]
    by_cases hlow : d.point ≤ 0
    · rw [if_pos hlow, String.toList_ofList]
      exact exists_numeral_below d.isDigit_digits hne hlow
    · have hplaces : (d.point.toNat : Int) = d.point := Int.toNat_of_nonneg (by omega)
      rw [if_neg hlow, String.toList_ofList, ← hplaces, Int.toNat_natCast]
      exact exists_numeral_around d.isDigit_digits hne (by omega)
  · obtain ⟨n, hchars, hvalue, hwhole⟩ := exists_numeral_scaled d.isDigit_digits hne d.point
    refine ⟨n, ?_, hvalue, hwhole⟩
    rw [if_neg hnear, ← hchars, hmark]
    unfold Numeral.exponentChars
    by_cases hneg : d.point - 1 < 0
    · simp [hneg, String.toList_append]
    · simp [hneg, String.toList_append]

end DecimalStyle

end EffectGraph
