import EffectGraph.Number.Binary
import Mathlib.Tactic.Ring

/-!
# `Proofs.Rounding` — what a binary format represents, and what rounding does to it

A code splits into the steps `m` that it goes into its binade and the number `b` of the binade, and
its magnitude is `m * 2 ^ b` units (`units_of_normal`). Rounding finds the binade of a magnitude from
its logarithm, so it takes a magnitude of that form back to its code (`nearest_units`). With this,

* a finite magnitude of the 32-bit format is one of the 64-bit format (`exists_double_units`);
* equal fractions round to one code, however they are given (`nearest_congr`);
* a magnitude rounds to a finite code exactly when it is below the middle between the greatest finite
  magnitude and the next power of two (`nearest_lt_infinity_iff`).
-/

namespace EffectGraph

/-! ## Rounded quotients -/

/-- A fraction rounds as the one with both numbers multiplied. -/
theorem roundEven_mul_mul (num den : Nat) {k : Nat} (hk : 0 < k) :
    roundEven (num * k) (den * k) = roundEven num den := by
  have hbelow : 2 * (num % den * k) < den * k ↔ 2 * (num % den) < den := by
    rw [← Nat.mul_assoc, Nat.mul_lt_mul_right hk]
  have habove : den * k < 2 * (num % den * k) ↔ den < 2 * (num % den) := by
    rw [← Nat.mul_assoc, Nat.mul_lt_mul_right hk]
  unfold roundEven
  dsimp only
  rw [Nat.mul_div_mul_right _ _ hk, Nat.mul_mod_mul_right]
  simp only [hbelow, habove]

theorem roundEven_mul (n : Nat) {d : Nat} (hd : 0 < d) : roundEven (n * d) d = n := by
  simp [roundEven, Nat.mul_div_cancel n hd, hd]

/-- A quotient rounds to less than an even number when it is more than one half below it: the half
    itself goes to the even number. -/
theorem roundEven_lt_iff {num d k : Nat} (hd : 0 < d) (hk : 2 ∣ k) :
    roundEven num d < k ↔ 2 * num + d < 2 * (k * d) := by
  have hnum : d * (num / d) + num % d = num := Nat.div_add_mod num d
  have hr : num % d < d := Nat.mod_lt num hd
  -- whole multiples of the divisor compare as their factors do
  have hcompare : ∀ q, q < k ∧ d * q + d ≤ k * d ∨ k ≤ q ∧ k * d ≤ d * q := by
    intro q
    rw [Nat.mul_comm k d]
    rcases Nat.lt_or_ge q k with hlt | hge
    · exact .inl ⟨hlt, Nat.mul_le_mul_left d hlt⟩
    · exact .inr ⟨hge, Nat.mul_le_mul_left d hge⟩
  have hself := hcompare (num / d)
  have hnext := hcompare (num / d + 1)
  rw [Nat.mul_succ] at hnext
  unfold roundEven
  dsimp only
  generalize num / d = q at *
  generalize num % d = r at *
  generalize d * q = below at *
  generalize k * d = bound at *
  by_cases hlow : 2 * r < d
  · rw [if_pos hlow]
    omega
  · rw [if_neg hlow]
    by_cases hhigh : d < 2 * r
    · rw [if_pos hhigh]
      omega
    · rw [if_neg hhigh]
      omega

/-! ## Codes and magnitudes -/

namespace BinaryFormat

variable {f : BinaryFormat} {m b : Nat}

/-- The steps into a binade and the binade that they fall into: above the lowest binade, the steps
    are never fewer than those of the binades before it. -/
structure Normal (f : BinaryFormat) (m b : Nat) : Prop where
  lt : m < 2 ^ (f.fractionBits + 1)
  eq_zero_or_le : b = 0 ∨ 2 ^ f.fractionBits ≤ m

/-- Every code has steps and a binade. -/
theorem exists_normal (f : BinaryFormat) (code : Nat) :
    ∃ m b, f.Normal m b ∧ code = m + b * 2 ^ f.fractionBits := by
  have hpos : 0 < 2 ^ f.fractionBits := Nat.two_pow_pos _
  have hdouble : 2 ^ (f.fractionBits + 1) = 2 * 2 ^ f.fractionBits := Nat.pow_succ'
  have hsplit : 2 ^ f.fractionBits * (code / 2 ^ f.fractionBits) + code % 2 ^ f.fractionBits =
      code := Nat.div_add_mod _ _
  have hmod : code % 2 ^ f.fractionBits < 2 ^ f.fractionBits := Nat.mod_lt _ hpos
  cases hexp : code / 2 ^ f.fractionBits with
  | zero =>
    rw [hexp] at hsplit
    exact ⟨code, 0, ⟨by omega, .inl rfl⟩, by omega⟩
  | succ b =>
    rw [hexp, Nat.mul_succ, Nat.mul_comm] at hsplit
    exact ⟨2 ^ f.fractionBits + code % 2 ^ f.fractionBits, b, ⟨by omega, .inr (by omega)⟩, by omega⟩

theorem units_of_normal (h : f.Normal m b) : f.units (m + b * 2 ^ f.fractionBits) = m * 2 ^ b := by
  have hpos : 0 < 2 ^ f.fractionBits := Nat.two_pow_pos _
  have hlt := h.lt
  rw [Nat.pow_succ] at hlt
  have hbinade : (m + b * 2 ^ f.fractionBits) / 2 ^ f.fractionBits - 1 = b := by
    rw [Nat.add_mul_div_right _ _ hpos]
    have hhigh : m / 2 ^ f.fractionBits < 2 := Nat.div_lt_of_lt_mul hlt
    rcases h.eq_zero_or_le with rfl | hle
    · omega
    · have hlow : 1 ≤ m / 2 ^ f.fractionBits := Nat.div_pos hle hpos
      omega
  unfold units
  simp only [Nat.pow_eq]
  rw [hbinade, Nat.add_sub_cancel]

/-- Few enough steps of any size make a magnitude of the format. -/
theorem exists_units_eq (b : Nat) (hm : m < 2 ^ (f.fractionBits + 1)) :
    ∃ code, f.units code = m * 2 ^ b ∧ code < (b + 2) * 2 ^ f.fractionBits := by
  have hdouble : 2 ^ (f.fractionBits + 1) = 2 * 2 ^ f.fractionBits := Nat.pow_succ'
  induction b generalizing m with
  | zero =>
    have h : f.Normal m 0 := ⟨hm, .inl rfl⟩
    refine ⟨m + 0 * 2 ^ f.fractionBits, units_of_normal h, ?_⟩
    omega
  | succ b ih =>
    by_cases hle : 2 ^ f.fractionBits ≤ m
    · have h : f.Normal m (b + 1) := ⟨hm, .inr hle⟩
      refine ⟨m + (b + 1) * 2 ^ f.fractionBits, units_of_normal h, ?_⟩
      have hsum : (b + 1 + 2) * 2 ^ f.fractionBits =
          2 * 2 ^ f.fractionBits + (b + 1) * 2 ^ f.fractionBits := by ring
      omega
    · -- the steps are so few that there may be twice as many of half the size
      obtain ⟨code, hunits, hlt⟩ := ih (m := m * 2) (by omega)
      refine ⟨code, ?_, ?_⟩
      · rw [hunits]; ring
      · have hsum : (b + 1 + 2) * 2 ^ f.fractionBits =
            (b + 2) * 2 ^ f.fractionBits + 2 ^ f.fractionBits := by ring
        omega

/-! ## The binade of a magnitude -/

/-- The binade that rounding finds for a magnitude. -/
def binade (f : BinaryFormat) (num den : Nat) : Nat := (num / den).log2 - f.fractionBits

/-- The steps that rounding finds into that binade. -/
def steps (f : BinaryFormat) (num den : Nat) : Nat := roundEven num (den * 2 ^ f.binade num den)

theorem nearest_eq (f : BinaryFormat) (num den : Nat) :
    f.nearest num den =
      min (f.steps num den + f.binade num den * 2 ^ f.fractionBits) f.infinity := by
  unfold nearest steps binade
  simp only [Nat.pow_eq]

theorem nearest_le_infinity (f : BinaryFormat) (num den : Nat) : f.nearest num den ≤ f.infinity :=
  Nat.min_le_right _ _

/-- Rounding finds the binade that a magnitude was put together from. -/
theorem binade_of_normal (h : f.Normal m b) {k : Nat} (hk : 0 < k) :
    f.binade (m * 2 ^ b * k) k = b := by
  unfold binade
  rw [Nat.mul_div_cancel _ hk]
  rcases Nat.eq_zero_or_pos (m * 2 ^ b) with hzero | hpos
  · obtain rfl : m = 0 := by simpa using hzero
    rcases h.eq_zero_or_le with rfl | hle
    · simp
    · exact absurd hle (Nat.not_le.mpr (Nat.two_pow_pos _))
  · have hupper : (m * 2 ^ b).log2 < f.fractionBits + 1 + b := by
      rw [Nat.log2_lt hpos.ne', Nat.pow_add]
      exact Nat.mul_lt_mul_of_pos_right h.lt (Nat.two_pow_pos b)
    rcases h.eq_zero_or_le with rfl | hle
    · omega
    · have hlower : f.fractionBits + b ≤ (m * 2 ^ b).log2 := by
        rw [Nat.le_log2 hpos.ne', Nat.pow_add]
        exact Nat.mul_le_mul_right _ hle
      omega

/-- **Rounding takes a magnitude to its own code**, in whatever fraction it is given. -/
theorem nearest_units (f : BinaryFormat) (code : Nat) {k : Nat} (hk : 0 < k) :
    f.nearest (f.units code * k) k = min code f.infinity := by
  obtain ⟨m, b, h, rfl⟩ := f.exists_normal code
  have hsteps : f.steps (m * 2 ^ b * k) k = m := by
    have hwhole : m * 2 ^ b * k = m * (k * 2 ^ b) := by ring
    rw [steps, binade_of_normal h hk, hwhole]
    exact roundEven_mul m (Nat.mul_pos hk (Nat.two_pow_pos b))
  rw [units_of_normal h, nearest_eq, binade_of_normal h hk, hsteps]

variable {num den : Nat}

theorem lt_of_log2 (hd : 0 < den) : num < 2 ^ ((num / den).log2 + 1) * den := by
  rw [← Nat.div_lt_iff_lt_mul hd]
  exact Nat.lt_log2_self

theorem le_of_log2 (hd : 0 < den) (h : 0 < (num / den).log2) :
    2 ^ (num / den).log2 * den ≤ num := by
  rw [← Nat.le_div_iff_mul_le hd]
  refine Nat.log2_self_le ?_
  intro hzero
  rw [hzero, Nat.log2_zero] at h
  exact Nat.lt_irrefl 0 h

/-- A magnitude is less than twice the steps of the binades below away from its binade. -/
theorem lt_steps (f : BinaryFormat) (hd : 0 < den) :
    num < 2 ^ (f.fractionBits + 1) * (den * 2 ^ f.binade num den) := by
  have hexponent : (num / den).log2 + 1 ≤ f.fractionBits + 1 + f.binade num den := by
    unfold binade
    omega
  calc num < 2 ^ ((num / den).log2 + 1) * den := lt_of_log2 hd
    _ ≤ 2 ^ (f.fractionBits + 1 + f.binade num den) * den :=
      Nat.mul_le_mul_right den (Nat.pow_le_pow_right (by omega) hexponent)
    _ = 2 ^ (f.fractionBits + 1) * (den * 2 ^ f.binade num den) := by rw [Nat.pow_add]; ring

/-- Rounding up leads into the next binade at most. -/
theorem steps_lt (f : BinaryFormat) (hd : 0 < den) :
    f.steps num den < 2 ^ (f.fractionBits + 1) + 2 := by
  have heven : 2 ∣ 2 ^ (f.fractionBits + 1) + 2 := by
    rw [Nat.pow_succ']
    omega
  have hlt : num < 2 ^ (f.fractionBits + 1) * (den * 2 ^ f.binade num den) := f.lt_steps hd
  rw [steps, roundEven_lt_iff (Nat.mul_pos hd (Nat.two_pow_pos _)) heven, Nat.add_mul]
  omega

/-- Above the lowest binade the steps stay above those of the binades below. -/
theorem le_steps (hF : 1 ≤ f.fractionBits) (hd : 0 < den) (h : f.fractionBits < (num / den).log2) :
    2 ^ f.fractionBits ≤ f.steps num den := by
  have heven : 2 ∣ 2 ^ f.fractionBits := dvd_pow_self 2 (by omega)
  have hexponent : f.fractionBits + f.binade num den = (num / den).log2 := by
    unfold binade
    omega
  have hle : 2 ^ f.fractionBits * (den * 2 ^ f.binade num den) ≤ num := by
    calc 2 ^ f.fractionBits * (den * 2 ^ f.binade num den)
        = 2 ^ (f.fractionBits + f.binade num den) * den := by rw [Nat.pow_add]; ring
      _ = 2 ^ (num / den).log2 * den := by rw [hexponent]
      _ ≤ num := le_of_log2 hd (by omega)
  have hround : ¬ f.steps num den < 2 ^ f.fractionBits := by
    rw [steps, roundEven_lt_iff (Nat.mul_pos hd (Nat.two_pow_pos _)) heven]
    omega
  exact Nat.le_of_not_lt hround

/-! ## Fractions of one value -/

theorem nearest_mul_mul (f : BinaryFormat) (num den : Nat) {k : Nat} (hk : 0 < k) :
    f.nearest (num * k) (den * k) = f.nearest num den := by
  have hbinade : f.binade (num * k) (den * k) = f.binade num den := by
    rw [binade, Nat.mul_div_mul_right _ _ hk, binade]
  have hsteps : f.steps (num * k) (den * k) = f.steps num den := by
    rw [steps, hbinade, Nat.mul_right_comm, roundEven_mul_mul _ _ hk, steps]
  rw [nearest_eq, hbinade, hsteps, nearest_eq]

/-- **Equal fractions round to one code.** -/
theorem nearest_congr (f : BinaryFormat) {num' den' : Nat} (hd : 0 < den) (hd' : 0 < den')
    (h : num * den' = num' * den) : f.nearest num den = f.nearest num' den' := by
  calc f.nearest num den = f.nearest (num * den') (den * den') :=
        (f.nearest_mul_mul num den hd').symm
    _ = f.nearest (num' * den) (den' * den) := by rw [h, Nat.mul_comm den]
    _ = f.nearest num' den' := f.nearest_mul_mul num' den' hd

/-! ## The range of a format -/

/-- The magnitude in the middle between the greatest finite one and the next power of two. -/
def overflow (f : BinaryFormat) : Nat :=
  (2 ^ (f.fractionBits + 2) - 1) * 2 ^ (2 ^ f.exponentBits - 4)

section

-- the last finite binade is `top + 1`
variable {top : Nat} (htop : 2 ^ f.exponentBits = top + 4)

include htop

theorem infinity_eq : f.infinity = (top + 3) * 2 ^ f.fractionBits := by
  have hthree : top + 4 - 1 = top + 3 := by omega
  rw [infinity, Nat.pow_eq, Nat.pow_eq, htop, hthree]

theorem overflow_mul_add (den : Nat) :
    f.overflow * den + 2 ^ top * den = 2 ^ (f.fractionBits + 2) * (2 ^ top * den) := by
  have hone : 2 ^ (f.fractionBits + 2) - 1 + 1 = 2 ^ (f.fractionBits + 2) :=
    Nat.sub_add_cancel Nat.one_le_two_pow
  rw [overflow, htop, Nat.add_sub_cancel, Nat.mul_assoc, ← Nat.succ_mul, Nat.succ_eq_add_one, hone]

/-- In a binade before the last one, everything rounds to a finite code. -/
theorem finite_of_log2_lt (hF : 1 ≤ f.fractionBits) (hd : 0 < den)
    (h : (num / den).log2 < f.fractionBits + top + 1) :
    f.steps num den + f.binade num den * 2 ^ f.fractionBits < f.infinity ∧
      num < f.overflow * den := by
  have hdouble : 2 ^ (f.fractionBits + 1) = 2 * 2 ^ f.fractionBits := Nat.pow_succ'
  constructor
  · have hbinade : f.binade num den * 2 ^ f.fractionBits ≤ top * 2 ^ f.fractionBits :=
      Nat.mul_le_mul_right _ (by unfold binade; omega)
    have hsteps : f.steps num den < 2 ^ (f.fractionBits + 1) + 2 := f.steps_lt hd
    have htwo : 2 ^ 1 ≤ 2 ^ f.fractionBits := Nat.pow_le_pow_right (by omega) hF
    have hsum : (top + 3) * 2 ^ f.fractionBits =
        top * 2 ^ f.fractionBits + 3 * 2 ^ f.fractionBits := by ring
    rw [infinity_eq htop]
    omega
  · have hnum : num < 2 ^ (f.fractionBits + 1) * (2 ^ top * den) := by
      calc num < 2 ^ ((num / den).log2 + 1) * den := lt_of_log2 hd
        _ ≤ 2 ^ (f.fractionBits + 1 + top) * den :=
          Nat.mul_le_mul_right den (Nat.pow_le_pow_right (by omega) (by omega))
        _ = 2 ^ (f.fractionBits + 1) * (2 ^ top * den) := by rw [Nat.pow_add]; ring
    have hhalf : 2 ^ (f.fractionBits + 2) * (2 ^ top * den) =
        2 * (2 ^ (f.fractionBits + 1) * (2 ^ top * den)) := by rw [Nat.pow_succ']; ring
    have hle : 2 ^ top * den ≤ 2 ^ (f.fractionBits + 1) * (2 ^ top * den) :=
      Nat.le_mul_of_pos_left _ (Nat.two_pow_pos _)
    have hoverflow := overflow_mul_add htop den
    omega

/-- In the last binade, what counts is whether the steps are rounded up to a power of two. -/
theorem finite_iff_of_log2_eq (hd : 0 < den) (h : (num / den).log2 = f.fractionBits + top + 1) :
    f.steps num den + f.binade num den * 2 ^ f.fractionBits < f.infinity ↔
      num < f.overflow * den := by
  have hdouble : 2 ^ (f.fractionBits + 1) = 2 * 2 ^ f.fractionBits := Nat.pow_succ'
  have hunit : 0 < 2 ^ top * den := Nat.mul_pos (Nat.two_pow_pos top) hd
  have hbinade : f.binade num den = top + 1 := by
    unfold binade
    omega
  have hstep : den * 2 ^ (top + 1) = 2 * (2 ^ top * den) := by ring
  have hround : f.steps num den < 2 ^ (f.fractionBits + 1) ↔
      2 * num + 2 * (2 ^ top * den) < 2 * (2 ^ (f.fractionBits + 1) * (2 * (2 ^ top * den))) := by
    rw [steps, hbinade, hstep]
    exact roundEven_lt_iff (by omega) (by omega)
  have hsum : (top + 3) * 2 ^ f.fractionBits =
      2 ^ (f.fractionBits + 1) + (top + 1) * 2 ^ f.fractionBits := by rw [hdouble]; ring
  have hhalf : 2 ^ (f.fractionBits + 1) * (2 * (2 ^ top * den)) =
      2 ^ (f.fractionBits + 2) * (2 ^ top * den) := by
    rw [Nat.pow_succ' (n := f.fractionBits + 1)]
    ring
  have hoverflow := overflow_mul_add htop den
  rw [hbinade, infinity_eq htop, hsum, Nat.add_lt_add_iff_right, hround, hhalf]
  omega

/-- In a binade after the last one, nothing does. -/
theorem infinite_of_lt_log2 (hF : 1 ≤ f.fractionBits) (hd : 0 < den)
    (h : f.fractionBits + top + 1 < (num / den).log2) :
    f.infinity ≤ f.steps num den + f.binade num den * 2 ^ f.fractionBits ∧
      f.overflow * den ≤ num := by
  constructor
  · have hbinade : (top + 2) * 2 ^ f.fractionBits ≤ f.binade num den * 2 ^ f.fractionBits :=
      Nat.mul_le_mul_right _ (by unfold binade; omega)
    have hsteps : 2 ^ f.fractionBits ≤ f.steps num den := le_steps hF hd (by omega)
    have hsum : (top + 3) * 2 ^ f.fractionBits =
        (top + 2) * 2 ^ f.fractionBits + 2 ^ f.fractionBits := by ring
    rw [infinity_eq htop]
    omega
  · have hnum : 2 ^ (f.fractionBits + 2) * (2 ^ top * den) ≤ num := by
      calc 2 ^ (f.fractionBits + 2) * (2 ^ top * den) = 2 ^ (f.fractionBits + 2 + top) * den := by
            rw [Nat.pow_add]; ring
        _ ≤ 2 ^ (num / den).log2 * den :=
          Nat.mul_le_mul_right den (Nat.pow_le_pow_right (by omega) (by omega))
        _ ≤ num := le_of_log2 hd (by omega)
    have hoverflow := overflow_mul_add htop den
    omega

end

/-- **What rounds to a finite code**: everything below the middle between the greatest finite
    magnitude and the next power of two. The middle itself goes to infinity, whose code is even. -/
theorem nearest_lt_infinity_iff (hF : 1 ≤ f.fractionBits) (hE : 2 ≤ f.exponentBits)
    (hd : 0 < den) : f.nearest num den < f.infinity ↔ num < f.overflow * den := by
  obtain ⟨top, htop⟩ : ∃ top, 2 ^ f.exponentBits = top + 4 := by
    have hle : 2 ^ 2 ≤ 2 ^ f.exponentBits := Nat.pow_le_pow_right (by omega) hE
    exact ⟨2 ^ f.exponentBits - 4, by omega⟩
  rw [nearest_eq, min_lt_iff, or_iff_left (Nat.lt_irrefl _)]
  rcases Nat.lt_trichotomy (num / den).log2 (f.fractionBits + top + 1) with hbelow | hlast | habove
  · obtain ⟨hcode, hnum⟩ := finite_of_log2_lt htop hF hd hbelow
    exact iff_of_true hcode hnum
  · exact finite_iff_of_log2_eq htop hd hlast
  · obtain ⟨hcode, hnum⟩ := infinite_of_lt_log2 htop hF hd habove
    exact iff_of_false (Nat.not_lt.mpr hcode) (Nat.not_lt.mpr hnum)

end BinaryFormat

/-! ## Between the two formats -/

theorem unitRatio_eq :
    unitRatio = 2 ^ (BinaryFormat.double.unitExponent - BinaryFormat.single.unitExponent) := by
  unfold unitRatio
  generalize BinaryFormat.double.unitExponent - BinaryFormat.single.unitExponent = n
  exact Nat.pow_eq

/-- **A finite magnitude of the 32-bit format is one of the 64-bit format.** -/
theorem exists_double_units {code : Nat} (h : code < BinaryFormat.single.infinity) :
    ∃ wide, BinaryFormat.double.units wide = BinaryFormat.single.units code * unitRatio ∧
      wide < BinaryFormat.double.infinity := by
  have hsingle : BinaryFormat.single.infinity = 255 * 2 ^ 23 := by decide
  have hdouble : BinaryFormat.double.infinity = 2047 * 2 ^ 52 := by decide
  obtain ⟨m, b, hn, rfl⟩ := BinaryFormat.single.exists_normal code
  have hcode : m + b * 2 ^ 23 < BinaryFormat.single.infinity := h
  have hm : m < 2 ^ 24 := hn.lt
  have hm' : m < 2 ^ (BinaryFormat.double.fractionBits + 1) := by
    refine Nat.lt_trans hm ?_
    decide
  have hratio : BinaryFormat.double.unitExponent - BinaryFormat.single.unitExponent = 925 := by
    decide
  obtain ⟨wide, hunits, hwide⟩ := BinaryFormat.exists_units_eq
    (b + (BinaryFormat.double.unitExponent - BinaryFormat.single.unitExponent)) hm'
  refine ⟨wide, ?_, ?_⟩
  · rw [hunits, BinaryFormat.units_of_normal hn, unitRatio_eq, Nat.pow_add, Nat.mul_assoc]
  · rw [hratio] at hwide
    have hbound : wide < (b + 925 + 2) * 2 ^ 52 := hwide
    omega

end EffectGraph
