import EffectGraph.Proofs.Rounding
import Mathlib

/-!
# `Proofs.Widening` — from the 32-bit format to the 64-bit format and back

Core's floating-point numbers are words of bits that are no second form of `nan`, and unpacking a
word into its fields can be undone. So a number is given by its sign and its code
(`Single.ofCode_code`), where only `nan` has a code beyond the one of infinity
(`Single.code_le_infinity`), and a finite 32-bit number comes back from the equal 64-bit one with
every bit of it (`narrow_widen`). A 64-bit number has a finite nearest 32-bit one exactly when it is
in range (`isFinite_narrow`).
-/

namespace EffectGraph

open Float.Model (Format)
open Float.Model.UnpackedFloat

/-- The code of a word is put together from its fields. -/
theorem code_eq_fields {spec : Format} (b : BitVec spec.numBits) :
    b.toNat % 2 ^ (spec.exponentBits + spec.mantissaBitsWithoutImplicit) =
      (unpackMantissa b).toNat +
        2 ^ spec.mantissaBitsWithoutImplicit * (unpackExponent b).toNat := by
  have hmantissa : (unpackMantissa b).toNat = b.toNat % 2 ^ spec.mantissaBitsWithoutImplicit := by
    rw [unpackMantissa_def, BitVec.extractLsb'_toNat, Nat.shiftRight_zero]
  have hexponent : (unpackExponent b).toNat =
      b.toNat / 2 ^ spec.mantissaBitsWithoutImplicit % 2 ^ spec.exponentBits := by
    rw [unpackExponent_def, BitVec.extractLsb'_toNat, Nat.shiftRight_eq_div_pow]
  rw [hmantissa, hexponent, Nat.add_comm spec.exponentBits, Nat.pow_add, Nat.mod_mul]

/-- A word whose code is at most the one of infinity is no `nan`. -/
theorem valid_of_code_le {spec : Format} {b : BitVec spec.numBits}
    (h : b.toNat % 2 ^ (spec.exponentBits + spec.mantissaBitsWithoutImplicit) ≤
      (2 ^ spec.exponentBits - 1) * 2 ^ spec.mantissaBitsWithoutImplicit) : spec.Valid b := by
  refine ⟨fun hones hne => absurd ?_ hne⟩
  rw [code_eq_fields, hones, BitVec.neg_one_eq_allOnes, BitVec.toNat_allOnes, Nat.mul_comm] at h
  exact BitVec.eq_of_toNat_eq (by simp; omega)

/-- A word whose code is greater than the one of infinity is a `nan`. -/
theorem unpack_of_lt_code {spec : Format} {b : BitVec spec.numBits}
    (h : (2 ^ spec.exponentBits - 1) * 2 ^ spec.mantissaBitsWithoutImplicit <
      b.toNat % 2 ^ (spec.exponentBits + spec.mantissaBitsWithoutImplicit)) :
    unpack spec b = notANumber := by
  have hmantissa : (unpackMantissa b).toNat < 2 ^ spec.mantissaBitsWithoutImplicit :=
    (unpackMantissa b).isLt
  have hexponent : (unpackExponent b).toNat < 2 ^ spec.exponentBits := (unpackExponent b).isLt
  rw [code_eq_fields, Nat.mul_comm] at h
  have htop : (unpackExponent b).toNat = 2 ^ spec.exponentBits - 1 := by
    refine Nat.le_antisymm (by omega) (Nat.le_of_not_lt fun hlt => ?_)
    have hle : 2 ^ spec.mantissaBitsWithoutImplicit * ((unpackExponent b).toNat + 1) ≤
        2 ^ spec.mantissaBitsWithoutImplicit * (2 ^ spec.exponentBits - 1) :=
      Nat.mul_le_mul_left _ hlt
    rw [Nat.mul_succ] at hle
    omega
  have hones : unpackExponent b = -BitVec.ofNat spec.exponentBits 1 := by
    rw [BitVec.neg_one_eq_allOnes]
    refine BitVec.eq_of_toNat_eq ?_
    rw [htop, BitVec.toNat_allOnes]
  have hne : unpackMantissa b ≠ BitVec.ofNat spec.mantissaBitsWithoutImplicit 0 := by
    intro hzero
    rw [htop, hzero] at h
    simp at h
  rw [unpack.eq_1, if_pos hones, if_neg hne]

/-! ## Words by sign and code -/

namespace BinaryFormat

theorem infinity_lt_signBit (f : BinaryFormat) : f.infinity < f.signBit := by
  unfold infinity signBit
  simp only [Nat.pow_eq]
  rw [Nat.pow_add]
  have hexponent : 0 < 2 ^ f.exponentBits := Nat.two_pow_pos _
  exact Nat.mul_lt_mul_of_pos_right (by omega) (Nat.two_pow_pos _)

/-- A word is the sum of its code and of the weight of its sign. -/
theorem code_add_sign (f : BinaryFormat) {word : Nat} (h : word < 2 * f.signBit) :
    word % f.signBit + (if f.signBit ≤ word then f.signBit else 0) = word := by
  by_cases hsign : f.signBit ≤ word
  · rw [if_pos hsign, Nat.mod_eq_sub_mod hsign, Nat.mod_eq_of_lt (by omega)]
    omega
  · rw [if_neg hsign, Nat.mod_eq_of_lt (by omega), Nat.add_zero]

variable {f : BinaryFormat} {code : Nat}

theorem add_sign_mod (h : code < f.signBit) (negative : Bool) :
    (code + if negative then f.signBit else 0) % f.signBit = code := by
  cases negative with
  | true => simp [Nat.mod_eq_of_lt h]
  | false => simp [Nat.mod_eq_of_lt h]

theorem signBit_le_add_sign (h : code < f.signBit) (negative : Bool) :
    decide (f.signBit ≤ code + if negative then f.signBit else 0) = negative := by
  cases negative with
  | true => simp
  | false => simpa using h

theorem add_sign_lt (h : code < f.signBit) (negative : Bool) :
    (code + if negative then f.signBit else 0) < 2 * f.signBit := by
  cases negative with
  | true => simp; omega
  | false => simp; omega

end BinaryFormat

/-! ## Numbers by sign and code -/

namespace Single

open BinaryFormat (single)

theorem toBits_ofBits {bits : UInt32} (h : Format.binary32.Valid bits.toBitVec) :
    (Float32.ofBits bits).toBits = bits :=
  congrArg UInt32.ofBitVec (pack_unpack_of_valid h)

/-- A number is given by its sign and its code. -/
theorem ofCode_code (x : Float32) : ofCode (isNegative x) (code x) = x := by
  have hword : x.toBits.toNat < 2 * single.signBit := x.toBits.toNat_lt
  have hsum : code x + (if isNegative x then single.signBit else 0) = x.toBits.toNat := by
    simpa [isNegative, code] using single.code_add_sign hword
  rw [ofCode, hsum, UInt32.ofNat_toNat, Float32.ofBits_toBits]

/-- A code beyond the one of infinity is one of `nan`. -/
theorem code_le_infinity {x : Float32} (h : x.isNaN = false) : code x ≤ single.infinity := by
  refine Nat.le_of_not_lt fun hlt => ?_
  have hunpack : unpack .binary32 x.toBits.toBitVec = notANumber := unpack_of_lt_code hlt
  have hnan : (unpack .binary32 x.toBits.toBitVec).isNaN = false := h
  rw [hunpack] at hnan
  cases hnan

/-- The bits of the number with a sign and a code. -/
theorem toBits_ofCode {c : Nat} (h : c ≤ single.infinity) (negative : Bool) :
    (ofCode negative c).toBits.toNat = c + if negative then single.signBit else 0 := by
  have hc : c < single.signBit := Nat.lt_of_le_of_lt h single.infinity_lt_signBit
  have hword : (c + if negative then single.signBit else 0) < 2 ^ 32 :=
    BinaryFormat.add_sign_lt hc negative
  have hbits : (UInt32.ofNat (c + if negative then single.signBit else 0)).toNat =
      c + if negative then single.signBit else 0 :=
    UInt32.toNat_ofNat_of_lt' hword
  have hvalid : Format.binary32.Valid
      (UInt32.ofNat (c + if negative then single.signBit else 0)).toBitVec := by
    refine valid_of_code_le ?_
    rw [UInt32.toNat_toBitVec, hbits]
    exact Nat.le_trans (Nat.le_of_eq (BinaryFormat.add_sign_mod hc negative)) h
  rw [ofCode, toBits_ofBits hvalid, hbits]

theorem code_ofCode {c : Nat} (h : c ≤ single.infinity) (negative : Bool) :
    code (ofCode negative c) = c := by
  rw [code, toBits_ofCode h]
  exact BinaryFormat.add_sign_mod (Nat.lt_of_le_of_lt h single.infinity_lt_signBit) negative

end Single

namespace Double

open BinaryFormat (double)

theorem toBits_ofBits {bits : UInt64} (h : Format.binary64.Valid bits.toBitVec) :
    (Float.ofBits bits).toBits = bits :=
  congrArg UInt64.ofBitVec (pack_unpack_of_valid h)

/-- The bits of the number with a sign and a code. -/
theorem toBits_ofCode {c : Nat} (h : c ≤ double.infinity) (negative : Bool) :
    (ofCode negative c).toBits.toNat = c + if negative then double.signBit else 0 := by
  have hc : c < double.signBit := Nat.lt_of_le_of_lt h double.infinity_lt_signBit
  have hword : (c + if negative then double.signBit else 0) < 2 ^ 64 :=
    BinaryFormat.add_sign_lt hc negative
  have hbits : (UInt64.ofNat (c + if negative then double.signBit else 0)).toNat =
      c + if negative then double.signBit else 0 :=
    UInt64.toNat_ofNat_of_lt' hword
  have hvalid : Format.binary64.Valid
      (UInt64.ofNat (c + if negative then double.signBit else 0)).toBitVec := by
    refine valid_of_code_le ?_
    rw [UInt64.toNat_toBitVec, hbits]
    exact Nat.le_trans (Nat.le_of_eq (BinaryFormat.add_sign_mod hc negative)) h
  rw [ofCode, toBits_ofBits hvalid, hbits]

theorem code_ofCode {c : Nat} (h : c ≤ double.infinity) (negative : Bool) :
    code (ofCode negative c) = c := by
  rw [code, toBits_ofCode h]
  exact BinaryFormat.add_sign_mod (Nat.lt_of_le_of_lt h double.infinity_lt_signBit) negative

theorem isNegative_ofCode {c : Nat} (h : c ≤ double.infinity) (negative : Bool) :
    isNegative (ofCode negative c) = negative := by
  rw [isNegative, toBits_ofCode h]
  exact BinaryFormat.signBit_le_add_sign (Nat.lt_of_le_of_lt h double.infinity_lt_signBit) negative

end Double

/-! ## There and back -/

section

open BinaryFormat (single double)

theorem unitRatio_pos : 0 < unitRatio := by
  rw [unitRatio_eq]
  exact Nat.two_pow_pos _

/-- **A finite 32-bit number comes back from the equal 64-bit one** with every bit of it, so with
    the sign of a zero too. -/
theorem narrow_widen {x : Float32} (h : Single.isFinite x) : narrow (widen x) = x := by
  have hfinite : Single.code x < single.infinity := by simpa [Single.isFinite] using h
  obtain ⟨wide, hunits, hwide⟩ := exists_double_units hfinite
  have hnearest : double.nearest (single.units (Single.code x) * unitRatio) 1 = wide := by
    have hown := double.nearest_units wide Nat.one_pos
    rwa [Nat.mul_one, hunits, Nat.min_eq_left hwide.le] at hown
  have hback : single.nearest (double.units wide) unitRatio = Single.code x := by
    rw [hunits, single.nearest_units _ unitRatio_pos, Nat.min_eq_left hfinite.le]
  rw [widen, hnearest, narrow, Double.code_ofCode hwide.le, Double.isNegative_ofCode hwide.le, hback]
  exact Single.ofCode_code x

/-- A number that was rounded to a code is finite when the code is. -/
theorem Single.isFinite_ofCode_nearest (negative : Bool) {num den : Nat} (hd : 0 < den) :
    Single.isFinite (Single.ofCode negative (single.nearest num den)) ↔
      num < single.overflow * den := by
  rw [Single.isFinite, decide_eq_true_iff, Single.code_ofCode (single.nearest_le_infinity num den)]
  exact BinaryFormat.nearest_lt_infinity_iff (by decide) (by decide) hd

/-- What is out of range of the 32-bit format becomes infinite. -/
theorem isFinite_narrow (x : Float) :
    Single.isFinite (narrow x) ↔ double.units (Double.code x) < single.overflow * unitRatio :=
  Single.isFinite_ofCode_nearest _ unitRatio_pos

theorem Single.isFinite_ofInt (n : Int) :
    Single.isFinite (Single.ofInt n) ↔ n.natAbs * 2 ^ single.unitExponent < single.overflow := by
  rw [Single.ofInt, Single.isFinite_ofCode_nearest _ Nat.one_pos, Nat.mul_one, Nat.pow_eq]

end

end EffectGraph
