import Playout.Number.Binary64

/-!
# Magnitudes of binary64 numbers

The size of a number is read off its bits, and the sign is the first of them.  Both are those of the
number that the format stands for, by which numbers are compared.

* `Binary64.magnitude_eq`, `Binary64.isNegative_of_unpack`: size and sign of the unpacked number.
* `Binary64.isFinite_iff`, `Binary64.nonneg_iff`: the numbers that are finite, and those that are
  not below zero.
* `Binary64.mantissa_lt`: a mantissa has 53 bits.
-/

namespace Playout

open Float.Model Float.Model.UnpackedFloat

/-! ## Bits -/

section

variable (b : BitVec 64)

theorem toNat_unpackMantissa :
    (@unpackMantissa Format.binary64 b).toNat = b.toNat % 1 <<< 52 :=
  BitVec.extractLsb_toNat 51 0 b

theorem toNat_unpackExponent :
    (@unpackExponent Format.binary64 b).toNat = (b.toNat >>> 52) % 1 <<< 11 :=
  BitVec.extractLsb_toNat 62 52 b

theorem toNat_unpackSign :
    (@unpackSign Format.binary64 b).toNat = (b.toNat >>> 63) % 2 :=
  BitVec.extractLsb_toNat 63 63 b

end

def Magnitude.ofUnpacked : Float.Model.UnpackedFloat → Magnitude
  | .infinity _ => .infinite
  | .notANumber => .notANumber
  | .zero _ => .finite 0 (-1074)
  | .finite _ m e _ => .finite m e

/-- The first bit of a mantissa is not stored. -/
theorem toNat_append_one (m : BitVec 52) : (1#1 ++ m).toNat = 1 <<< 52 + m.toNat := by
  rw [BitVec.toNat_append, ← Nat.shiftLeft_add_eq_or_of_lt m.isLt]
  rfl

/-- **The bits of a number tell its size.** -/
theorem Magnitude.ofBits_eq (b : BitVec 64) :
    ofBits b.toNat = ofUnpacked (UnpackedFloat.unpack Format.binary64 b) := by
  delta ofBits UnpackedFloat.unpack
  dsimp only
  rw [← toNat_unpackMantissa, ← toNat_unpackExponent]
  have hlast : (@unpackExponent Format.binary64 b).toNat = 0x7ff ↔
      @unpackExponent Format.binary64 b = -1#_ := by
    rw [← BitVec.toNat_inj]
    rfl
  have hzero : (@unpackExponent Format.binary64 b).toNat = 0 ↔
      @unpackExponent Format.binary64 b = 0#_ := by
    rw [← BitVec.toNat_inj]
    rfl
  have hnone : (@unpackMantissa Format.binary64 b).toNat = 0 ↔
      @unpackMantissa Format.binary64 b = 0#_ := by
    rw [← BitVec.toNat_inj]
    rfl
  by_cases h : @unpackExponent Format.binary64 b = -1#_
  · rw [if_pos (hlast.mpr h), if_pos h]
    by_cases hm : @unpackMantissa Format.binary64 b = 0#_
    · rw [if_pos (hnone.mpr hm), if_pos hm]
      rfl
    · rw [if_neg (mt hnone.mp hm), if_neg hm]
      rfl
  · rw [if_neg (mt hlast.mp h), if_neg h]
    by_cases hsub : @unpackExponent Format.binary64 b = 0#_
    · rw [if_pos (hzero.mpr hsub), if_pos hsub]
      by_cases hm : @unpackMantissa Format.binary64 b = 0#_
      · rw [dif_pos hm, hnone.mpr hm]
        rfl
      · rw [dif_neg hm, hzero.mpr hsub]
        rfl
    · rw [if_neg (mt hzero.mp hsub), if_neg hsub, ← toNat_append_one]
      rfl

namespace Binary64

variable {x : Float} {s : Sign} {m : Nat} {e : Int}

theorem magnitude_eq (x : Float) : magnitude x = .ofUnpacked x.toModel.unpack :=
  Magnitude.ofBits_eq x.toModel.toBits.toBitVec

/-- **Finite numbers** are those with a mantissa and an exponent. -/
theorem isFinite_iff : x.isFinite = true ↔ ∃ m e, magnitude x = .finite m e := by
  have hfinite : x.isFinite = x.toModel.unpack.isFinite := rfl
  rw [hfinite, magnitude_eq]
  cases x.toModel.unpack with
  | infinity s | notANumber =>
    refine iff_of_false Bool.false_ne_true ?_
    rintro ⟨m, e, h⟩
    cases h
  | zero s => exact iff_of_true rfl ⟨0, -1074, rfl⟩
  | finite s m e hm => exact iff_of_true rfl ⟨m, e, rfl⟩

theorem isNegative_of_unpack {hm : 0 < m} (h : x.toModel.unpack = .finite s m e hm) :
    isNegative x = true ↔ s = .negative := by
  have hs : Sign.ofBitVec (@unpackSign Format.binary64 x.toModel.toBits.toBitVec) = s := by
    delta Float.Model.unpack UnpackedFloat.unpack at h
    dsimp only at h
    by_cases hlast : @unpackExponent Format.binary64 x.toModel.toBits.toBitVec = -1#_
    · rw [if_pos hlast] at h
      by_cases hm : @unpackMantissa Format.binary64 x.toModel.toBits.toBitVec = 0#_
      · rw [if_pos hm] at h
        cases h
      · rw [if_neg hm] at h
        cases h
    · rw [if_neg hlast] at h
      by_cases hzero : @unpackExponent Format.binary64 x.toModel.toBits.toBitVec = 0#_
      · rw [if_pos hzero] at h
        by_cases hm : @unpackMantissa Format.binary64 x.toModel.toBits.toBitVec = 0#_
        · rw [dif_pos hm] at h
          cases h
        · rw [dif_neg hm] at h
          exact (UnpackedFloat.finite.inj h).1
      · rw [if_neg hzero] at h
        exact (UnpackedFloat.finite.inj h).1
  have hbit : (x.toBits.toNat >>> 63) % 2 =
      (@unpackSign Format.binary64 x.toModel.toBits.toBitVec).toNat :=
    (toNat_unpackSign _).symm
  rw [isNegative, hbit, ← hs, beq_iff_eq]
  rcases BitVec.eq_zero_or_eq_one
    (@unpackSign Format.binary64 x.toModel.toBits.toBitVec) with hb | hb
  · rw [hb]
    refine iff_of_false (by decide) fun h => ?_
    cases h
  · rw [hb]
    exact iff_of_true rfl rfl

/-- A finite number is from zero on if it is zero or has no sign. -/
theorem nonneg_iff (h : magnitude x = .finite m e) :
    0 ≤ x ↔ m = 0 ∨ isNegative x = false := by
  have hle : 0 ≤ x ↔ (UnpackedFloat.zero .positive).le x.toModel.unpack = true := by
    show (decide (_ = true)) = true ↔ _
    rw [decide_eq_true_eq]
    rfl
  rw [magnitude_eq] at h
  rw [hle]
  cases hx : x.toModel.unpack with
  | infinity s | notANumber =>
    rw [hx] at h
    cases h
  | zero s =>
    rw [hx] at h
    cases h
    exact iff_of_true rfl (.inl rfl)
  | finite s n k hn =>
    rw [hx] at h
    cases h
    have hsign := isNegative_of_unpack hx
    cases s with
    | negative =>
      refine iff_of_false Bool.false_ne_true ?_
      rintro (rfl | hpos)
      · exact absurd hn (by decide)
      · rw [hsign.mpr rfl] at hpos
        cases hpos
    | positive =>
      refine iff_of_true rfl (.inr ?_)
      rw [Bool.eq_false_iff]
      intro hneg
      cases hsign.mp hneg

theorem mantissa_lt (h : magnitude x = .finite m e) : m < 1 <<< 53 := by
  have hlt : x.toBits.toNat % 1 <<< 52 < 1 <<< 52 := Nat.mod_lt _ (by decide)
  unfold magnitude Magnitude.ofBits at h
  dsimp only at h
  split at h
  · split at h <;> cases h
  · split at h
    · cases h
      omega
    · cases h
      omega

end Binary64

end Playout
