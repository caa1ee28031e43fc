import Playout.Proofs.Item.Desired

/-!
# Sizes that fit

A picture is scaled to a size within the resolution and padded, or to a size around it and cut.
Both go wrong at the ends of the numbers: a computed side has at least two pixels, also where the
resolution has one, and a computed side that exceeds 32 bits is kept at its remainder.

* `Size.fitWithin_within_iff`, `Size.within_cover_iff`: when a fitted size lies within the
  resolution, and when a covering size lies around it.
* `Scaling.Misfits`: how the size of a scaled picture fails to suit the resolution;
  `Scaling.suits_iff`: it fails in no other way.
* `Scaling.not_misfits_of_short`: with sides of 16 bits, and two pixels at least, it never fails.
-/

namespace Playout

theorem toNat_evenDown {n : Nat} (h : n < UInt32.size) :
    (evenDown n).toNat = max (n - n % 2) 2 := by
  rw [evenDown, UInt32.toNat_ofNat']
  exact Nat.mod_eq_of_lt (Nat.max_lt.mpr ⟨Nat.lt_of_le_of_lt (Nat.sub_le n _) h, by decide⟩)

theorem toNat_evenUp (n : Nat) : (evenUp n).toNat = (n + n % 2) % UInt32.size :=
  UInt32.toNat_ofNat'

/-- A side of `n` pixels that is made even exceeds 32 bits, and what is left of it does not cover
the side it was computed to cover. -/
def Wraps (n : Nat) (side : UInt32) : Prop := (n + n % 2) % UInt32.size < side.toNat

instance (n : Nat) (side : UInt32) : Decidable (Wraps n side) := inferInstanceAs (Decidable (_ < _))

/-- A side that covers another does not wrap unless it is too long for 32 bits. -/
theorem not_wraps {n : Nat} {side : UInt32} (hn : side.toNat ≤ n)
    (hlt : n + n % 2 < UInt32.size) : ¬Wraps n side := by
  rw [Wraps, Nat.mod_eq_of_lt hlt]
  omega

/-- A product of two sides of 16 bits does not wrap, and still less does a quotient of it. -/
theorem not_wraps_of_short {a b d : Nat} {side : UInt32} (ha : a < 65536) (hb : b < 65536)
    (hd : 0 < d) (h : side.toNat * d ≤ a * b) : ¬Wraps ((a * b + d - 1) / d) side := by
  have hprod : a * b ≤ 65535 * 65535 := Nat.mul_le_mul (by omega) (by omega)
  have hquot : (a * b + d - 1) / d < a * b + 1 := by
    have hle : a * b ≤ a * b * d := Nat.le_mul_of_pos_right _ hd
    have hsucc : (a * b + 1) * d = a * b * d + d := Nat.succ_mul _ _
    rw [Nat.div_lt_iff_lt_mul hd]
    omega
  have hsize : UInt32.size = 4294967296 := rfl
  exact not_wraps ((Nat.le_div_iff_mul_le hd).mpr (by omega)) (by omega)

namespace Size

def Within (s t : Size) : Prop := s.width ≤ t.width ∧ s.height ≤ t.height

instance (s t : Size) : Decidable (s.Within t) := inferInstanceAs (Decidable (_ ∧ _))

theorem Within.refl (s : Size) : s.Within s := ⟨UInt32.le_refl _, UInt32.le_refl _⟩

theorem within_iff {s t : Size} :
    s.Within t ↔ s.width.toNat ≤ t.width.toNat ∧ s.height.toNat ≤ t.height.toNat := by
  rw [Within, UInt32.le_iff_toNat_le, UInt32.le_iff_toNat_le]

variable {s t : Size}

/-- A fitted size lies within the target if the side that is computed may have two pixels. -/
theorem fitWithin_within_iff (hs : s.isEmpty = false) :
    (s.fitWithin t).Within t ↔
      if s.width.toNat * t.height.toNat ≤ t.width.toNat * s.height.toNat then 2 ≤ t.width.toNat
      else 2 ≤ t.height.toNat := by
  obtain ⟨hw, hh⟩ := isEmpty_eq_false_iff.mp hs
  rw [within_iff, fitWithin]
  split
  · next hle =>
    have hq : s.width.toNat * t.height.toNat / s.height.toNat ≤ t.width.toNat :=
      Nat.div_le_of_le_mul (by rwa [Nat.mul_comm s.height.toNat])
    have hlt := t.width.toNat_lt
    rw [and_iff_left (Nat.le_refl _), toNat_evenDown (Nat.lt_of_le_of_lt hq hlt)]
    omega
  · next hgt =>
    have hq : s.height.toNat * t.width.toNat / s.width.toNat ≤ t.height.toNat :=
      Nat.div_le_of_le_mul (by rw [Nat.mul_comm s.height.toNat]; omega)
    have hlt := t.height.toNat_lt
    rw [and_iff_right (Nat.le_refl _), toNat_evenDown (Nat.lt_of_le_of_lt hq hlt)]
    omega

theorem within_cover_iff :
    t.Within (s.cover t) ↔
      if t.width.toNat * s.height.toNat ≤ s.width.toNat * t.height.toNat then
        ¬Wraps ((s.width.toNat * t.height.toNat + s.height.toNat - 1) / s.height.toNat) t.width
      else
        ¬Wraps ((s.height.toNat * t.width.toNat + s.width.toNat - 1) / s.width.toNat) t.height := by
  rw [within_iff, cover]
  split
  · rw [and_iff_left (Nat.le_refl _), toNat_evenUp, Wraps, Nat.not_lt]
  · rw [and_iff_right (Nat.le_refl _), toNat_evenUp, Wraps, Nat.not_lt]

end Size

/-- Where a scaled picture is cut it lies around the cut, and where it is padded it lies within the
resolution. -/
def SizesSuit (scaled : Size) (cut : Option Size) (resolution : Size) : Prop :=
  match cut with
  | some cut => cut.Within scaled
  | none => scaled.Within resolution

namespace Scaling

variable {picture resolution : Size}

/-- The side that is computed has one pixel in the resolution and is given two, or it is kept at a
remainder that does not cover the resolution. -/
def Misfits (s : Scaling) (picture resolution : Size) : Prop :=
  picture.isEmpty = false ∧
    match s with
    | .scaleAndPad =>
      if picture.width.toNat * resolution.height.toNat ≤
          resolution.width.toNat * picture.height.toNat then
        resolution.width = 1
      else resolution.height = 1
    | .stretch => False
    | .crop =>
      if resolution.width.toNat * picture.height.toNat ≤
          picture.width.toNat * resolution.height.toNat then
        Wraps ((picture.width.toNat * resolution.height.toNat + picture.height.toNat - 1) /
          picture.height.toNat) resolution.width
      else
        Wraps ((picture.height.toNat * resolution.width.toNat + picture.width.toNat - 1) /
          picture.width.toNat) resolution.height

instance : (s : Scaling) → (p r : Size) → Decidable (s.Misfits p r)
  | .scaleAndPad, _, _ => inferInstanceAs (Decidable (_ ∧ ite _ _ _))
  | .stretch, _, _ => inferInstanceAs (Decidable (_ ∧ False))
  | .crop, _, _ => inferInstanceAs (Decidable (_ ∧ ite _ _ _))

theorem two_le_iff {w : UInt32} (h : 0 < w.toNat) : 2 ≤ w.toNat ↔ ¬w = 1 := by
  have h1 : (1 : UInt32).toNat = 1 := rfl
  rw [← UInt32.toNat_inj, h1]
  omega

/-- **A scaled picture suits the resolution unless it misfits.** -/
theorem suits_iff (s : Scaling) (picture : Size) (h : resolution.isEmpty = false) :
    SizesSuit (s.sizes picture resolution).1 (s.sizes picture resolution).2 resolution ↔
      ¬s.Misfits picture resolution := by
  obtain ⟨hw, hh⟩ := Size.isEmpty_eq_false_iff.mp h
  unfold SizesSuit Misfits sizes
  cases hp : picture.isEmpty with
  | true =>
    rw [if_pos rfl]
    exact iff_of_true (Size.Within.refl _) fun hm => nomatch hm.1
  | false =>
    rw [if_neg (by decide), eq_self, true_and]
    cases s with
    | scaleAndPad =>
      dsimp only
      rw [Size.fitWithin_within_iff hp]
      split
      · exact two_le_iff hw
      · exact two_le_iff hh
    | stretch => exact iff_of_true (Size.Within.refl _) not_false
    | crop =>
      dsimp only
      rw [Size.within_cover_iff]
      split
      · rfl
      · rfl

/-- **Sides of 16 bits suit any resolution of two pixels or more each way.** -/
theorem not_misfits_of_short (s : Scaling) (hpw : picture.width.toNat < 65536)
    (hph : picture.height.toNat < 65536) (hrw : 2 ≤ resolution.width.toNat)
    (hrw' : resolution.width.toNat < 65536) (hrh : 2 ≤ resolution.height.toNat)
    (hrh' : resolution.height.toNat < 65536) : ¬s.Misfits picture resolution := by
  rintro ⟨hp, h⟩
  obtain ⟨hw, hh⟩ := Size.isEmpty_eq_false_iff.mp hp
  cases s with
  | scaleAndPad =>
    dsimp only at h
    split at h
    · exact (two_le_iff (by omega)).mp hrw h
    · exact (two_le_iff (by omega)).mp hrh h
  | stretch => exact h
  | crop =>
    dsimp only at h
    split at h
    · next hle => exact not_wraps_of_short hpw hrh' hh hle h
    · next hgt =>
      exact not_wraps_of_short hph hrw' hw
        (by rw [Nat.mul_comm, Nat.mul_comm picture.height.toNat]; omega) h

end Scaling

end Playout
