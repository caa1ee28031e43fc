import Playout.Item.Desired

/-!
# The desired state

What a target asks for, and what it asks for of a picture that has its resolution already.

* `Target.desired_eq_ok_iff`: a valid target gets its frame.
* `Scaling.sizes_self_iff`: a picture of the target's resolution keeps its size if it is stretched,
  or if its width is even; fitting and covering make an odd width even.
-/

namespace Playout

/-! ## Even sides -/

theorem evenDown_toNat_iff {w : UInt32} (h : 0 < w.toNat) :
    evenDown w.toNat = w ↔ w.toNat % 2 = 0 := by
  have hlt := w.toNat_lt
  have hval : (evenDown w.toNat).toNat = max (w.toNat - w.toNat % 2) 2 := by
    rw [evenDown, UInt32.toNat_ofNat']
    exact Nat.mod_eq_of_lt (by omega)
  rw [← UInt32.toNat_inj, hval]
  omega

theorem evenUp_toNat_iff {w : UInt32} : evenUp w.toNat = w ↔ w.toNat % 2 = 0 := by
  have hlt := w.toNat_lt
  rw [← UInt32.toNat_inj, evenUp, UInt32.toNat_ofNat']
  omega

namespace Size

variable {s : Size}

theorem fitWithin_self (h : s.isEmpty = false) :
    s.fitWithin s = ⟨evenDown s.width.toNat, s.height⟩ := by
  obtain ⟨-, hh⟩ := isEmpty_eq_false_iff.mp h
  unfold fitWithin
  dsimp only
  rw [if_pos (Nat.le_refl _), Nat.mul_div_cancel _ hh]

theorem cover_self (h : s.isEmpty = false) :
    s.cover s = ⟨evenUp s.width.toNat, s.height⟩ := by
  obtain ⟨-, hh⟩ := isEmpty_eq_false_iff.mp h
  have hceil : (s.width.toNat * s.height.toNat + s.height.toNat - 1) / s.height.toNat =
      s.width.toNat := by
    have hsucc : (s.width.toNat + 1) * s.height.toNat =
        s.width.toNat * s.height.toNat + s.height.toNat := Nat.succ_mul _ _
    exact Nat.div_eq_of_lt_le (by omega) (by omega)
  unfold cover
  dsimp only
  rw [if_pos (Nat.le_refl _), hceil]

theorem eq_iff_width {w : UInt32} : (⟨w, s.height⟩ : Size) = s ↔ w = s.width := by
  obtain ⟨width, height⟩ := s
  simp

end Size

/-! ## Sizes of a picture that has the resolution -/

theorem Scaling.sizes_self_iff {r : Size} (h : r.isEmpty = false) (s : Scaling) :
    (s.sizes r r).1 = r ↔ s = .stretch ∨ r.width.toNat % 2 = 0 := by
  obtain ⟨hw, -⟩ := Size.isEmpty_eq_false_iff.mp h
  unfold sizes
  rw [h, if_neg (by decide)]
  cases s with
  | scaleAndPad =>
    dsimp only
    rw [Size.fitWithin_self h, Size.eq_iff_width, evenDown_toNat_iff hw]
    simp
  | stretch => simp
  | crop =>
    dsimp only
    rw [Size.cover_self h, Size.eq_iff_width, evenUp_toNat_iff]
    simp

theorem Scaling.sizes_cut (s : Scaling) (picture resolution : Size) :
    (s.sizes picture resolution).2.getD resolution = resolution := by
  unfold sizes
  split
  · rfl
  · cases s <;> rfl

/-! ## Valid targets -/

theorem VideoStream.squareSize_of_square {stream : VideoStream} (h : stream.isAnamorphic = false) :
    stream.squareSize = stream.frameSize := by
  unfold isAnamorphic at h
  unfold squareSize
  cases hr : stream.aspectRatio with
  | none => rfl
  | some r =>
    rw [hr] at h
    dsimp only at h ⊢
    rw [if_pos (by simpa using h)]

namespace Target

variable {t : Target} {stream : VideoStream} {settings : Settings} {d : Frame}

theorem desired_eq_ok_iff :
    t.desired stream settings = .ok d ↔ t.problem? = none ∧ d = t.frame stream settings := by
  unfold desired
  cases hp : t.problem? with
  | some p => simp
  | none => simp [eq_comm]

theorem isEmpty_resolution (h : t.problem? = none) : t.resolution.isEmpty = false := by
  unfold problem? at h
  cases hr : t.resolution.isEmpty with
  | false => rfl
  | true =>
    rw [hr, if_pos rfl] at h
    cases h

end Target

end Playout
