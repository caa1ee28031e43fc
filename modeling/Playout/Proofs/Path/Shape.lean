import Playout.Proofs.Path.Task

/-!
# The shape at the end of the main path

Sizes, and the work that frames still need, along the stages.

* `PathPlan.done_stages`, `PathPlan.shape_advanceAll`: under the layers and at the end nothing is
  left to be done, and the sizes are the desired ones.
* `PathPlan.countP_deinterlaces`: frames that were not deinterlaced are so by one filter.
-/

namespace Playout

open Transfer VideoFilter

def VideoFilter.deinterlaces : VideoFilter → Bool
  | work _ _ .deinterlace => true
  | _ => false

theorem VideoFilter.deinterlaces_eq_false {v : VideoFilter} (h : v.task ≠ .deinterlace) :
    v.deinterlaces = false := by
  cases v with
  | work b lead w =>
    cases w with
    | deinterlace => exact absurd rfl h
    | _ => rfl
  | move t => rfl

namespace PathPlan

open Stage

/-- What the stages rely on: decoding deinterlaced only frames that are to be, and the frames have
no padding. -/
structure Fresh (p : PathPlan) (f : Frame) : Prop where
  deinterlaced : f.deinterlaced = true → p.desired.deinterlaced = true
  paddedSize : f.paddedSize = f.scaledSize
  hdr : p.desired.hdr = false
  croppedSize : ∀ s, p.desired.croppedSize = some s → s = p.desired.paddedSize

structure Done (p : PathPlan) (f : Frame) : Prop where
  deinterlaced : f.deinterlaced = p.desired.deinterlaced
  paddedSize : f.paddedSize = p.desired.paddedSize
  scaledSize : f.scaledSize =
    if p.desired.croppedSize.isSome then p.desired.paddedSize else p.desired.scaledSize
  anamorphic : f.anamorphic = false
  hdr : f.hdr = false

variable {p : PathPlan} {f : Frame}

theorem Done.of_carried {g : Frame} (h : p.Done f) (hg : Carried f g) : p.Done g :=
  ⟨hg.deinterlaced.trans h.deinterlaced, hg.paddedSize.trans h.paddedSize,
    hg.scaledSize.trans h.scaledSize, hg.anamorphic.trans h.anamorphic, hg.hdr.trans h.hdr⟩

/-! ## One stage after the other -/

theorem shape_deinterlace (h : p.Fresh f) :
    p.Fresh (advance p.deinterlace? f) ∧
      (advance p.deinterlace? f).deinterlaced = p.desired.deinterlaced := by
  rw [advance_deinterlace]
  split
  · next hd =>
    rw [Bool.and_eq_true] at hd
    exact ⟨⟨fun _ => hd.1, by simpa using h.paddedSize, h.hdr, h.croppedSize⟩, hd.1.symm⟩
  · next hd =>
    refine ⟨h, ?_⟩
    cases hf : f.deinterlaced with
    | true => exact (h.deinterlaced hf).symm
    | false =>
      rw [hf, Bool.not_false, Bool.and_true, Bool.not_eq_true] at hd
      exact hd.symm

theorem shape_tonemap (h : p.Fresh f) :
    p.Fresh (advance p.tonemap? f) ∧ (advance p.tonemap? f).hdr = false ∧
      (advance p.tonemap? f).deinterlaced = f.deinterlaced := by
  rw [advance_tonemap]
  split
  · refine ⟨⟨?_, ?_, h.hdr, h.croppedSize⟩, rfl, ?_⟩
    · simpa using h.deinterlaced
    · simpa using h.paddedSize
    · simp
  · next hh =>
    rw [h.hdr, Bool.not_false, Bool.and_true, Bool.not_eq_true] at hh
    exact ⟨h, hh, rfl⟩

theorem shape_scale (h : p.Fresh f) :
    (advance p.scale? f).scaledSize = p.desired.scaledSize ∧
      (advance p.scale? f).paddedSize = p.desired.scaledSize ∧
      (advance p.scale? f).anamorphic = false ∧
      (advance p.scale? f).deinterlaced = f.deinterlaced ∧
      (advance p.scale? f).hdr = f.hdr := by
  by_cases hr : p.Rescales f
  · rw [advance_scale_of_rescales hr]
    exact ⟨rfl, rfl, rfl, by simp, by simp⟩
  · have hn : f.scaledSize = p.desired.scaledSize ∧ f.anamorphic = false := by
      simpa [Rescales] using hr
    obtain ⟨hs, ha⟩ := hn
    have hp := h.paddedSize.trans hs
    rw [advance_scale_of_not_rescales hr]
    split
    · split
      · exact ⟨hs, hp, ha, rfl, rfl⟩
      · exact ⟨hs, hp, ha, rfl, rfl⟩
    · exact ⟨hs, hp, ha, rfl, rfl⟩

theorem shape_frame (hc : ∀ s, p.desired.croppedSize = some s → s = p.desired.paddedSize)
    (hs : f.scaledSize = p.desired.scaledSize) (hp : f.paddedSize = p.desired.scaledSize)
    (ha : f.anamorphic = false) (hd : f.deinterlaced = p.desired.deinterlaced)
    (hh : f.hdr = false) : p.Done (advance p.frame? f) := by
  rw [advance_frame]
  split
  · next c hcrop =>
    have hcp := hc c hcrop
    have hsome : p.desired.croppedSize.isSome = true := by rw [hcrop]; rfl
    split
    · refine ⟨by simpa using hd, hcp, ?_, by simpa using ha, by simpa using hh⟩
      rw [if_pos hsome]
      exact hcp
    · next hne =>
      -- the picture has the size of the cut already
      have heq : f.paddedSize = c := Decidable.not_not.mp hne
      refine ⟨hd, heq.trans hcp, ?_, ha, hh⟩
      rw [if_pos hsome, hs, ← hp, heq, hcp]
  · next hcrop =>
    have hnone : ¬p.desired.croppedSize.isSome = true := by rw [hcrop]; decide
    split
    · refine ⟨by simpa using hd, rfl, ?_, by simpa using ha, by simpa using hh⟩
      rw [if_neg hnone]
      simpa using hs
    · next hne =>
      refine ⟨hd, Decidable.not_not.mp hne, ?_, ha, hh⟩
      rw [if_neg hnone]
      exact hs

/-! ## The whole path -/

/-- The frames that the layers are laid over need no more work. -/
theorem done_stages (h : p.Fresh f) : p.Done (advanceAll p.stages f) := by
  obtain ⟨h₁, hd₁⟩ := shape_deinterlace h
  obtain ⟨h₂, hh₂, hd₂⟩ := shape_tonemap h₁
  obtain ⟨hs₃, hp₃, ha₃, hd₃, hh₃⟩ := shape_scale h₂
  have h₄ := shape_frame h₂.croppedSize hs₃ hp₃ ha₃ (hd₃.trans (hd₂.trans hd₁))
    (hh₃.trans hh₂)
  have h₅ := h₄.of_carried (carried_toEncoder p _)
  have h₆ := h₅.of_carried (carried_toOverlays p _)
  exact h₆.of_carried (carried_subtitles p _)

/-- **At the end of the path nothing is left to be done.** -/
theorem shape_advanceAll (h : p.Fresh f) : p.Done (advanceAll p.wholeStages f) :=
  (done_stages h).of_carried (carried_finalUpload _ p.backend p.encoder)

theorem deinterlaces_of_mem_tail {s : Stage} (hs : s ∈ p.wholeStages.tail) (f : Frame)
    (v : VideoFilter) (hv : s f = some v) : v.deinterlaces = false :=
  deinterlaces_eq_false (task_ne (List.drop_subset 1 p.stageTasks) (by simp [stageTasks]) hs hv)

/-- **One filter deinterlaces what the decoder did not.** -/
theorem countP_deinterlaces (p : PathPlan) (f : Frame) :
    (emitted p.wholeStages f).countP deinterlaces =
      (p.desired.deinterlaced && !f.deinterlaced).toNat := by
  have hsplit : p.wholeStages = p.deinterlace? :: p.wholeStages.tail := rfl
  have htail : ∀ g, (emitted p.wholeStages.tail g).countP deinterlaces = 0 := by
    intro g
    refine List.countP_eq_zero.mpr ?_
    intro v hv
    rw [forall_mem_emitted (P := fun v => v.deinterlaces = false)
      (fun s hs => deinterlaces_of_mem_tail hs) g v hv]
    decide
  rw [hsplit, emitted, List.countP_append, htail, Nat.add_zero, deinterlace?]
  cases p.desired.deinterlaced && !f.deinterlaced <;> rfl

end PathPlan

end Playout
