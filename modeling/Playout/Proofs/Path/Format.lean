import Playout.Proofs.Path.Memory

/-!
# The format an accelerator's encoder gets

An encoder that takes frames from an accelerator takes them in one format, and the last filter to
touch the surfaces leaves them in it, but for one way: frames of another depth that are moved up
by the padding alone.

* `Settled`: surfaces, if the frames lie there, carry the encoder's format.
* `rising_cases`, `frame_cases`, `falling_cases`: what the parts of the path leave.
* `hasWire_advanceAll_iff`: the format at the end of the path.
-/

namespace Playout

open Transfer VideoFilter

namespace PixelFormat

theorem semiPlanar_semiPlanar (p : PixelFormat) : p.semiPlanar.semiPlanar = p.semiPlanar := by
  have h : p.semiPlanar.isTenBit = p.isTenBit := by
    rw [isTenBit, bitDepth_semiPlanar, isTenBit]
  rw [semiPlanar, h]
  rfl

theorem bitDepth_cases (p : PixelFormat) : p.bitDepth = 8 ∨ p.bitDepth = 10 := by
  obtain ⟨name, wire⟩ := p
  cases name <;> cases wire <;> decide

/-- Semi-planar formats travel alike if they have one depth. -/
theorem sameWire_semiPlanar_iff (p q : PixelFormat) :
    p.semiPlanar.sameWire q.semiPlanar = true ↔ p.bitDepth = q.bitDepth := by
  show ((if p.bitDepth == 10 then PixelLayout.p010le else .nv12) ==
    (if q.bitDepth == 10 then PixelLayout.p010le else .nv12)) = true ↔ _
  rcases p.bitDepth_cases with hp | hp <;> rcases q.bitDepth_cases with hq | hq <;>
    rw [hp, hq] <;> decide

theorem sameWire_self (p : PixelFormat) : p.sameWire p = true := by
  rw [sameWire, beq_self_eq_true]

end PixelFormat

theorem Frame.hasWire_eq {f : Frame} {p : PixelFormat} (h : f.pixelFormat = some p)
    (q : PixelFormat) : f.hasWire q = p.sameWire q := by
  rw [hasWire, h]

theorem Frame.hasWire_of_eq {f : Frame} {q : PixelFormat} (h : f.pixelFormat = some q) :
    f.hasWire q = true := by
  rw [hasWire_eq h, PixelFormat.sameWire_self]

theorem Frame.hasWire_congr {f g : Frame} (h : f.pixelFormat = g.pixelFormat) (q : PixelFormat) :
    f.hasWire q = g.hasWire q := by
  rw [hasWire, hasWire, h]

theorem Frame.bitDepth_eq_getD (f : Frame) :
    f.bitDepth = (f.pixelFormat.getD .yuv420p).bitDepth := by
  unfold bitDepth
  cases f.pixelFormat <;> rfl

namespace PathPlan

open Stage

/-- Frames on an accelerator carry the format `q`. -/
def Settled (q : PixelFormat) (f : Frame) : Prop := f.memory = .hardware → f.hasWire q = true

theorem Settled.of_software {q : PixelFormat} {f : Frame} (h : f.memory = .software) :
    Settled q f := by
  intro hf
  rw [h] at hf
  cases hf

/-- Frames in host memory, of another depth than the encoder's, that need no filter but the
padding of an accelerator, and are not brought back from there. -/
structure PadsOtherDepth (p : PathPlan) (q : PixelFormat) (f : Frame) : Prop where
  backend : p.backend = .vaapi
  memory : f.memory = .software
  deinterlaced : ¬(p.desired.deinterlaced && !f.deinterlaced) = true
  hdr : ¬(f.hdr && !p.desired.hdr) = true
  rescales : ¬p.Rescales f
  croppedSize : p.desired.croppedSize = none
  paddedSize : f.paddedSize ≠ p.desired.paddedSize
  overlays : ¬p.overlaysInSoftware f = true
  depth : f.bitDepth ≠ q.bitDepth

variable {p : PathPlan} {q : PixelFormat} {f : Frame}

/-! ## Before the padding -/

theorem settled_scale (hq : p.encoder.surfaceFormat? = some q)
    (hb : p.backend.isHardware = true) (f : Frame) : Settled q (advance p.scale? f) := by
  intro hm
  by_cases hr : p.Rescales f
  · rw [advance_scale_of_rescales hr]
    apply Frame.hasWire_of_eq
    show (p.scaledFormat?.or _) = some q
    rw [scaledFormat?, if_pos hb, hq]
    rfl
  · rw [advance_scale_of_not_rescales hr, hq] at hm ⊢
    dsimp only at hm ⊢
    split
    · exact Frame.hasWire_of_eq rfl
    · next hc =>
      rw [if_neg hc] at hm
      rw [hb, Frame.isHardware_iff.mpr hm] at hc
      simpa using hc

/-- The first stages pass on frames in host memory that need none of them. -/
theorem rising_eq_self (hm : f.memory = .software)
    (hd : ¬(p.desired.deinterlaced && !f.deinterlaced) = true)
    (hh : ¬(f.hdr && !p.desired.hdr) = true) (hr : ¬p.Rescales f) :
    advanceAll p.rising f = f := by
  have h₁ : advance p.deinterlace? f = f := by rw [advance_deinterlace, if_neg hd]
  have h₂ : advance p.tonemap? f = f := by rw [advance_tonemap, if_neg hh]
  show advance p.scale? (advance p.tonemap? (advance p.deinterlace? f)) = f
  rw [h₁, h₂, advance_scale_of_not_rescales hr, Frame.isHardware_eq_false_iff.mpr hm]
  split <;> simp

/-- They bring all other frames to the accelerator. -/
theorem rising_cases (hb : p.backend.isHardware = true) (f : Frame) :
    (advanceAll p.rising f).memory = .hardware ∨
      f.memory = .software ∧ ¬(p.desired.deinterlaced && !f.deinterlaced) = true ∧
        ¬(f.hdr && !p.desired.hdr) = true ∧ ¬p.Rescales f := by
  have hmem := Backend.memory_eq_hardware_iff.mpr hb
  have hrise := p.toward_rising
  rw [hmem] at hrise
  -- the stages after one that brought the frames there leave them there
  have hstay : ∀ (stages : List Stage) {g : Frame}, (∀ s ∈ stages, s ∈ p.rising) →
      g.memory = p.backend.memory → (advanceAll stages g).memory = .hardware := by
    intro stages g hsub hg
    exact memory_advanceAll (fun s hs => hrise s (hsub s hs)) (hg.trans hmem)
  cases hm : f.memory with
  | hardware => exact .inl (memory_advanceAll hrise hm)
  | software =>
    by_cases hd : (p.desired.deinterlaced && !f.deinterlaced) = true
    · have h₁ : (advance p.deinterlace? f).memory = p.backend.memory := by
        rw [advance_deinterlace, if_pos hd]
        exact moved_memory _ _
      exact .inl (hstay [p.tonemap?, p.scale?]
        (fun s hs => List.mem_cons_of_mem _ hs) h₁)
    have h₁ : advance p.deinterlace? f = f := by rw [advance_deinterlace, if_neg hd]
    by_cases hh : (f.hdr && !p.desired.hdr) = true
    · have h₂ : (advance p.tonemap? (advance p.deinterlace? f)).memory = p.backend.memory := by
        rw [h₁, advance_tonemap, if_pos hh]
        exact moved_memory _ _
      exact .inl (hstay [p.scale?]
        (fun s hs => List.mem_cons_of_mem _ (List.mem_cons_of_mem _ hs)) h₂)
    have h₂ : advance p.tonemap? f = f := by rw [advance_tonemap, if_neg hh]
    by_cases hr : p.Rescales f
    · refine .inl ?_
      show (advance p.scale? (advance p.tonemap? (advance p.deinterlace? f))).memory = _
      rw [h₁, h₂, advance_scale_of_rescales hr]
      exact (moved_memory _ _).trans hmem
    · exact .inr ⟨rfl, hd, hh, hr⟩

/-! ## After the padding -/

/-- What follows the padding settles the frames for good. -/
theorem hasWire_after (hq : p.encoder.surfaceFormat? = some q) (hs : q.semiPlanar = q)
    (hb : p.backend.isHardware = true) (h : Settled q f) :
    (advance (finalUpload? p.backend p.encoder) f).hasWire q = true := by
  rw [advance_finalUpload, hq, hb]
  cases hf : f.isHardware with
  | true => exact h (Frame.isHardware_iff.mp hf)
  | false =>
    apply Frame.hasWire_of_eq
    show uploaded p.backend f.pixelFormat (some q) = some q
    cases hp : p.backend with
    | software =>
      rw [hp] at hb
      cases hb
    | cuda => rfl
    | qsv | vaapi => exact congrArg some hs

theorem advance_toEncoder_of_surface (hq : p.encoder.surfaceFormat? = some q) (f : Frame) :
    advance p.toEncoder? f = f := by
  obtain ⟨r, hr⟩ := p.advance_toEncoder f
  rw [hr, hq]
  simp

theorem falling_cases (hq : p.encoder.surfaceFormat? = some q) (f : Frame) :
    if p.overlaysInSoftware f then (advanceAll p.falling f).memory = .software
      else advanceAll p.falling f = f := by
  have hfall : advanceAll p.falling f = advance p.subtitles? (advance p.toOverlays? f) := by
    show advance p.subtitles? (advance p.toOverlays? (advance p.toEncoder? f)) = _
    rw [advance_toEncoder_of_surface hq]
  obtain ⟨r, hr⟩ := p.advance_toOverlays f
  rw [hfall]
  split
  · next ho =>
    have hm : (advance p.toOverlays? f).memory = .software := by
      rw [hr, ho]
      cases hf : f.isHardware with
      | true => rfl
      | false => exact Frame.isHardware_eq_false_iff.mp hf
    rcases p.toward_subtitles (advance p.toOverlays? f) with hs | hs
    · exact hs.trans hm
    · exact hs
  · next ho =>
    have hburned : ¬p.burned.isSome = true := by
      intro hbs
      exact ho (by rw [overlaysInSoftware, hbs]; rfl)
    rw [hr, if_neg (by simp [ho]), advance_subtitles, if_neg hburned]

theorem settled_falling (hq : p.encoder.surfaceFormat? = some q) (h : Settled q f) :
    Settled q (advanceAll p.falling f) := by
  have hc := falling_cases hq f
  split at hc
  · exact .of_software hc
  · rw [hc]
    exact h

/-! ## The padding -/

/-- The padding settles the frames, unless it moves them up in their own depth. -/
theorem frame_cases (hb : p.backend.isHardware = true) (h : Settled q f) :
    Settled q (advance p.frame? f) ∨
      p.backend = .vaapi ∧ f.memory = .software ∧ p.desired.croppedSize = none ∧
        f.paddedSize ≠ p.desired.paddedSize := by
  rw [advance_frame]
  split
  · split
    · exact .inl (.of_software (moved_memory_software _ _))
    · exact .inl h
  · next hcrop =>
    split
    · next hpad =>
      cases hv : p.backend with
      | software =>
        rw [hv] at hb
        cases hb
      | cuda | qsv => exact .inl (.of_software (moved_memory_software _ _))
      | vaapi =>
        cases hm : f.memory with
        | software => exact .inr ⟨rfl, rfl, hcrop, hpad⟩
        | hardware =>
          refine .inl fun _ => ?_
          show (moved .vaapi f .hardware).hasWire q = true
          rw [moved_self .vaapi hm]
          exact h hm
    · exact .inl h

theorem advance_frame_of_uploads (hv : p.backend = .vaapi) (hm : f.memory = .software)
    (hc : p.desired.croppedSize = none) (hp : f.paddedSize ≠ p.desired.paddedSize) :
    advance p.frame? f =
      { f with
        memory := .hardware
        pixelFormat := some (f.pixelFormat.getD .yuv420p).semiPlanar
        paddedSize := p.desired.paddedSize } := by
  rw [advance_frame, hc]
  dsimp only
  rw [if_pos hp, hv, show padBackend .vaapi = .vaapi from rfl,
    show Backend.vaapi.memory = .hardware from rfl, moved_up rfl hm]
  simp [uploaded, requestedBy]

/-- Whether layers are composited in host memory depends on the depth of the frames. -/
theorem overlaysInSoftware_congr {g : Frame} (h : g.bitDepth = f.bitDepth) :
    p.overlaysInSoftware g = p.overlaysInSoftware f := by
  rw [overlaysInSoftware, overlaysInSoftware, h]

/-- Frames that only the padding moves up end as it leaves them. -/
theorem hasWire_of_uploads (hq : p.encoder.surfaceFormat? = some q) (hs : q.semiPlanar = q)
    (hb : p.backend.isHardware = true) (hv : p.backend = .vaapi) (hm : f.memory = .software)
    (hc : p.desired.croppedSize = none) (hp : f.paddedSize ≠ p.desired.paddedSize) :
    (advance (finalUpload? p.backend p.encoder)
        (advanceAll p.falling (advance p.frame? f))).hasWire q = true ↔
      p.overlaysInSoftware f = true ∨ f.bitDepth = q.bitDepth := by
  have hk := advance_frame_of_uploads hv hm hc hp
  have hdepth : (advance p.frame? f).bitDepth = f.bitDepth := by
    rw [hk, f.bitDepth_eq_getD]
    exact PixelFormat.bitDepth_semiPlanar _
  have hwire : (advance p.frame? f).hasWire q = true ↔ f.bitDepth = q.bitDepth := by
    rw [Frame.hasWire_eq (by rw [hk]), ← hs, PixelFormat.sameWire_semiPlanar_iff, hs,
      f.bitDepth_eq_getD]
  have hcases := falling_cases hq (advance p.frame? f)
  rw [overlaysInSoftware_congr hdepth] at hcases
  cases ho : p.overlaysInSoftware f with
  | true =>
    rw [ho, if_pos rfl] at hcases
    exact iff_of_true (hasWire_after hq hs hb (.of_software hcases)) (.inl rfl)
  | false =>
    rw [ho, if_neg (by decide)] at hcases
    have hfinal : advance (finalUpload? p.backend p.encoder) (advance p.frame? f) =
        advance p.frame? f := by
      rw [advance_finalUpload, hq, hk]
      rfl
    rw [hcases, hfinal, hwire]
    simp

/-- **The format at the end of the path** is the encoder's, but for frames of another depth that
only the padding moves up. -/
theorem hasWire_advanceAll_iff (hq : p.encoder.surfaceFormat? = some q) (hs : q.semiPlanar = q)
    (hb : p.backend.isHardware = true) (f : Frame) :
    (advanceAll p.wholeStages f).hasWire q = true ↔ ¬p.PadsOtherDepth q f := by
  have hwhole : advanceAll p.wholeStages f = advance (finalUpload? p.backend p.encoder)
      (advanceAll p.falling (advance p.frame? (advanceAll p.rising f))) := by
    rw [wholeStages_eq, advanceAll_append, advanceAll_cons, advanceAll_append]
    rfl
  rw [hwhole]
  constructor
  · intro hw h
    rw [rising_eq_self h.memory h.deinterlaced h.hdr h.rescales,
      hasWire_of_uploads hq hs hb h.backend h.memory h.croppedSize h.paddedSize] at hw
    rcases hw with ho | hd
    · exact h.overlays ho
    · exact h.depth hd
  · intro hn
    have hrise : Settled q (advanceAll p.rising f) := settled_scale hq hb _
    rcases frame_cases hb hrise with hset | ⟨hv, hm, hc, hp⟩
    · exact hasWire_after hq hs hb (settled_falling hq hset)
    · rcases rising_cases hb f with hup | ⟨hfm, hd, hh, hr⟩
      · rw [hm] at hup
        cases hup
      · have he := rising_eq_self hfm hd hh hr
        rw [he] at hp ⊢
        rw [hasWire_of_uploads hq hs hb hv hfm hc hp]
        by_cases ho : p.overlaysInSoftware f = true
        · exact .inl ho
        · exact .inr (Decidable.not_not.mp fun hne => hn ⟨hv, hfm, hd, hh, hr, hc, hp, ho, hne⟩)

end PathPlan

end Playout
