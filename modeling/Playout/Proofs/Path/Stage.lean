import Playout.Proofs.Path.Passage

/-!
# What each stage does

One equation for each stage of the main path: the frames after it, in terms of the frames before.

* `advance_deinterlace`, `advance_tonemap`, `advance_scale_of_rescales`, `advance_frame`: the stages
  that work on the picture.
* `advance_toEncoder`, `advance_toOverlays`, `advance_subtitles`, `advance_finalUpload`: the
  stages that only move frames; `Carried` says what these leave alone.
* `carried_toEncoder` and the lemmas after it: moves leave sizes and pending work alone.
-/

namespace Playout

open Transfer VideoFilter

/-- Frames that were at most moved, which may have changed their format. -/
structure Carried (f g : Frame) : Prop where
  scaledSize : g.scaledSize = f.scaledSize
  paddedSize : g.paddedSize = f.paddedSize
  anamorphic : g.anamorphic = f.anamorphic
  deinterlaced : g.deinterlaced = f.deinterlaced
  hdr : g.hdr = f.hdr

namespace Carried

theorem refl (f : Frame) : Carried f f := ⟨rfl, rfl, rfl, rfl, rfl⟩

theorem moved (b : Backend) (f : Frame) (m : Memory) : Carried f (moved b f m) := by
  constructor <;> simp

end Carried

theorem VideoFilter.next_on (b : Backend) (g f : Frame) (w : FilterWork) :
    (on b g w).next f = w.next (moved b f b.memory) := rfl

namespace PathPlan

open Stage

variable (p : PathPlan) (f : Frame)

/-! ## Stages that work on the picture -/

theorem advance_deinterlace :
    advance p.deinterlace? f =
      if p.desired.deinterlaced && !f.deinterlaced then
        { moved p.backend f p.backend.memory with deinterlaced := true }
      else f := by
  by_cases h : (p.desired.deinterlaced && !f.deinterlaced) = true
  · have hs : p.deinterlace? f = some (deinterlace p.backend f) := if_pos h
    rw [if_pos h, advance_some hs]
    rfl
  · have hs : p.deinterlace? f = none := if_neg h
    rw [if_neg h, advance_none hs]

theorem hdr_deinterlace : (advance p.deinterlace? f).hdr = f.hdr := by
  rw [advance_deinterlace]
  split
  · simp
  · rfl

def tonemapped : PixelFormat :=
  match p.backend with
  | .software | .cuda => (p.desired.pixelFormat.getD .yuv420p).hosted
  | .qsv | .vaapi => (p.desired.pixelFormat.getD .yuv420p).hosted.semiPlanar

theorem tonemap?_eq :
    p.tonemap? f =
      if f.hdr && !p.desired.hdr then
        some (on p.backend f (.tonemap p.tonemapAlgorithm p.tonemapped))
      else none := by
  unfold tonemap? VideoFilter.tonemap tonemapped
  cases p.backend <;> rfl

theorem advance_tonemap :
    advance p.tonemap? f =
      if f.hdr && !p.desired.hdr then
        { moved p.backend f p.backend.memory with
          pixelFormat := some p.tonemapped
          hdr := false }
      else f := by
  have hs := p.tonemap?_eq f
  by_cases h : (f.hdr && !p.desired.hdr) = true
  · rw [if_pos h] at hs ⊢
    rw [advance_some hs]
    rfl
  · rw [if_neg h] at hs ⊢
    rw [advance_none hs]

@[simp] theorem result_resize : p.resize.result = p.desired.scaledSize := by
  unfold resize
  split <;> rfl

/-- Only an accelerator converts while it scales. -/
def scaledFormat? : Option PixelFormat :=
  if p.backend.isHardware then p.encoder.surfaceFormat? else none

/-- Whether the picture has to be scaled or squared. -/
def Rescales (f : Frame) : Prop :=
  f.scaledSize ≠ p.desired.scaledSize ∨ f.anamorphic = true

instance : Decidable (p.Rescales f) := inferInstanceAs (Decidable (_ ∨ _))

variable {p f}

theorem scale?_of_rescales (h : p.Rescales f) :
    p.scale? f = some (on p.backend f (.scale p.resize p.scaledFormat?
      (if f.anamorphic then some p.squareByHeight else none))) :=
  if_pos h

theorem scale?_of_not_rescales (h : ¬ p.Rescales f) :
    p.scale? f =
      match p.encoder.surfaceFormat? with
      | some q =>
        if p.backend.isHardware && f.isHardware && !f.hasWire q then
          some (on p.backend f (.convert q))
        else none
      | none => none :=
  if_neg h

theorem advance_scale_of_rescales (h : p.Rescales f) :
    advance p.scale? f =
      { moved p.backend f p.backend.memory with
        scaledSize := p.desired.scaledSize
        paddedSize := p.desired.scaledSize
        anamorphic := false
        pixelFormat := p.scaledFormat?.or (moved p.backend f p.backend.memory).pixelFormat } := by
  rw [advance_some (scale?_of_rescales h), next_on, FilterWork.next, result_resize]

/-- A frame that needs no scaling is at most converted, and that where it lies. -/
theorem advance_scale_of_not_rescales (h : ¬ p.Rescales f) :
    advance p.scale? f =
      match p.encoder.surfaceFormat? with
      | some q =>
        if p.backend.isHardware && f.isHardware && !f.hasWire q then
          { f with pixelFormat := some q }
        else f
      | none => f := by
  have ha : f.anamorphic = false := by
    simp only [Rescales, not_or, Bool.not_eq_true] at h
    exact h.2
  rw [advance, scale?_of_not_rescales h]
  cases p.encoder.surfaceFormat? with
  | none => rfl
  | some q =>
    by_cases hc : (p.backend.isHardware && f.isHardware && !f.hasWire q) = true
    · simp only [hc, if_true]
      simp only [Bool.and_eq_true] at hc
      obtain ⟨⟨hb, hf⟩, -⟩ := hc
      have hm : f.memory = p.backend.memory := by
        rw [Backend.memory_eq_hardware_iff.mpr hb, Frame.isHardware_iff.mp hf]
      rw [next_on, moved_self _ hm, FilterWork.next, ← ha]
    · simp only [hc, Bool.false_eq_true, if_false]

variable (p f)

theorem advance_frame :
    advance p.frame? f =
      match p.desired.croppedSize with
      | some c =>
        if f.paddedSize ≠ c then
          { moved .software f .software with scaledSize := c, paddedSize := c }
        else f
      | none =>
        if f.paddedSize ≠ p.desired.paddedSize then
          { moved (padBackend p.backend) f (padBackend p.backend).memory with
            paddedSize := p.desired.paddedSize }
        else f := by
  unfold advance frame?
  cases p.desired.croppedSize with
  | some c =>
    by_cases h : f.paddedSize = c
    · simp [h]
    · simp [h, crop, next_on, FilterWork.next]
  | none =>
    by_cases h : f.paddedSize = p.desired.paddedSize
    · simp [h]
    · simp [h, pad, next_on, FilterWork.next]

/-! ## Stages that only move frames -/

theorem next_download (target : Option PixelFormat) :
    ∃ q, (download f target).next f = { f with memory := .software, pixelFormat := some q } :=
  ⟨_, rfl⟩

theorem advance_toEncoder :
    ∃ q, advance p.toEncoder? f =
      if f.isHardware && p.encoder.surfaceFormat?.isNone then
        { f with memory := .software, pixelFormat := some q }
      else f := by
  by_cases h : (f.isHardware && p.encoder.surfaceFormat?.isNone) = true
  · obtain ⟨q, hq⟩ := next_download f
      (p.encoder.pixelFormat?.or (f.pixelFormat.map PixelFormat.hosted))
    refine ⟨q, ?_⟩
    have hs : p.toEncoder? f = some (download f
        (p.encoder.pixelFormat?.or (f.pixelFormat.map PixelFormat.hosted))) := if_pos h
    rw [if_pos h, ← hq, advance_some hs]
  · have hs : p.toEncoder? f = none := if_neg h
    refine ⟨.nv12, ?_⟩
    rw [if_neg h, advance_none hs]

theorem advance_toOverlays :
    ∃ q, advance p.toOverlays? f =
      if p.overlaysInSoftware f && f.isHardware then
        { f with memory := .software, pixelFormat := some q }
      else f := by
  by_cases h : (p.overlaysInSoftware f && f.isHardware) = true
  · obtain ⟨q, hq⟩ := next_download f (f.pixelFormat.map PixelFormat.hosted)
    refine ⟨q, ?_⟩
    have hs : p.toOverlays? f = some (download f (f.pixelFormat.map PixelFormat.hosted)) := if_pos h
    rw [if_pos h, ← hq, advance_some hs]
  · have hs : p.toOverlays? f = none := if_neg h
    refine ⟨.nv12, ?_⟩
    rw [if_neg h, advance_none hs]

theorem advance_subtitles :
    advance p.subtitles? f = if p.burned.isSome then moved .software f .software else f := by
  unfold advance subtitles?
  cases p.burned with
  | none => rfl
  | some b => simp [subtitles, next_on, FilterWork.next]

theorem advance_finalUpload (b : Backend) (e : VideoEncoder) :
    advance (finalUpload? b e) f =
      match e.surfaceFormat? with
      | some q =>
        if f.isHardware || !b.isHardware then f
        else { f with memory := .hardware, pixelFormat := uploaded b f.pixelFormat (some q) }
      | none => f := by
  unfold advance finalUpload?
  cases e.surfaceFormat? with
  | none => rfl
  | some q =>
    cases hb : b.isHardware <;> cases hf : f.isHardware <;>
      simp [VideoFilter.upload, VideoFilter.next, Transfer.next, hb]

theorem carried_toEncoder : Carried f (advance p.toEncoder? f) := by
  obtain ⟨q, hq⟩ := p.advance_toEncoder f
  rw [hq]
  split
  · exact ⟨rfl, rfl, rfl, rfl, rfl⟩
  · exact .refl f

theorem carried_toOverlays : Carried f (advance p.toOverlays? f) := by
  obtain ⟨q, hq⟩ := p.advance_toOverlays f
  rw [hq]
  split
  · exact ⟨rfl, rfl, rfl, rfl, rfl⟩
  · exact .refl f

theorem carried_subtitles : Carried f (advance p.subtitles? f) := by
  rw [advance_subtitles]
  split
  · exact .moved _ _ _
  · exact .refl f

theorem carried_finalUpload (b : Backend) (e : VideoEncoder) :
    Carried f (advance (finalUpload? b e) f) := by
  rw [advance_finalUpload]
  cases e.surfaceFormat? with
  | none => exact .refl f
  | some q =>
    dsimp only
    split
    · exact .refl f
    · exact ⟨rfl, rfl, rfl, rfl, rfl⟩

end PathPlan

end Playout
