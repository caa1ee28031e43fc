import Playout.Proofs.Item.Request
import Playout.Proofs.Path.Idle
import Playout.Proofs.Plan.Completion

/-!
# Transcodings without a filter

Where nothing is laid over the frames, a transcoding filters them exactly if something is left to
be done to what the decoder gives.

* `Transcoding.plain`: without overlays the main path is plain.
* `mainFilters_eq_nil_iff`: the decoded frames that reach the encoder as they are, and those that
  are converted on the way.
-/

namespace Playout

open VideoFilter

namespace Compilation

variable {c : Compilation} {a : Assembly}

namespace Transcoding

variable (t : c.Transcoding a)

theorem plain (h : c.request.hasOverlays = false) : t.plan.Plain where
  family := fun _ hq => t.coherent.isHardware_of_surface hq
  hdr := rfl
  croppedSize := c.desired_croppedSize
  burned := by
    show c.request.burnedText?.map _ = none
    rw [Request.burnedText?_eq_none h]
    rfl
  hasLayers := Request.hasLayers_eq_false h

end Transcoding

/-- **No needless filter, and none that is missing.**  Without overlays, the frames that the
decoder gives reach the encoder unfiltered exactly if they are ready for it and in its format.  If
only the format is another, one filter converts it and changes nothing else. -/
theorem mainFilters_eq_nil_iff (h : c.assembled = .ok a) {d : Decoder}
    (hd : a.pipeline.decoder? = some d) (ho : c.request.hasOverlays = false) :
    (a.pipeline.mainFilters = [] ↔
      Ready c.desired a.video (d.next c.initial) ∧ a.video.Takes (d.next c.initial)) ∧
    (Ready c.desired a.video (d.next c.initial) → ¬a.video.Takes (d.next c.initial) →
      ∃ q, a.video.pixelFormat? = some q ∧
        a.pipeline.mainFilters =
          [.work (.ofAccelerator a.video.accelerator) none (.convert q)] ∧
        nextAll a.pipeline.mainFilters (d.next c.initial) =
          { d.next c.initial with pixelFormat := some q }) := by
  obtain ⟨t⟩ := transcoding_of_decoder h hd
  have hdec : d.next c.initial = t.decoded := by
    rw [Option.some.inj (hd.symm.trans t.decoder?_eq)]
    rfl
  have hplain := t.plain ho
  rw [hdec, t.mainFilters_eq, t.video_eq]
  refine ⟨PathPlan.emitted_eq_nil_iff hplain, fun hready htakes => ?_⟩
  rw [VideoEncoder.takes_iff] at htakes
  obtain ⟨q, hq⟩ := Classical.not_forall.mp htakes
  obtain ⟨hq, hw⟩ := Classical.not_imp.mp hq
  obtain ⟨hone, hnext⟩ := PathPlan.emitted_eq_convert hplain hq hready (by simpa using hw)
  have hfamily : t.plan.backend = .ofAccelerator t.machinery.encoder.accelerator :=
    t.coherent.family q hq
  rw [hfamily] at hone hnext
  refine ⟨q, (VideoEncoder.takesSurfaces_of_surfaceFormat? hq).2, hone, ?_⟩
  rw [hone, nextAll_cons, nextAll_nil, hnext]

/-- A ten-bit film of the target's size, for an accelerator that decodes it and encodes it with
eight bits. -/
def deepFilm : Compilation where
  request := {
    video := ⟨"film.mkv", {
      codec := "hevc"
      pixelFormatName := some "yuv420p10le"
      frameSize := ⟨1920, 1080⟩ }⟩
    target := { accelerator := .vaapi } }
  capabilities := {
    decoders := [⟨.hevc, [10]⟩]
    encoders := [⟨.h264, [8]⟩] }
  config := {}

/-- The film is converted and not scaled. -/
theorem deepFilm_converted :
    ∃ a, deepFilm.assembled = .ok a ∧
      a.pipeline.mainFilters = [.work .vaapi none (.convert ⟨.yuv420p, .nv12⟩)] := by
  have hr : (deepFilm.assembled.toOption.bind fun a =>
      a.pipeline.decoder?.map fun d => (d, a.video)) =
      some (.vaapi, .explicit .vaapi ⟨.h264, ⟨.yuv420p, .nv12⟩, none, none, none⟩) := by
    decide +kernel
  obtain ⟨a, ha, hr⟩ := exists_assembled hr
  obtain ⟨d, hd, hr⟩ := Option.map_eq_some_iff.mp hr
  obtain ⟨rfl, hvideo⟩ := Prod.mk.inj hr
  have hready : Ready deepFilm.desired a.video (Decoder.vaapi.next deepFilm.initial) := by
    rw [hvideo]
    constructor <;> decide +kernel
  have htakes : ¬a.video.Takes (Decoder.vaapi.next deepFilm.initial) := by
    intro h
    rw [hvideo] at h
    obtain ⟨q, hq, hw⟩ := h rfl
    cases hq
    revert hw
    decide +kernel
  obtain ⟨q, hq, hfilters, -⟩ := (mainFilters_eq_nil_iff ha hd rfl).2 hready htakes
  rw [hvideo] at hq hfilters
  cases hq
  exact ⟨a, ha, hfilters⟩

end Compilation

end Playout
