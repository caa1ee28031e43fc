import Playout.Proofs.Path.Format
import Playout.Proofs.Plan.Residence

/-!
# The final state and the encoders

The check at the end of a compilation compares the final state with what the encoders declare.
The formats of video and audio always agree.  The pixel format agrees but for one way: frames of
another depth than the encoder's, decoded on the host, that need nothing but the padding of VAAPI,
which moves them up in their own depth.

* `disagreements_eq_nil_iff`: the check in terms of the three formats.
* `PadsInOtherDepth`: the way it fails.
* `final_agrees_iff`: it fails in this way only.
-/

namespace Playout

open VideoFilter

namespace Compilation

variable {c : Compilation} {a : Assembly}

/-! ## The check -/

structure Agrees (f : Frame) (video : VideoEncoder) (audio : Option AudioEncoder) : Prop where
  videoFormat : ∀ format, video.videoFormat? = some format → f.videoFormat = format
  pixelFormat : ∀ q, video.pixelFormat? = some q → f.hasWire q = true
  audioFormat : ∀ e, audio = some e → f.audioFormat = some e.audioFormat

theorem disagreements_eq_nil_iff {f : Frame} {video : VideoEncoder}
    {audio : Option AudioEncoder} :
    disagreements f video audio = [] ↔ Agrees f video audio := by
  unfold disagreements
  rw [List.append_eq_nil_iff, List.append_eq_nil_iff]
  constructor
  · rintro ⟨⟨hv, hp⟩, ha⟩
    refine ⟨?_, ?_, ?_⟩
    · intro format h
      rw [h] at hv
      simpa using hv
    · intro q h
      rw [h] at hp
      simpa using hp
    · rintro e rfl
      simpa using ha
  · intro h
    refine ⟨⟨?_, ?_⟩, ?_⟩
    · cases hv : video.videoFormat? with
      | none => rfl
      | some format => exact if_pos (h.videoFormat format hv)
    · cases hp : video.pixelFormat? with
      | none => rfl
      | some q => exact if_pos (h.pixelFormat q hp)
    · cases ha : audio with
      | none => rfl
      | some e => exact if_pos (h.audioFormat e ha)

theorem checked_eq_ok_iff :
    checked a = .ok a.pipeline ↔ Agrees a.pipeline.final a.video a.audio := by
  rw [← disagreements_eq_nil_iff, checked]
  split
  · next h => exact iff_of_true rfl h
  · next h =>
    refine iff_of_false (fun hc => by cases hc) fun hn => ?_
    exact h hn

/-! ## Video and audio -/

theorem audioFormat_audioSteps {e : AudioEncoder} {trail : List Step}
    (ht : ∀ s ∈ trail, s.isOption = true) (f : Frame) :
    (Step.nextAll (c.audioSteps (some e) ++ trail) f).audioFormat = some e.audioFormat := by
  obtain ⟨options, ho, hp⟩ := c.exists_audioSteps e
  rw [ho, Step.nextAll_append, Step.audioFormat_nextAll ht, Step.nextAll_cons,
    Step.audioFormat_nextAll (isOption_audioOptions hp)]
  rfl

theorem videoFormat_audioSteps (e : Option AudioEncoder) (f : Frame) :
    (Step.nextAll (c.audioSteps e) f).videoFormat = f.videoFormat := by
  cases e with
  | none => rfl
  | some e =>
    obtain ⟨options, ho, hp⟩ := c.exists_audioSteps e
    rw [ho, Step.nextAll_cons, Step.videoFormat_nextAll (isOption_audioOptions hp)]
    rfl

theorem agrees_copied (k : Container) :
    Agrees (c.copied k).final .copy c.copiedAudioEncoder := by
  refine ⟨?_, ?_, ?_⟩
  · intro format h
    cases h
  · intro q h
    cases h
  · intro e he
    show (Step.nextAll (c.copiedSteps k) c.initial).audioFormat = _
    rw [copiedSteps, he, List.append_assoc, Step.nextAll_append]
    exact audioFormat_audioSteps (isOption_trailingSteps _ _) _

namespace Transcoding

variable (t : c.Transcoding a)

theorem videoFormat_final {format : VideoFormat}
    (h : t.machinery.encoder.videoFormat? = some format) :
    a.pipeline.final.videoFormat = format := by
  rw [Pipeline.final, t.steps_eq, transcodeSteps]
  simp only [Step.nextAll_append]
  rw [Step.videoFormat_nextAll (isOption_trailingSteps _ _), videoFormat_audioSteps,
    Step.videoFormat_nextAll (isOption_pixelFormatSteps _ _), Step.nextAll_cons, Step.nextAll_nil]
  show (t.machinery.encoder.next _).videoFormat = format
  rw [VideoEncoder.next, h]

include t in
theorem audioFormat_final {e : AudioEncoder} (h : c.transcodedAudioEncoder = some e) :
    a.pipeline.final.audioFormat = some e.audioFormat := by
  rw [Pipeline.final, t.steps_eq, transcodeSteps, h, List.append_assoc, Step.nextAll_append]
  exact audioFormat_audioSteps (isOption_trailingSteps _ _) _

end Transcoding

/-! ## Pixels -/

theorem semiPlanar_of_surfaceFormat? {m : Machinery} (h : c.machinery = .ok m) {q : PixelFormat}
    (hq : m.encoder.surfaceFormat? = some q) : q.semiPlanar = q := by
  obtain ⟨-, hs, -⟩ := machinery_eq_ok h
  obtain ⟨hm, hp⟩ := VideoEncoder.surfaceFormat?_eq_some_iff.mp hq
  rcases VideoEncoder.select_eq_ok hs with hc | hi | ⟨x, s, he, -, -, hx⟩
  · rw [hc] at hm
    cases hm
  · rw [hi] at hm
    cases hm
  · rw [he] at hm hp
    have hqs : s.pixelFormat = q := Option.some.inj hp
    rw [← hqs, hx]
    cases x with
    | nvenc | qsv | vaapi => exact PixelFormat.semiPlanar_semiPlanar _
    | none | videoToolbox | amf => cases hm

theorem hasWire_pixelFormatSteps {e : VideoEncoder} {q : PixelFormat} {f : Frame}
    (hq : e.pixelFormat? = some q) (hm : f.memory = .software) :
    (Step.nextAll (pixelFormatSteps e f) f).hasWire q = true := by
  rw [pixelFormatSteps, hq]
  dsimp only
  rw [Frame.isHardware_eq_false_iff.mpr hm]
  cases hw : f.hasWire q with
  | true => exact hw
  | false => exact Frame.hasWire_of_eq rfl

theorem pixelFormatSteps_of_hardware {e : VideoEncoder} {f : Frame} (hm : f.memory = .hardware) :
    pixelFormatSteps e f = [] := by
  rw [pixelFormatSteps, Frame.isHardware_iff.mpr hm]
  cases e.pixelFormat? <;> rfl

/-- The way in which pixel formats differ: VAAPI encodes what the host decodes, nothing has to be
done to the frames but to pad them, and they have another depth than the encoder wants. -/
structure PadsInOtherDepth (c : Compilation) (a : Assembly) : Prop where
  encoder : a.video.accelerator = .vaapi
  decoder : ∃ d, a.pipeline.decoder? = some d ∧ d.isHardware = false
  progressive : (c.request.target.deinterlace && c.request.video.stream.interlaced) = false
  range : c.request.video.stream.isHdr = false
  square : c.request.video.stream.isAnamorphic = false
  unscaled : c.request.video.stream.frameSize = c.desired.scaledSize
  uncut : c.desired.croppedSize = none
  padded : c.desired.scaledSize ≠ c.request.target.resolution
  text : c.request.burnedText? = none
  layers : c.request.hasLayers = true → c.request.video.stream.bitDepth ≠ 10
  depth : ∀ q, a.video.pixelFormat? = some q → c.request.video.stream.bitDepth ≠ q.bitDepth

namespace Transcoding

variable (t : c.Transcoding a) {q : PixelFormat}

theorem decoded_eq_initial (h : t.machinery.decoder.isHardware = false) :
    t.decoded = c.initial := by
  rw [decoded, Decoder.next, h]
  rfl

/-- Beside VAAPI's encoder frames in host memory come from the host's decoder. -/
theorem decoder_of_software (hv : t.machinery.encoder.accelerator = .vaapi)
    (hm : t.decoded.memory = .software) : t.machinery.decoder.isHardware = false := by
  cases hd : t.machinery.decoder.isHardware with
  | false => rfl
  | true =>
    have he : t.machinery.encoder.isHardware = true := by
      rw [VideoEncoder.isHardware, hv]
      rfl
    have ht : c.request.target.accelerator = .vaapi :=
      (encoder_accelerator t.made he).symm.trans hv
    rw [t.memory_decoded, decoder_memory t.made hd, ht] at hm
    cases hm

theorem overlaysInSoftware_iff (hb : t.machinery.backend.isHardware = true) (f : Frame) :
    t.plan.overlaysInSoftware f = true ↔
      c.request.burnedText? ≠ none ∨ c.request.hasLayers = true ∧ f.bitDepth = 10 := by
  have hburned : t.plan.burned.isSome = c.request.burnedText?.isSome := by
    show (c.request.burnedText?.map _).isSome = _
    rw [Option.isSome_map]
  have hbackend : t.plan.backend.isHardware = true := hb
  rw [PathPlan.overlaysInSoftware, hburned, hbackend, Bool.or_eq_true, Bool.and_eq_true,
    Bool.not_true, Bool.false_or, beq_iff_eq, Option.isSome_iff_ne_none]
  rfl

theorem padsOtherDepth_iff (hq : t.machinery.encoder.surfaceFormat? = some q) :
    t.plan.PadsOtherDepth q t.decoded ↔ c.PadsInOtherDepth a := by
  have hb := t.coherent.isHardware_of_surface hq
  have hfamily := t.coherent.family q hq
  have hp := (VideoEncoder.surfaceFormat?_eq_some_iff.mp hq).2
  have hvideo := t.video_eq
  constructor
  · intro h
    have hv : t.machinery.encoder.accelerator = .vaapi := by
      have hbv : t.machinery.backend = .vaapi := h.backend
      rw [hfamily] at hbv
      cases hx : t.machinery.encoder.accelerator <;> rw [hx] at hbv <;> first | rfl | cases hbv
    have hd := t.decoder_of_software hv h.memory
    have hinit := t.decoded_eq_initial hd
    have hover := mt (t.overlaysInSoftware_iff hb t.decoded).mpr h.overlays
    have hscale := h.rescales
    have hdepth := h.depth
    have hdeint := h.deinterlaced
    have hhdr := h.hdr
    have hpad := h.paddedSize
    rw [hinit] at hover hscale hdepth hdeint hhdr hpad
    rw [not_or, not_and] at hover
    obtain ⟨hsize, hana⟩ := not_or.mp hscale
    have hsize : c.request.video.stream.frameSize = c.desired.scaledSize :=
      Decidable.not_not.mp hsize
    exact {
      encoder := hvideo.symm ▸ hv
      decoder := ⟨_, t.decoder?_eq, hd⟩
      progressive := (Bool.and_true _).symm.trans ((Bool.not_eq_true _).mp hdeint)
      range := (Bool.and_true _).symm.trans ((Bool.not_eq_true _).mp hhdr)
      square := (Bool.not_eq_true _).mp hana
      unscaled := hsize
      uncut := h.croppedSize
      padded := fun he => hpad (hsize.trans he)
      text := Decidable.not_not.mp hover.1
      layers := hover.2
      depth := by
        intro r hr
        rw [hvideo, hp] at hr
        rw [← Option.some.inj hr]
        exact hdepth }
  · intro h
    have hv : t.machinery.encoder.accelerator = .vaapi := hvideo ▸ h.encoder
    obtain ⟨d, hd, hsoft⟩ := h.decoder
    rw [Option.some.inj (hd.symm.trans t.decoder?_eq)] at hsoft
    rw [t.decoded_eq_initial hsoft]
    exact {
      backend := hfamily.trans (by rw [hv]; rfl)
      memory := rfl
      deinterlaced := (Bool.not_eq_true _).mpr ((Bool.and_true _).trans h.progressive)
      hdr := (Bool.not_eq_true _).mpr ((Bool.and_true _).trans h.range)
      rescales := not_or.mpr ⟨not_not_intro h.unscaled, (Bool.not_eq_true _).mpr h.square⟩
      croppedSize := h.uncut
      paddedSize := fun he => h.padded (h.unscaled.symm.trans he)
      overlays := by
        rw [t.overlaysInSoftware_iff hb, not_or, not_and]
        exact ⟨not_not_intro h.text, h.layers⟩
      depth := h.depth q (by rw [hvideo]; exact hp) }

theorem hasWire_final (hq : t.machinery.encoder.pixelFormat? = some q) :
    a.pipeline.final.hasWire q = true ↔ ¬c.PadsInOtherDepth a := by
  have hf : a.pipeline.final.hasWire q =
      (Step.nextAll (pixelFormatSteps t.machinery.encoder t.finished) t.finished).hasWire q :=
    Frame.hasWire_congr (congrArg Picture.pixelFormat t.picture_final) q
  rw [hf]
  cases hs : t.machinery.encoder.surfaceFormat? with
  | none =>
    have hm := (t.host_residence hs).2
    refine iff_of_true (hasWire_pixelFormatSteps hq hm) fun h => ?_
    -- VAAPI's encoder takes frames from the accelerator
    have hv : t.machinery.encoder.accelerator = .vaapi := t.video_eq ▸ h.encoder
    have hno := VideoEncoder.memory_ofAccelerator_of_surfaceFormat?_eq_none hs
    rw [hv] at hno
    cases hno
  | some r =>
    have hr : r = q := by
      have hp := (VideoEncoder.surfaceFormat?_eq_some_iff.mp hs).2
      exact Option.some.inj (hp.symm.trans hq)
    subst hr
    rw [pixelFormatSteps_of_hardware (t.device_residence hs).2, Step.nextAll_nil,
      ← t.padsOtherDepth_iff hs]
    exact PathPlan.hasWire_advanceAll_iff (p := t.plan) hs (semiPlanar_of_surfaceFormat? t.made hs)
      (t.coherent.isHardware_of_surface hs) t.decoded

end Transcoding

/-! ## All together -/

theorem not_padsInOtherDepth_copied (k : Container) :
    ¬c.PadsInOtherDepth ⟨c.copied k, .copy, c.copiedAudioEncoder⟩ := by
  intro h
  have he : VideoEncoder.copy.accelerator = .vaapi := h.encoder
  cases he

theorem run_eq (h : c.assembled = .ok a) : c.run = checked a := by
  rw [run, h]
  rfl

/-- **The final state agrees with the encoders**, but for one way in which the pixel format does
not; the formats of video and audio agree in all.  A compilation that assembles a pipeline gives it
exactly if this way is not taken. -/
theorem final_agrees_iff (h : c.assembled = .ok a) :
    (∀ format, a.video.videoFormat? = some format → a.pipeline.final.videoFormat = format) ∧
    (∀ e, a.audio = some e → a.pipeline.final.audioFormat = some e.audioFormat) ∧
    ((∀ q, a.video.pixelFormat? = some q → a.pipeline.final.hasWire q = true) ↔
      ¬c.PadsInOtherDepth a) ∧
    (compile c.request c.capabilities c.config = .ok a.pipeline ↔ ¬c.PadsInOtherDepth a) := by
  have hrun : compile c.request c.capabilities c.config = checked a := run_eq h
  rw [hrun, checked_eq_ok_iff]
  rcases assembled_eq_ok h with ⟨k, -, rfl⟩ | ht
  · have hagree := c.agrees_copied k
    have hno := c.not_padsInOtherDepth_copied k
    exact ⟨hagree.videoFormat, hagree.audioFormat, iff_of_true hagree.pixelFormat hno,
      iff_of_true hagree hno⟩
  · obtain ⟨t⟩ := ht
    have hv : ∀ format, a.video.videoFormat? = some format →
        a.pipeline.final.videoFormat = format := by
      intro format hf
      rw [t.video_eq] at hf
      exact t.videoFormat_final hf
    have ha : ∀ e, a.audio = some e → a.pipeline.final.audioFormat = some e.audioFormat := by
      intro e he
      exact t.audioFormat_final ((congrArg Assembly.audio t.eq).symm.trans he)
    have hp : (∀ q, a.video.pixelFormat? = some q → a.pipeline.final.hasWire q = true) ↔
        ¬c.PadsInOtherDepth a := by
      rw [t.video_eq]
      cases hq : t.machinery.encoder.pixelFormat? with
      | none =>
        refine iff_of_true (fun q hn => by cases hn) fun h => ?_
        have he : t.machinery.encoder.accelerator = .vaapi := t.video_eq ▸ h.encoder
        rw [VideoEncoder.accelerator_eq_none hq] at he
        cases he
      | some q =>
        rw [← t.hasWire_final hq]
        simp
    refine ⟨hv, ha, hp, ?_⟩
    rw [← hp]
    exact ⟨fun hag => hag.pixelFormat, fun hpix => ⟨hv, hpix, ha⟩⟩

/-- A ten-bit film of 1920 by 800, for an accelerator that pads it to 1080 lines and encodes it
with eight bits. -/
def tenBitFilm : Compilation where
  request := {
    video := ⟨"film.mkv", {
      codec := "hevc"
      pixelFormatName := some "yuv420p10le"
      frameSize := ⟨1920, 800⟩ }⟩
    target := { accelerator := .vaapi } }
  capabilities := { encoders := [⟨.h264, [8]⟩] }
  config := {}

/-- The frames of this film end in ten bits where the encoder takes eight. -/
theorem tenBitFilm_disagrees :
    ∃ a, tenBitFilm.assembled = .ok a ∧ a.video.pixelFormat? = some ⟨.yuv420p, .nv12⟩ ∧
      a.pipeline.final.pixelFormat = some ⟨.yuv420p10le, .p010le⟩ ∧
      compile tenBitFilm.request tenBitFilm.capabilities tenBitFilm.config =
        .error (.fault (.disagreement
          [.pixelFormat (some ⟨.yuv420p10le, .p010le⟩) ⟨.yuv420p, .nv12⟩])) := by
  have hr : (tenBitFilm.assembled.toOption.bind fun a =>
      some (a.video.pixelFormat?, a.pipeline.final.pixelFormat,
        disagreements a.pipeline.final a.video a.audio)) =
      some (some ⟨.yuv420p, .nv12⟩, some ⟨.yuv420p10le, .p010le⟩,
        [.pixelFormat (some ⟨.yuv420p10le, .p010le⟩) ⟨.yuv420p, .nv12⟩]) := by decide +kernel
  obtain ⟨a, ha, hr⟩ := exists_assembled hr
  simp only [Option.some.injEq, Prod.mk.injEq] at hr
  obtain ⟨hq, hf, hd⟩ := hr
  refine ⟨a, ha, hq, hf, ?_⟩
  show tenBitFilm.run = _
  rw [run_eq ha, checked, hd]

/-- Decoded by the accelerator, no film is moved up by its padding. -/
theorem subtitledFilm_agrees :
    ∃ a, subtitledFilm.assembled = .ok a ∧
      compile subtitledFilm.request subtitledFilm.capabilities subtitledFilm.config =
        .ok a.pipeline := by
  have hr : (subtitledFilm.assembled.toOption.bind fun a => a.pipeline.decoder?) =
      some .vaapi := by decide +kernel
  obtain ⟨a, ha, hd⟩ := exists_assembled hr
  refine ⟨a, ha, (final_agrees_iff ha).2.2.2.mpr ?_⟩
  intro h
  obtain ⟨d, hd', hsoft⟩ := h.decoder
  rw [hd, Option.some.injEq] at hd'
  rw [← hd'] at hsoft
  cases hsoft

end Compilation

end Playout
