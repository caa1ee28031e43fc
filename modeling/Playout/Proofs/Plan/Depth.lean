import Playout.Proofs.Path.Depth
import Playout.Proofs.Plan.Assembly

/-!
# Ten bits all along

A ten-bit picture for a ten-bit target keeps its depth on the whole way from the source to the
output, on every accelerator, unless the encoder is one of eight bits.

* `VideoEncoder.bitDepth_consumed`: only for `mpeg2video` an encoder is given eight bits.
* `Transcoding.keepsDepth`: every step of such a transcoding keeps frames deep.
* `states_tenBit`: every state along the pipeline has ten bits.
-/

namespace Playout

open PixelFormat

namespace VideoEncoder

theorem isDeep_consumed (a : Accelerator) {format : VideoFormat} {wanted : PixelFormat}
    (hf : format ≠ .mpeg2video) (h : wanted.IsDeep) : (consumed a format wanted).IsDeep := by
  unfold consumed
  rw [if_neg hf]
  cases a with
  | none => exact h
  | nvenc | qsv | vaapi => exact h.semiPlanar
  | videoToolbox | amf =>
    dsimp only
    split
    · exact h.semiPlanar
    · exact h

theorem bitDepth_consumed (a : Accelerator) (format : VideoFormat) {wanted : PixelFormat}
    (h : wanted.IsDeep) :
    (consumed a format wanted).bitDepth = if format = .mpeg2video then 8 else 10 := by
  by_cases hf : format = .mpeg2video
  · rw [hf]
    cases a <;> rfl
  · rw [if_neg hf]
    exact (isDeep_consumed a hf h).bitDepth

end VideoEncoder

theorem VideoStream.isDeep_pixelFormat {s : VideoStream} (h : s.bitDepth = 10) :
    ∃ p, s.pixelFormat = some p ∧ p.IsDeep := by
  unfold bitDepth at h
  cases hp : s.pixelFormat with
  | none =>
    rw [hp] at h
    cases h
  | some p =>
    rw [hp] at h
    obtain ⟨name, -, hname⟩ := Option.bind_eq_some_iff.mp hp
    obtain ⟨l, -, rfl⟩ := Option.map_eq_some_iff.mp hname
    exact ⟨plain l, rfl, isDeep_plain h⟩

theorem Decoder.keepsDepth (d : Decoder) : (Step.decoder d).Keeps Frame.IsDeep where
  filters := List.forall_mem_nil _
  next f hf := by
    obtain ⟨p, hp, hd⟩ := hf
    show (d.next f).IsDeep
    unfold Frame.IsDeep
    rw [d.next_pixelFormat, hp]
    split
    · exact ⟨_, rfl, hd.semiPlanar⟩
    · exact ⟨p, rfl, hd⟩

namespace Compilation

variable {c : Compilation} {a : Assembly}

theorem isDeep_target {t : Target} (h : t.bitDepth = 10) : t.pixelFormat.IsDeep := by
  rw [Target.pixelFormat, if_pos h]
  exact isDeep_yuv420p10le

theorem isDeep_initial (h : c.request.video.stream.bitDepth = 10) : c.initial.IsDeep :=
  VideoStream.isDeep_pixelFormat h

namespace Transcoding

variable (t : c.Transcoding a)

/-- An encoder that declares formats is given what it makes of the target's. -/
theorem encoder_cases :
    t.machinery.encoder.pixelFormat? = none ∧ t.machinery.encoder.videoFormat? = none ∨
      ∃ b format, t.machinery.encoder.videoFormat? = some format ∧
        t.machinery.encoder.pixelFormat? =
          some (VideoEncoder.consumed b format c.request.target.pixelFormat) := by
  obtain ⟨-, hs, -⟩ := machinery_eq_ok t.made
  rcases VideoEncoder.select_eq_ok hs with he | he | ⟨b, s, he, -, hf, hp⟩
  · exact .inl (by rw [he]; exact ⟨rfl, rfl⟩)
  · exact .inl (by rw [he]; exact ⟨rfl, rfl⟩)
  · refine .inr ⟨b, s.format, ?_, ?_⟩
    · rw [he]
      rfl
    · rw [he, hf]
      exact congrArg some hp

theorem encodes_eight_iff (h : c.request.target.bitDepth = 10) :
    (∃ q, t.machinery.encoder.pixelFormat? = some q ∧ q.bitDepth = 8) ↔
      t.machinery.encoder.videoFormat? = some .mpeg2video := by
  rcases t.encoder_cases with ⟨hp, hv⟩ | ⟨b, format, hv, hp⟩
  · rw [hp, hv]
    simp
  · have hdepth := VideoEncoder.bitDepth_consumed b format (isDeep_target h)
    rw [hp, hv]
    simp only [Option.some.injEq, exists_eq_left', hdepth]
    split <;> simp_all

theorem isDeep_encoder (h : c.request.target.bitDepth = 10)
    (hv : t.machinery.encoder.videoFormat? ≠ some .mpeg2video) :
    DeepIfAny t.machinery.encoder.pixelFormat? := by
  rcases t.encoder_cases with ⟨hp, -⟩ | ⟨b, format, hf, hp⟩
  · rw [hp]
    exact .none
  · rw [hp]
    have hne : format ≠ .mpeg2video := fun he => hv (hf.trans (congrArg some he))
    exact .some (VideoEncoder.isDeep_consumed b hne (isDeep_target h))

theorem tenBit_plan (h : c.request.target.bitDepth = 10)
    (he : DeepIfAny t.machinery.encoder.pixelFormat?) : t.plan.TenBit where
  desired := ⟨_, rfl, isDeep_target h⟩
  encoder := he

/-- **Every step of a transcoding to ten bits keeps frames deep.** -/
theorem keepsDepth (hs : c.request.video.stream.bitDepth = 10)
    (ht : c.request.target.bitDepth = 10)
    (he : DeepIfAny t.machinery.encoder.pixelFormat?) :
    ∀ s ∈ a.pipeline.steps, s.Keeps Frame.IsDeep := by
  have hbeside : ∀ s : Step, s.keepsPicture = true → s.Keeps Frame.IsDeep := fun s h =>
    Step.keeps_of_keepsPicture (fun _ _ hp hf => hf.of_picture hp) h
  obtain ⟨lead, middle, trail, hsteps, hl, hm, htr⟩ := t.exists_steps_eq
  intro s hmem
  rw [hsteps] at hmem
  simp only [List.mem_append, List.mem_cons] at hmem
  rcases hmem with hmem | rfl | rfl | (hmem | hmem) | hmem
  · exact hbeside s (hl s hmem)
  · exact t.machinery.decoder.keepsDepth
  · refine Step.keeps_filter ?_
    rw [t.filters_graph]
    exact (t.tenBit_plan ht he).keepsDepth_emitted
      (t.machinery.decoder.keepsDepth.next _ (isDeep_initial hs))
  · exact hbeside s (hm s hmem)
  · obtain ⟨q, hq, rfl⟩ := eq_of_mem_pixelFormatSteps hmem
    exact ⟨List.forall_mem_nil _, fun _ _ => ⟨q, rfl, he q hq⟩⟩
  · exact hbeside s (htr s hmem)

end Transcoding

/-- **Ten bits stay ten bits.**  For a ten-bit source and a ten-bit target only an encoder of
`mpeg2video` takes eight bits.  Without it the frames have ten bits all along: before and after the
decoder, after every filter of the main frames and after every later step. -/
theorem states_tenBit (h : c.assembled = .ok a) {d : Decoder}
    (hd : a.pipeline.decoder? = some d) (hs : c.request.video.stream.bitDepth = 10)
    (ht : c.request.target.bitDepth = 10) :
    ((∃ q, a.video.pixelFormat? = some q ∧ q.bitDepth = 8) ↔
      a.video.videoFormat? = some .mpeg2video) ∧
    ((∀ q, a.video.pixelFormat? = some q → q.bitDepth ≠ 8) →
      ∀ f ∈ a.pipeline.states, f.bitDepth = 10) := by
  obtain ⟨t⟩ := transcoding_of_decoder h hd
  rw [t.video_eq]
  refine ⟨t.encodes_eight_iff ht, ?_⟩
  intro hne f hf
  have hv : t.machinery.encoder.videoFormat? ≠ some .mpeg2video := by
    intro hv
    obtain ⟨q, hq, h8⟩ := (t.encodes_eight_iff ht).mpr hv
    exact hne q hq h8
  have hkeeps := t.keepsDepth hs ht (t.isDeep_encoder ht hv)
  have hinitial : a.pipeline.initial.IsDeep := by
    rw [t.initial_eq]
    exact isDeep_initial hs
  exact (Pipeline.forall_mem_states hkeeps hinitial f hf).bitDepth

/-- A ten-bit film of high dynamic range with a clock from a caller, for an accelerator that
decodes, tone-maps, scales and encodes it. -/
def clockedFilm : Compilation where
  request := {
    video := ⟨"film.mkv", {
      codec := "hevc"
      pixelFormatName := some "yuv420p10le"
      frameSize := ⟨3840, 1600⟩
      colorTransfer := some "smpte2084" }⟩
    graphics := some {
      path := "clock.raw"
      size := ⟨1920, 1080⟩
      frameRate := 25 }
    target := {
      videoFormat := .hevc
      bitDepth := 10
      accelerator := .vaapi } }
  capabilities := {
    decoders := [⟨.hevc, [10]⟩]
    encoders := [⟨.hevc, [10]⟩] }
  config := {}

/-- The film is tone-mapped, scaled and padded on the accelerator, comes down for its clock and
goes up again. -/
theorem clockedFilm_tenBit :
    ∃ a, clockedFilm.assembled = .ok a ∧ a.pipeline.mainFilters.length = 5 ∧
      ∀ f ∈ a.pipeline.states, f.bitDepth = 10 := by
  have hr : (clockedFilm.assembled.toOption.bind fun a =>
      a.pipeline.decoder?.bind fun d => a.video.pixelFormat?.map fun q =>
        (d, q, a.pipeline.mainFilters.length)) =
      some (.vaapi, ⟨.yuv420p10le, .p010le⟩, 5) := by decide +kernel
  obtain ⟨a, ha, hr⟩ := exists_assembled hr
  obtain ⟨d, hd, hr⟩ := Option.bind_eq_some_iff.mp hr
  obtain ⟨q, hq, hr⟩ := Option.map_eq_some_iff.mp hr
  simp only [Prod.mk.injEq] at hr
  obtain ⟨rfl, rfl, hlength⟩ := hr
  refine ⟨a, ha, hlength, (states_tenBit ha hd (by decide) rfl).2 ?_⟩
  rintro q' hq'
  rw [hq] at hq'
  cases hq'
  decide

end Compilation

end Playout
