import Playout.Proofs.Plan.Assembly

/-!
# Copied video

The encoder that copies is chosen in two ways: because no reason speaks against a copy, and because
the target's video format says so.  Only the first leaves the video alone.

* `Untouched`: a pipeline whose video comes out as it is.
* `Compilation.run_untouched_iff`: when the encoder copies, and when the video is untouched.
-/

namespace Playout

/-- A graph that maps the video as it is. -/
structure Graph.Bare (g : Graph) (video : StreamRef) : Prop where
  videoFilters : g.videoFilters = []
  layers : g.layers = []
  tail : g.tail = []
  mapped : g.videoMap = some video.text

/-- A pipeline whose video comes out as it is: nothing but a graph that maps it, and the encoder
that copies it. -/
structure Untouched (video : StreamRef) (p : Pipeline) : Prop where
  steps : ∀ s ∈ p.steps,
    s.besideVideo = true ∨ s = .videoEncoder .copy ∨ ∃ g, s = .filter g ∧ g.Bare video
  graph : ∃ g, .filter g ∈ p.steps

namespace Compilation

variable {c : Compilation} {a : Assembly}

/-! ## No reason against a copy -/

theorem bare_copiedGraph (c : Compilation) : c.copiedGraph.Bare c.sources.video :=
  ⟨rfl, rfl, rfl, rfl⟩

theorem mem_steps_copied {k : Container} {s : Step} (hs : s ∈ (c.copied k).steps) :
    s.besideVideo = true ∨ s = .videoEncoder .copy ∨ s = .filter c.copiedGraph := by
  rw [copied_layout] at hs
  simp only [List.mem_append, List.mem_cons] at hs
  rcases hs with hs | hs | hs | hs | hs
  · rw [s.besideVideo_eq, group_globalSteps _ s hs]
    exact .inl rfl
  · exact .inr (.inr hs)
  · rw [s.besideVideo_eq, group_containerSteps _ _ _ s hs]
    exact .inl rfl
  · exact .inr (.inl hs)
  · rw [s.besideVideo_eq]
    exact .inl (StepGroup.besideVideo_of_ends (ends_endingSteps _ k s hs))

theorem untouched_copied (c : Compilation) (k : Container) :
    Untouched c.sources.video (c.copied k) := by
  refine ⟨fun s hs => ?_, c.copiedGraph, ?_⟩
  · rcases mem_steps_copied hs with hb | he | hg
    · exact .inl hb
    · exact .inr (.inl he)
    · exact .inr (.inr ⟨_, hg, c.bare_copiedGraph⟩)
  · simp [copied, copiedSteps]

theorem usesHardware_copied (c : Compilation) (k : Container) :
    (c.copied k).usesHardware = false := by
  refine List.any_eq_false.mpr fun s hs hused => ?_
  rcases mem_steps_copied hs with hb | rfl | rfl
  · have hc := Step.codes_of_isHardware hused
    rw [s.besideVideo_eq] at hb
    rw [StepGroup.codes_of_besideVideo hb] at hc
    cases hc
  · cases hused
  · cases hused

theorem encoder_mem_copied (c : Compilation) (k : Container) :
    .videoEncoder .copy ∈ (c.copied k).steps := by
  simp [copied, copiedSteps]

/-! ## Transcoding -/

namespace Transcoding

variable (t : c.Transcoding a)

theorem videoEncoder_mem_iff {e : VideoEncoder} :
    .videoEncoder e ∈ a.pipeline.steps ↔ e = t.machinery.encoder := by
  constructor
  · intro hm
    rcases t.eq_of_codes hm rfl with h | h
    · cases h
    · exact Step.videoEncoder.inj h
  · rintro rfl
    exact t.encoder_mem

/-- The encoder of a transcoding copies only if that is the format asked for. -/
theorem encoder_eq_copy_iff : t.machinery.encoder = .copy ↔ c.videoFormat = .copy := by
  obtain ⟨-, he, -⟩ := machinery_eq_ok t.made
  constructor
  · intro hc
    rw [hc] at he
    exact VideoEncoder.select_eq_copy_iff.mp he
  · intro hc
    have hcopy : VideoEncoder.select c.encoderChoice = .ok .copy := VideoEncoder.select_copy hc
    rw [hcopy] at he
    exact (Except.ok.inj he).symm

include t in
theorem not_untouched (video : StreamRef) : ¬ Untouched video a.pipeline := by
  intro h
  rcases h.steps _ t.decoder_mem with hb | he | ⟨g, hg, -⟩
  · cases hb
  · cases he
  · cases hg

end Transcoding

theorem videoFormat_eq_copy_iff :
    c.videoFormat = .copy ↔
      c.request.settings.container ≠ .nut ∧ c.request.target.videoFormat = .copy := by
  by_cases h : c.request.settings.container = .nut
  · rw [videoFormat_of_nut h]
    simp [h]
  · rw [videoFormat_of_ne_nut h]
    simp [h]

/-! ## Both ways -/

/-- **What `copy` leaves alone.**  The encoder copies where no reason speaks against it, and where
the target's video format is `copy`; but the video is untouched only where no reason speaks against
it.  In the other way it is decoded, and may be filtered. -/
theorem run_untouched_iff {p : Pipeline} (h : c.run = .ok p) :
    (.videoEncoder .copy ∈ p.steps ↔
      c.reasons c.desired = [] ∨
        (c.request.settings.container ≠ .nut ∧ c.request.target.videoFormat = .copy)) ∧
    (Untouched c.sources.video p ↔ c.reasons c.desired = []) := by
  obtain ⟨a, ha, hc⟩ := bind_eq_ok_iff.mp h
  obtain rfl := pipeline_of_checked hc
  by_cases hr : c.reasons c.desired = []
  · obtain ⟨k, rfl⟩ := copied_of_assembled ha hr
    exact ⟨iff_of_true (c.encoder_mem_copied k) (.inl hr), iff_of_true (c.untouched_copied k) hr⟩
  · obtain ⟨t⟩ := transcoding_of_assembled ha hr
    refine ⟨?_, iff_of_false (t.not_untouched _) hr⟩
    rw [t.videoEncoder_mem_iff, eq_comm, t.encoder_eq_copy_iff, videoFormat_eq_copy_iff]
    exact (or_iff_right hr).symm

def wideFilm (t : Target) : Compilation where
  request := {
    video := ⟨"film.mkv", {
      codec := "h264"
      pixelFormatName := some "yuv420p"
      frameSize := ⟨1920, 800⟩ }⟩
    target := t }
  capabilities := {}
  config := {}

/-- For a target of its size, the film is left alone. -/
theorem wideFilm_untouched :
    ∃ p, (wideFilm { resolution := ⟨1920, 800⟩ }).run = .ok p ∧
      .videoEncoder .copy ∈ p.steps ∧
      Untouched (wideFilm { resolution := ⟨1920, 800⟩ }).sources.video p := by
  have hr : (wideFilm { resolution := ⟨1920, 800⟩ }).reasons
      (wideFilm { resolution := ⟨1920, 800⟩ }).desired = [] := by
    decide +kernel
  have hp : (wideFilm { resolution := ⟨1920, 800⟩ }).run.toOption.isSome = true := by
    decide +kernel
  obtain ⟨p, hp⟩ := Option.isSome_iff_exists.mp hp
  have hp := toOption_eq_some_iff.mp hp
  exact ⟨p, hp, (run_untouched_iff hp).1.mpr (.inl hr), (run_untouched_iff hp).2.mpr hr⟩

/-- For the format `copy`, the film is decoded and padded, and its rate is set, in front of an
encoder that copies. -/
theorem wideFilm_touched :
    ∃ p, (wideFilm { videoFormat := .copy }).run = .ok p ∧
      .videoEncoder .copy ∈ p.steps ∧
      .decoder (.software .h264) ∈ p.steps ∧
      p.mainFilters = [.work .software none (.pad ⟨1920, 1080⟩)] ∧
      .output (.videoBitrate 2000 4000) ∈ p.steps ∧
      ¬ Untouched (wideFilm { videoFormat := .copy }).sources.video p := by
  have hall : (wideFilm { videoFormat := .copy }).run.toOption.map (fun p =>
      (decide (.videoEncoder .copy ∈ p.steps), decide (.decoder (.software .h264) ∈ p.steps),
        p.mainFilters, decide (.output (.videoBitrate 2000 4000) ∈ p.steps))) =
      some (true, true, [.work .software none (.pad ⟨1920, 1080⟩)], true) := by
    decide +kernel
  obtain ⟨p, hp, hall⟩ := Option.map_eq_some_iff.mp hall
  simp only [Prod.mk.injEq, decide_eq_true_eq] at hall
  obtain ⟨hcopy, hdecoder, hfilters, hrate⟩ := hall
  refine ⟨p, toOption_eq_some_iff.mp hp, hcopy, hdecoder, hfilters, hrate, fun hu => ?_⟩
  rcases hu.steps _ hdecoder with hb | he | ⟨g, hg, -⟩
  · cases hb
  · cases he
  · cases hg

end Compilation

end Playout
