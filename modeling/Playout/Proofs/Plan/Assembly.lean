import Playout.Proofs.Item.Desired
import Playout.Proofs.Path.Passage
import Playout.Proofs.Plan.Machinery
import Playout.Proofs.Plan.StepGroup

/-!
# Assemblies

What a compilation assembles, and how the way of the main frames is read off its steps.

* `Compilation.assembled_eq_ok`: an assembly either copies the video, or it is a `Transcoding`;
  `copied_of_assembled` and `transcoding_of_assembled` say when.
* `Compilation.picture_final_copied`: a copy leaves the picture as it is.
* `Transcoding.mainFilters_eq`, `Transcoding.picture_entering`, `Transcoding.picture_final`: the
  main path of a transcoding is the stages of its plan, run on decoded frames.
* `Compilation.exists_ending`: how an assembly ends, whether it copies or not;
  `Compilation.audio_mem_iff` and its siblings say which steps that are.
-/

namespace Playout

open VideoFilter

namespace Compilation

variable {c : Compilation}

/-! ## Assemblies -/

def desired (c : Compilation) : Frame :=
  c.request.target.frame c.request.video.stream c.request.settings

def transcodedAssembly (c : Compilation) (d : Frame) (k : Container) : Except Failure Assembly := do
  let m ← c.machinery
  let pipeline ← c.transcoded d k m
  return ⟨pipeline, m.encoder, c.transcodedAudioEncoder⟩

theorem assembled_of_refused {x : Failure}
    (hd : c.request.target.desired c.request.video.stream c.request.settings = .error x) :
    c.assembled = .error x := by
  rw [assembled, hd]
  rfl

theorem assembled_of_uncontained {x : Failure} {d : Frame}
    (hd : c.request.target.desired c.request.video.stream c.request.settings = .ok d)
    (hk : c.container = .error x) : c.assembled = .error x := by
  rw [assembled, hd, hk]
  rfl

theorem assembled_of_copied {d : Frame} {k : Container}
    (hd : c.request.target.desired c.request.video.stream c.request.settings = .ok d)
    (hk : c.container = .ok k) (hr : c.reasons d = []) :
    c.assembled = .ok ⟨c.copied k, .copy, c.copiedAudioEncoder⟩ := by
  rw [assembled, hd, hk]
  exact if_pos hr

theorem assembled_of_transcoded {d : Frame} {k : Container}
    (hd : c.request.target.desired c.request.video.stream c.request.settings = .ok d)
    (hk : c.container = .ok k) (hr : c.reasons d ≠ []) :
    c.assembled = c.transcodedAssembly d k := by
  rw [assembled, hd, hk]
  exact if_neg hr

/-- An assembly that transcodes the video, and what it is made of. -/
structure Transcoding (c : Compilation) (a : Assembly) where
  container : Container
  machinery : Machinery
  layers : List Layer
  files : List InputFile
  contained : c.container = .ok container
  made : c.machinery = .ok machinery
  laid : c.layers ((c.mainPath c.desired machinery).overlayBackend machinery.backend)
    (c.mainPath c.desired machinery).frame c.sources.files = .ok (files, layers)
  eq : a = ⟨⟨c.transcodeSteps container machinery
      (c.graph machinery (c.mainPath c.desired machinery) layers), files, c.initial⟩,
    machinery.encoder, c.transcodedAudioEncoder⟩

theorem prepared_of_assembled {a : Assembly} (h : c.assembled = .ok a) :
    c.request.target.desired c.request.video.stream c.request.settings = .ok c.desired ∧
      ∃ k, c.container = .ok k := by
  unfold assembled at h
  obtain ⟨d, hd, h⟩ := bind_eq_ok_iff.mp h
  obtain ⟨k, hk, -⟩ := bind_eq_ok_iff.mp h
  rw [(Target.desired_eq_ok_iff.mp hd).2] at hd
  exact ⟨hd, k, hk⟩

theorem contained_of_copied {a : Assembly} (h : c.assembled = .ok a)
    (hr : c.reasons c.desired = []) :
    ∃ k, c.container = .ok k ∧ a = ⟨c.copied k, .copy, c.copiedAudioEncoder⟩ := by
  obtain ⟨hd, k, hk⟩ := prepared_of_assembled h
  rw [assembled_of_copied hd hk hr] at h
  exact ⟨k, hk, (Except.ok.inj h).symm⟩

theorem copied_of_assembled {a : Assembly} (h : c.assembled = .ok a)
    (hr : c.reasons c.desired = []) : ∃ k, a = ⟨c.copied k, .copy, c.copiedAudioEncoder⟩ := by
  obtain ⟨k, -, ha⟩ := contained_of_copied h hr
  exact ⟨k, ha⟩

theorem transcoding_of_assembled {a : Assembly} (h : c.assembled = .ok a)
    (hr : c.reasons c.desired ≠ []) : Nonempty (c.Transcoding a) := by
  obtain ⟨hd, k, hk⟩ := prepared_of_assembled h
  rw [assembled_of_transcoded hd hk hr] at h
  obtain ⟨m, hm, h⟩ := bind_eq_ok_iff.mp h
  obtain ⟨p, hp, h⟩ := bind_eq_ok_iff.mp h
  unfold transcoded at hp
  obtain ⟨⟨files, layers⟩, hl, hp⟩ := bind_eq_ok_iff.mp hp
  refine ⟨⟨k, m, layers, files, hk, hm, hl, ?_⟩⟩
  rw [← Except.ok.inj h, ← Except.ok.inj hp]

/-- **The two ways of a compilation.** -/
theorem assembled_eq_ok {a : Assembly} (h : c.assembled = .ok a) :
    (∃ k, c.reasons c.desired = [] ∧ a = ⟨c.copied k, .copy, c.copiedAudioEncoder⟩) ∨
      Nonempty (c.Transcoding a) := by
  by_cases hr : c.reasons c.desired = []
  · obtain ⟨k, ha⟩ := copied_of_assembled h hr
    exact .inl ⟨k, hr, ha⟩
  · exact .inr (transcoding_of_assembled h hr)

theorem pipeline_of_checked {a : Assembly} {p : Pipeline} (h : checked a = .ok p) :
    a.pipeline = p := by
  unfold checked at h
  split at h
  · exact Except.ok.inj h
  · cases h

theorem assembled_of_run {p : Pipeline} (h : c.run = .ok p) :
    ∃ a, c.assembled = .ok a ∧ a.pipeline = p := by
  obtain ⟨a, ha, hc⟩ := bind_eq_ok_iff.mp h
  exact ⟨a, ha, pipeline_of_checked hc⟩

/-! ## Copied video -/

/-- **The layout of a copy's steps.** -/
theorem copied_layout (k : Container) :
    (c.copied k).steps = c.globalSteps false ++ .filter c.copiedGraph ::
      (containerSteps .copy k false ++ .videoEncoder .copy ::
        c.endingSteps c.copiedAudioEncoder k) := by
  simp only [copied, copiedSteps, endingSteps, List.append_assoc, List.cons_append,
    List.nil_append]

/-- A copy filters no video, and no step of it touches the picture. -/
theorem exists_copied_steps_eq (k : Container) :
    ∃ lead trail,
      (c.copied k).steps = lead ++ .filter c.copiedGraph :: trail ∧
      (∀ s ∈ lead, s.keepsPicture = true) ∧ ∀ s ∈ trail, s.keepsPicture = true := by
  refine ⟨_, _, c.copied_layout k, fun s hs => ?_, List.forall_mem_append.mpr
    ⟨fun s hs => ?_, List.forall_mem_cons.mpr ⟨rfl, fun s hs => ?_⟩⟩⟩
  · rw [s.keepsPicture_eq, group_globalSteps _ s hs]
    rfl
  · rw [s.keepsPicture_eq, group_containerSteps _ _ _ s hs]
    rfl
  · rw [s.keepsPicture_eq]
    exact StepGroup.keepsPicture_of_ends (ends_endingSteps _ k s hs)

theorem decoder?_copied (k : Container) : (c.copied k).decoder? = none := by
  obtain ⟨lead, trail, he, hl, ht⟩ := c.exists_copied_steps_eq k
  rw [Pipeline.decoder?, he, List.findSome?_append, Step.findSome?_decoder? hl,
    List.findSome?_cons]
  exact Step.findSome?_decoder? ht

theorem picture_final_copied (k : Container) :
    (c.copied k).final.picture = c.initial.picture := by
  obtain ⟨lead, trail, he, hl, ht⟩ := c.exists_copied_steps_eq k
  have hn : ∀ f, (Step.filter c.copiedGraph).next f = f := fun f => rfl
  rw [Pipeline.final, he, Step.nextAll_append, Step.nextAll_cons, Step.picture_nextAll ht, hn,
    Step.picture_nextAll hl]
  rfl

/-! ## Transcoded video -/

theorem picture_pixelFormatSteps_congr {f g : Frame} (h : f.picture = g.picture)
    (e : VideoEncoder) (x : Frame) :
    (Step.nextAll (pixelFormatSteps e x) f).picture =
      (Step.nextAll (pixelFormatSteps e x) g).picture := by
  unfold pixelFormatSteps
  split
  · split
    · simp only [Frame.picture, Picture.mk.injEq] at h
      obtain ⟨hm, -, hs, hp, ha, hd, hh⟩ := h
      simp [Step.next, OutputOption.next, Frame.picture, hm, hs, hp, ha, hd, hh]
    · exact h
  · exact h

/-- What can be read off an assembly is read off one that there is. -/
theorem exists_assembled {β : Type} {f : Assembly → Option β} {b : β}
    (h : c.assembled.toOption.bind f = some b) : ∃ a, c.assembled = .ok a ∧ f a = some b := by
  cases ha : c.assembled with
  | error e =>
    rw [ha] at h
    cases h
  | ok a =>
    rw [ha] at h
    exact ⟨a, rfl, h⟩

theorem transcoding_of_decoder {a : Assembly} (h : c.assembled = .ok a) {d : Decoder}
    (hd : a.pipeline.decoder? = some d) : Nonempty (c.Transcoding a) := by
  rcases assembled_eq_ok h with ⟨k, -, rfl⟩ | ht
  · have hn : (c.copied k).decoder? = some d := hd
    rw [decoder?_copied] at hn
    cases hn
  · exact ht

namespace Transcoding

variable {a : Assembly} (t : c.Transcoding a)

def plan : PathPlan := c.pathPlan c.desired t.machinery

def decoded : Frame := t.machinery.decoder.next c.initial

def finished : Frame := Stage.advanceAll t.plan.wholeStages t.decoded

def graph : Graph := c.graph t.machinery (c.mainPath c.desired t.machinery) t.layers

theorem coherent : t.machinery.Coherent := machinery_coherent t.made

theorem video_eq : a.video = t.machinery.encoder := congrArg Assembly.video t.eq

include t in
theorem initial_eq : a.pipeline.initial = c.initial :=
  congrArg (fun x : Assembly => x.pipeline.initial) t.eq

theorem steps_eq :
    a.pipeline.steps = c.transcodeSteps t.container t.machinery t.graph :=
  congrArg (fun x : Assembly => x.pipeline.steps) t.eq

theorem filters_graph :
    t.graph.videoFilters ++ t.graph.tail = Stage.emitted t.plan.wholeStages t.decoded :=
  (t.plan.emitted_wholeStages t.decoded).symm

theorem next_graph : t.graph.next t.decoded = t.finished := by
  rw [Graph.next, filters_graph, Stage.nextAll_emitted]
  rfl

/-- The set-up of the accelerator, if it is used, and the options for the whole command. -/
def leadingSteps : List Step :=
  (if t.machinery.usesHardware then [.global (.device (c.deviceSetup t.machinery))] else [])
    ++ c.globalSteps t.machinery.usesHardware

def middleSteps : List Step :=
  containerSteps t.machinery.encoder t.container t.machinery.backend.isHardware ++ c.rateSteps

/-- **The layout of a transcoding's steps.** -/
theorem steps_layout :
    a.pipeline.steps = t.leadingSteps ++ .decoder t.machinery.decoder :: .filter t.graph ::
      (t.middleSteps ++ .videoEncoder t.machinery.encoder ::
        (pixelFormatSteps t.machinery.encoder t.finished
          ++ c.endingSteps c.transcodedAudioEncoder t.container)) := by
  rw [t.steps_eq, transcodeSteps, ← next_graph]
  simp only [leadingSteps, middleSteps, endingSteps, graph, decoded, List.append_assoc,
    List.cons_append, List.nil_append]

theorem group_leadingSteps : ∀ s ∈ t.leadingSteps, s.group = .device ∨ s.group = .general := by
  refine List.forall_mem_append.mpr ⟨fun s hs => ?_, fun s hs => .inr (group_globalSteps _ s hs)⟩
  split at hs
  · rw [List.mem_singleton.mp hs]
    exact .inl rfl
  · cases hs

theorem group_middleSteps : ∀ s ∈ t.middleSteps, s.group = .muxing ∨ s.group = .rate :=
  List.forall_mem_append.mpr ⟨fun s hs => .inl (group_containerSteps _ _ _ s hs),
    fun s hs => .inr (group_rateSteps s hs)⟩

/-- The steps around the decoder, the filters and the conversion keep the picture. -/
theorem exists_steps_eq :
    ∃ lead middle trail,
      a.pipeline.steps = lead ++ .decoder t.machinery.decoder :: .filter t.graph ::
        (middle ++ pixelFormatSteps t.machinery.encoder t.finished ++ trail) ∧
      (∀ s ∈ lead, s.keepsPicture = true) ∧ (∀ s ∈ middle, s.keepsPicture = true) ∧
      ∀ s ∈ trail, s.keepsPicture = true := by
  refine ⟨t.leadingSteps, t.middleSteps ++ [.videoEncoder t.machinery.encoder],
    c.endingSteps c.transcodedAudioEncoder t.container, ?_, fun s hs => ?_,
    List.forall_mem_append.mpr ⟨fun s hs => ?_, List.forall_mem_singleton.mpr rfl⟩,
    fun s hs => ?_⟩
  · rw [t.steps_layout]
    simp only [List.append_assoc, List.cons_append, List.nil_append]
  · rw [s.keepsPicture_eq]
    rcases t.group_leadingSteps s hs with h | h <;> rw [h] <;> rfl
  · rw [s.keepsPicture_eq]
    rcases t.group_middleSteps s hs with h | h <;> rw [h] <;> rfl
  · rw [s.keepsPicture_eq]
    exact StepGroup.keepsPicture_of_ends (ends_endingSteps _ _ s hs)

theorem decoder?_eq : a.pipeline.decoder? = some t.machinery.decoder := by
  obtain ⟨lead, middle, trail, he, hl, -, -⟩ := t.exists_steps_eq
  rw [Pipeline.decoder?, he, List.findSome?_append, Step.findSome?_decoder? hl]
  rfl

theorem mainFilters_eq :
    a.pipeline.mainFilters = Stage.emitted t.plan.wholeStages t.decoded := by
  obtain ⟨lead, middle, trail, he, hl, hm, ht⟩ := t.exists_steps_eq
  rw [Pipeline.mainFilters, he, List.flatMap_append, Step.flatMap_mainFilters hl,
    List.flatMap_cons, List.flatMap_cons, List.flatMap_append, List.flatMap_append,
    Step.flatMap_mainFilters hm, Step.flatMap_mainFilters ht,
    Step.flatMap_mainFilters_of_isOption (isOption_pixelFormatSteps _ _), ← filters_graph]
  simp [Step.mainFilters]

theorem decoder_mem : .decoder t.machinery.decoder ∈ a.pipeline.steps := by
  rw [t.steps_layout]
  simp

theorem encoder_mem : .videoEncoder t.machinery.encoder ∈ a.pipeline.steps := by
  rw [t.steps_layout]
  simp

include t in
theorem rate_mem_iff {s : Step} (hs : s.group = .rate) :
    s ∈ a.pipeline.steps ↔ s ∈ c.rateSteps := by
  have hleading : s ∉ t.leadingSteps := by
    intro hm
    rcases t.group_leadingSteps s hm with h | h <;> rw [h] at hs <;> cases hs
  have hmuxing :
      s ∉ containerSteps t.machinery.encoder t.container t.machinery.backend.isHardware := by
    intro hm
    rw [group_containerSteps _ _ _ s hm] at hs
    cases hs
  have hpixels : s ∉ pixelFormatSteps t.machinery.encoder t.finished := by
    intro hm
    rw [group_pixelFormatSteps _ _ s hm] at hs
    cases hs
  have hending : s ∉ c.endingSteps c.transcodedAudioEncoder t.container := by
    intro hm
    have hends := ends_endingSteps _ _ s hm
    rw [hs] at hends
    cases hends
  have hsingle : s ≠ .decoder t.machinery.decoder ∧ s ≠ .filter t.graph ∧
      s ≠ .videoEncoder t.machinery.encoder := by
    refine ⟨?_, ?_, ?_⟩ <;> rintro rfl <;> cases hs
  rw [t.steps_layout, middleSteps]
  simp [hleading, hmuxing, hpixels, hending, hsingle]

theorem eq_of_codes {s : Step} (hs : s ∈ a.pipeline.steps) (hc : s.group.codes = true) :
    s = .decoder t.machinery.decoder ∨ s = .videoEncoder t.machinery.encoder := by
  rw [t.steps_layout] at hs
  simp only [List.mem_append, List.mem_cons] at hs
  rcases hs with hs | rfl | rfl | hs | rfl | hs | hs
  · rcases t.group_leadingSteps s hs with h | h <;> rw [h] at hc <;> cases hc
  · exact .inl rfl
  · cases hc
  · rcases t.group_middleSteps s hs with h | h <;> rw [h] at hc <;> cases hc
  · exact .inr rfl
  · rw [group_pixelFormatSteps _ _ s hs] at hc
    cases hc
  · rw [StepGroup.codes_of_ends (ends_endingSteps _ _ s hs)] at hc
    cases hc

theorem usesHardware_eq : a.pipeline.usesHardware = t.machinery.usesHardware := by
  rw [Bool.eq_iff_iff, Machinery.usesHardware, Bool.or_eq_true]
  constructor
  · intro hused
    obtain ⟨s, hs, hhard⟩ := List.any_eq_true.mp hused
    rcases t.eq_of_codes hs (Step.codes_of_isHardware hhard) with rfl | rfl
    · exact .inl hhard
    · exact .inr hhard
  · rintro (hd | he)
    · exact List.any_eq_true.mpr ⟨_, t.decoder_mem, hd⟩
    · exact List.any_eq_true.mpr ⟨_, t.encoder_mem, he⟩

theorem memory_decoded : t.decoded.memory = t.machinery.decoder.memory :=
  Decoder.next_memory rfl

theorem picture_entering : a.pipeline.entering.picture = t.decoded.picture := by
  obtain ⟨lead, middle, trail, he, hl, -, -⟩ := t.exists_steps_eq
  have hn : ∀ s ∈ lead, (!s.isFilter) = true := by
    intro s hs
    rw [Step.isFilter_of_keepsPicture (hl s hs)]
    rfl
  rw [Pipeline.entering, he, List.takeWhile_append_of_pos hn, t.initial_eq, Step.nextAll_append]
  exact t.machinery.decoder.picture_next_congr (Step.picture_nextAll hl _)

theorem picture_final :
    a.pipeline.final.picture =
      (Step.nextAll (pixelFormatSteps t.machinery.encoder t.finished) t.finished).picture := by
  obtain ⟨lead, middle, trail, he, hl, hm, ht⟩ := t.exists_steps_eq
  rw [Pipeline.final, he, t.initial_eq, Step.nextAll_append, Step.nextAll_cons, Step.nextAll_cons,
    Step.nextAll_append, Step.nextAll_append, Step.picture_nextAll ht]
  apply picture_pixelFormatSteps_congr
  rw [Step.picture_nextAll hm, ← next_graph]
  apply picture_nextAll_congr
  exact t.machinery.decoder.picture_next_congr (Step.picture_nextAll hl _)

end Transcoding

/-! ## Both ways -/

/-- The audio encoder of an assembly, copied audio beside copied video only. -/
def audioEncoder (c : Compilation) : Option AudioEncoder :=
  if c.reasons c.desired = [] then c.copiedAudioEncoder else c.transcodedAudioEncoder

/-- **How an assembly ends**: the steps after its video do not depend on how the video is made. -/
theorem exists_ending {a : Assembly} (h : c.assembled = .ok a) :
    ∃ lead k, c.container = .ok k ∧
      a.pipeline.steps = lead ++ c.endingSteps c.audioEncoder k ∧
      ∀ s ∈ lead, s.group.ends = false := by
  by_cases hr : c.reasons c.desired = []
  · obtain ⟨k, hk, rfl⟩ := contained_of_copied h hr
    have he : c.audioEncoder = c.copiedAudioEncoder := if_pos hr
    refine ⟨c.globalSteps false ++ .filter c.copiedGraph ::
      (containerSteps .copy k false ++ [.videoEncoder .copy]), k, hk, ?_, fun s hs => ?_⟩
    · rw [copied_layout, he]
      simp only [List.append_assoc, List.cons_append, List.nil_append]
    · simp only [List.mem_append, List.mem_cons, List.not_mem_nil, or_false] at hs
      rcases hs with hs | rfl | hs | rfl
      · rw [group_globalSteps _ s hs]
        rfl
      · rfl
      · rw [group_containerSteps _ _ _ s hs]
        rfl
      · rfl
  · obtain ⟨t⟩ := transcoding_of_assembled h hr
    have he : c.audioEncoder = c.transcodedAudioEncoder := if_neg hr
    refine ⟨t.leadingSteps ++ .decoder t.machinery.decoder :: .filter t.graph ::
      (t.middleSteps ++ .videoEncoder t.machinery.encoder ::
        pixelFormatSteps t.machinery.encoder t.finished), t.container, t.contained, ?_,
      fun s hs => ?_⟩
    · rw [t.steps_layout, he]
      simp only [List.append_assoc, List.cons_append]
    · simp only [List.mem_append, List.mem_cons] at hs
      rcases hs with hs | rfl | rfl | hs | rfl | hs
      · rcases t.group_leadingSteps s hs with h | h <;> rw [h] <;> rfl
      · rfl
      · rfl
      · rcases t.group_middleSteps s hs with h | h <;> rw [h] <;> rfl
      · rfl
      · rw [group_pixelFormatSteps _ _ s hs]
        rfl

/-- The steps of the last groups are those of the ending. -/
theorem exists_mem_steps_iff {a : Assembly} (h : c.assembled = .ok a) :
    ∃ k, c.container = .ok k ∧ ∀ s : Step, s.group.ends = true →
      (s ∈ a.pipeline.steps ↔ s ∈ c.endingSteps c.audioEncoder k) := by
  obtain ⟨lead, k, hk, hsteps, hlead⟩ := exists_ending h
  refine ⟨k, hk, fun s hs => ?_⟩
  rw [hsteps, List.mem_append, or_iff_right]
  intro hm
  rw [hlead s hm] at hs
  cases hs

theorem audio_mem_iff {a : Assembly} (h : c.assembled = .ok a) {s : Step}
    (hs : s.group = .audioEncoder ∨ s.group = .audio) :
    s ∈ a.pipeline.steps ↔ s ∈ c.audioSteps c.audioEncoder := by
  obtain ⟨k, -, hmem⟩ := exists_mem_steps_iff h
  have hends : s.group.ends = true := by rcases hs with hs | hs <;> rw [hs] <;> rfl
  rw [hmem s hends, endingSteps, List.mem_append, or_iff_left]
  intro hm
  rcases group_trailingSteps _ k s hm with hg | hg | hg <;> rw [hg] at hs <;> simp at hs

theorem audioEncoder_mem_iff {a : Assembly} (h : c.assembled = .ok a) {e : AudioEncoder} :
    .audioEncoder e ∈ a.pipeline.steps ↔ c.audioEncoder = some e := by
  rw [audio_mem_iff h (.inl rfl)]
  cases c.audioEncoder with
  | none => simp [audioSteps]
  | some chosen =>
    obtain ⟨options, he, hoptions⟩ := c.exists_audioSteps chosen
    have hno : .audioEncoder e ∉ options := by
      intro hm
      cases hoptions _ hm
    rw [he, List.mem_cons, or_iff_left hno, Step.audioEncoder.injEq, Option.some.injEq, eq_comm]

theorem container_mem_iff {a : Assembly} (h : c.assembled = .ok a) {k : Container} :
    .container k ∈ a.pipeline.steps ↔ c.container = .ok k := by
  obtain ⟨l, hl, hmem⟩ := exists_mem_steps_iff h
  have haudio : .container k ∉ c.audioSteps c.audioEncoder := by
    intro hm
    rcases group_audioSteps _ _ hm with hg | hg <;> cases hg
  rw [hmem _ rfl, endingSteps, List.mem_append, or_iff_right haudio, hl]
  simp only [trailingSteps, List.mem_append, Option.mem_toList, Option.map_eq_some_iff,
    List.mem_singleton, Step.container.injEq, reduceCtorEq, and_false, exists_false, or_false,
    false_or, Except.ok.injEq]
  exact eq_comm

end Compilation

/-- An interlaced 4:3 film, with subtitles burned in, for an accelerator that decodes it, pads it
and encodes it. -/
def subtitledFilm : Compilation where
  request := {
    video := ⟨"film.mkv", {
      codec := "mpeg2video"
      pixelFormatName := some "yuv420p"
      frameSize := ⟨720, 576⟩
      sampleAspectRatio := some "16:15"
      interlaced := true }⟩
    subtitle := some { path := "film.srt", stream := ⟨0, "subrip", none⟩ }
    target := { accelerator := .vaapi } }
  capabilities := {
    decoders := [⟨.mpeg2video, [8]⟩]
    encoders := [⟨.h264, [8]⟩] }
  config := {}

end Playout
