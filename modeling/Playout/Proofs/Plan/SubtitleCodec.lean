import Playout.Proofs.Plan.Assembly
import Playout.Proofs.Plan.Sources

/-!
# The codec of subtitles

A subtitle that stays a stream is given a codec by one step, and no other step writes one.

* `Step.subtitleCodec?`, `Step.declaresSubtitleCodec`: the codec that a step gives, and whether its
  words say so.
* `Compilation.exists_trailing`: the steps of an assembly end in the same way, copied or not.
* `Compilation.subtitleCodecs_eq`, `Compilation.countP_declaresSubtitleCodec`: there is one such
  step exactly if a subtitle stays a stream.
-/

namespace Playout

namespace Step

def subtitleCodec? : Step → Option SubtitleMethod
  | output (.subtitleCodec m) => some m
  | _ => none

/-- Whether the words of the step begin with a codec for subtitle streams. -/
def declaresSubtitleCodec (s : Step) : Bool :=
  match s.outputOptions with
  | .ok (word :: _) => word == "-c:s"
  | _ => false

variable {s : Step} {steps : List Step}

theorem subtitleCodec?_eq_none (h : s.besideSubtitles = true) : s.subtitleCodec? = none := by
  cases s with
  | output o => cases o <;> first | rfl | cases h
  | _ => rfl

theorem options_videoEncoder (e : VideoEncoder) :
    e.options = [] ∨ ∃ words, e.options = "-c:v" :: words := by
  unfold VideoEncoder.options
  split
  · exact .inl rfl
  · exact .inr ⟨_, rfl⟩

theorem declares_videoEncoder (e : VideoEncoder) :
    (videoEncoder e).declaresSubtitleCodec = false := by
  unfold declaresSubtitleCodec outputOptions
  rcases options_videoEncoder e with h | ⟨words, h⟩
  · dsimp only
    rw [h]
  · dsimp only
    rw [h]
    rfl

theorem declares_eq_false (h : s.besideSubtitles = true) : s.declaresSubtitleCodec = false := by
  cases s with
  | videoEncoder e => exact declares_videoEncoder e
  | output o =>
    cases o with
    | fastStart fragmented => cases fragmented <;> rfl
    | subtitleCodec m => cases h
    | _ => rfl
  | container k => cases h
  | _ => rfl

theorem declares_subtitleCodec (m : SubtitleMethod) :
    (output (.subtitleCodec m)).declaresSubtitleCodec = (m != .burn) := by
  cases m <;> rfl

theorem filterMap_subtitleCodec (h : ∀ s ∈ steps, s.besideSubtitles = true) :
    steps.filterMap subtitleCodec? = [] :=
  List.filterMap_eq_nil_iff.mpr fun s hs => subtitleCodec?_eq_none (h s hs)

theorem countP_declares (h : ∀ s ∈ steps, s.besideSubtitles = true) :
    steps.countP declaresSubtitleCodec = 0 :=
  List.countP_eq_zero.mpr fun s hs => by simp [declares_eq_false (h s hs)]

end Step

namespace Compilation

variable {c : Compilation} {a : Assembly}

/-! ## The steps at the end -/

/-- **The end of an assembly**: nothing before it has a part in the subtitles. -/
theorem exists_trailing (h : c.assembled = .ok a) :
    ∃ lead k, c.container = .ok k ∧
      a.pipeline.steps = lead ++ c.trailingSteps (c.sources.subtitle.map Prod.snd) k ∧
      ∀ s ∈ lead, s.besideSubtitles = true := by
  obtain ⟨lead, k, hk, hsteps, hlead⟩ := exists_ending h
  refine ⟨lead ++ c.audioSteps c.audioEncoder, k, hk, ?_, ?_⟩
  · rw [hsteps, endingSteps, List.append_assoc]
  · refine List.forall_mem_append.mpr ⟨fun s hs => ?_, fun s hs => ?_⟩
    · rw [s.besideSubtitles_eq]
      exact StepGroup.besideSubtitles_of_ends (hlead s hs)
    · exact besideSubtitles_audioSteps _ s hs

/-- The output of a compilation goes to a pipe or into segments. -/
theorem declares_container {k : Container} (h : c.container = .ok k) :
    (Step.container k).declaresSubtitleCodec = false := by
  unfold container at h
  split at h
  · cases h
    rfl
  · cases h
    rfl
  · cases h
    rfl
  · cases h
    rfl
  · split at h
    · cases h
    · cases h
      unfold Step.declaresSubtitleCodec Step.outputOptions Container.arguments
      dsimp only
      cases HlsOutput.segmentFrames _ with
      | error e => rfl
      | ok frames => rfl

theorem besideSubtitles_metadata :
    ∀ s ∈ (c.request.settings.limit?.map fun d => Step.output (.duration d)).toList
        ++ [.output (.metadata c.request.settings.metadata)],
      s.besideSubtitles = true := by
  intro s hs
  simp only [List.mem_append, Option.mem_toList, Option.map_eq_some_iff, List.mem_singleton] at hs
  rcases hs with ⟨d, -, rfl⟩ | rfl
  · rfl
  · rfl

/-- **One step gives the codec** of a subtitle that stays a stream, and there is none without. -/
theorem subtitleCodecs_eq (h : c.assembled = .ok a) :
    a.pipeline.steps.filterMap Step.subtitleCodec? =
      (c.request.carried?.map Subtitle.method).toList := by
  obtain ⟨lead, k, -, he, hlead⟩ := exists_trailing h
  rw [he, trailingSteps, subtitle_sources, List.filterMap_append, List.filterMap_append,
    List.filterMap_append, Step.filterMap_subtitleCodec hlead,
    Step.filterMap_subtitleCodec besideSubtitles_metadata]
  cases c.request.carried? with
  | none => rfl
  | some s => rfl

theorem countP_declaresSubtitleCodec (h : c.assembled = .ok a) :
    a.pipeline.steps.countP Step.declaresSubtitleCodec = c.request.carried?.isSome.toNat := by
  obtain ⟨lead, k, hk, he, hlead⟩ := exists_trailing h
  have hcontainer : [Step.container k].countP Step.declaresSubtitleCodec = 0 := by
    rw [List.countP_singleton, declares_container hk]
    rfl
  rw [he, trailingSteps, subtitle_sources, List.countP_append, List.countP_append,
    List.countP_append, Step.countP_declares hlead,
    Step.countP_declares besideSubtitles_metadata, hcontainer]
  cases hs : c.request.carried? with
  | none => rfl
  | some s =>
    have hm : (s.method != .burn) = true := by
      simpa using (Request.carried?_eq_some_iff.mp hs).2
    simp [Step.declares_subtitleCodec, hm]

end Compilation

end Playout
