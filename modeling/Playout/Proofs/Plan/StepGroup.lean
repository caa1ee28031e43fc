import Playout.Plan.Compile
import Playout.Proofs.Filter.Picture

/-!
# Groups of steps

The steps of a pipeline come in groups, and what a step has a part in is a matter of its group.

* `Step.group`, `Compilation.group_globalSteps` and its siblings: the groups of steps that a
  compilation lays end to end.
* `Step.isOption`, `Step.besideVideo`, `Step.besideSubtitles`: steps that are options, or have no
  part in the video, or in the subtitles.
* `StepGroup.opens`, `StepGroup.codes`, `StepGroup.ends`: the groups at the start, around the
  codecs and at the end; `Compilation.endingSteps`: the steps after the video.
* `Pipeline.decoder?`, `Pipeline.mainFilters`, `Pipeline.entering`: the decoder of the main
  frames, their filters, and the frames that reach the first filter.
-/

namespace Playout

/-! ## Reading steps -/

/-- The groups of steps, in the order in which a compilation lays them end to end. -/
inductive StepGroup where
  | device
  | general
  | decoder
  | filter
  | muxing
  | rate
  | videoEncoder
  | pixels
  | audioEncoder
  | audio
  | closing
  | subtitles
  | container
  /-- Of the pipelines that need no compilation. -/
  | fixed
deriving DecidableEq

namespace StepGroup

def isOption : StepGroup → Bool
  | decoder | filter | videoEncoder | audioEncoder => false
  | _ => true

def keepsPicture : StepGroup → Bool
  | decoder | filter | pixels => false
  | _ => true

def besideVideo : StepGroup → Bool
  | device | decoder | filter | videoEncoder | rate | pixels => false
  | _ => true

def besideSubtitles : StepGroup → Bool
  | subtitles | container => false
  | _ => true

/-- The groups that a pipeline starts with. -/
def opens : StepGroup → Bool
  | device | general => true
  | _ => false

def codes : StepGroup → Bool
  | decoder | videoEncoder => true
  | _ => false

/-- The groups that a pipeline ends with, after its video. -/
def ends : StepGroup → Bool
  | audioEncoder | audio | closing | subtitles | container => true
  | _ => false

theorem opens_of_ends {g : StepGroup} (h : g.ends = true) : g.opens = false := by
  cases g <;> first | rfl | cases h

theorem codes_of_ends {g : StepGroup} (h : g.ends = true) : g.codes = false := by
  cases g <;> first | rfl | cases h

theorem keepsPicture_of_ends {g : StepGroup} (h : g.ends = true) : g.keepsPicture = true := by
  cases g <;> first | rfl | cases h

theorem besideVideo_of_ends {g : StepGroup} (h : g.ends = true) : g.besideVideo = true := by
  cases g <;> first | rfl | cases h

theorem codes_of_besideVideo {g : StepGroup} (h : g.besideVideo = true) : g.codes = false := by
  cases g <;> first | rfl | cases h

theorem besideSubtitles_of_ends {g : StepGroup} (h : g.ends = false) :
    g.besideSubtitles = true := by
  cases g <;> first | rfl | cases h

end StepGroup

namespace Step

def decoder? : Step → Option Decoder
  | decoder d => some d
  | _ => none

def isFilter : Step → Bool
  | filter _ => true
  | _ => false

/-- Steps that neither decode, filter nor encode. -/
def isOption : Step → Bool
  | global _ | output _ | container _ => true
  | _ => false

/-- Steps without a part in the video: they set up no accelerator, and neither decode, filter nor
encode it, nor set its rates or its pixels. -/
def besideVideo : Step → Bool
  | global (.device _) | decoder _ | filter _ | videoEncoder _ => false
  | output (.videoBitrate _ _) | output (.frameRate _) | output (.pixelFormat _) => false
  | _ => true

/-- Steps without a part in the subtitles, before the container. -/
def besideSubtitles : Step → Bool
  | container _ | output (.subtitleCodec _) => false
  | _ => true

def group : Step → StepGroup
  | global (.device _) => .device
  | global _ => .general
  | decoder _ => .decoder
  | filter _ => .filter
  | output .noMuxDelay | output (.fastStart _) | output .closedGop | output (.sceneChange _)
  | output .noAutoScale | output .timescale => .muxing
  | output (.videoBitrate _ _) | output (.frameRate _) => .rate
  | videoEncoder _ => .videoEncoder
  | output (.pixelFormat _) => .pixels
  | audioEncoder _ => .audioEncoder
  | output (.audioChannels _) | output (.audioBitrate _ _) | output (.sampleRate _) => .audio
  | output (.duration _) | output (.metadata _) => .closing
  | output (.subtitleCodec _) => .subtitles
  | container _ => .container
  | output .copyAll | output (.videoFilter _) => .fixed

def isHardware : Step → Bool
  | decoder d => d.isHardware
  | videoEncoder e => e.isHardware
  | _ => false

/-- The filters of the main frames, the main chain first and then the tail. -/
def mainFilters : Step → List VideoFilter
  | filter g => g.videoFilters ++ g.tail
  | _ => []

variable {s : Step} {steps : List Step}

theorem isOption_eq (s : Step) : s.isOption = s.group.isOption := by
  cases s with
  | global o => cases o <;> rfl
  | output o => cases o <;> rfl
  | _ => rfl

theorem keepsPicture_eq (s : Step) : s.keepsPicture = s.group.keepsPicture := by
  cases s with
  | global o => cases o <;> rfl
  | output o => cases o <;> rfl
  | _ => rfl

theorem besideVideo_eq (s : Step) : s.besideVideo = s.group.besideVideo := by
  cases s with
  | global o => cases o <;> rfl
  | output o => cases o <;> rfl
  | _ => rfl

theorem besideSubtitles_eq (s : Step) : s.besideSubtitles = s.group.besideSubtitles := by
  cases s with
  | global o => cases o <;> rfl
  | output o => cases o <;> rfl
  | _ => rfl

theorem codes_of_isHardware (h : s.isHardware = true) : s.group.codes = true := by
  cases s <;> first | rfl | cases h

theorem decoder?_of_keepsPicture (h : s.keepsPicture = true) : s.decoder? = none := by
  cases s <;> first | rfl | cases h

theorem isFilter_of_keepsPicture (h : s.keepsPicture = true) : s.isFilter = false := by
  cases s <;> first | rfl | cases h

theorem mainFilters_of_keepsPicture (h : s.keepsPicture = true) : s.mainFilters = [] := by
  cases s <;> first | rfl | cases h

theorem videoFormat_next (h : s.isOption = true) (f : Frame) :
    (s.next f).videoFormat = f.videoFormat := by
  cases s with
  | global o => cases o <;> rfl
  | output o => cases o <;> rfl
  | container k => cases k <;> rfl
  | _ => cases h

theorem audioFormat_next (h : s.isOption = true) (f : Frame) :
    (s.next f).audioFormat = f.audioFormat := by
  cases s with
  | global o => cases o <;> rfl
  | output o => cases o <;> rfl
  | container k => cases k <;> rfl
  | _ => cases h

theorem videoFormat_nextAll (h : ∀ s ∈ steps, s.isOption = true) (f : Frame) :
    (nextAll steps f).videoFormat = f.videoFormat := by
  induction steps generalizing f with
  | nil => rfl
  | cons s rest ih =>
    rw [nextAll_cons, ih (fun t ht => h t (List.mem_cons_of_mem s ht)),
      videoFormat_next (h s List.mem_cons_self)]

theorem audioFormat_nextAll (h : ∀ s ∈ steps, s.isOption = true) (f : Frame) :
    (nextAll steps f).audioFormat = f.audioFormat := by
  induction steps generalizing f with
  | nil => rfl
  | cons s rest ih =>
    rw [nextAll_cons, ih (fun t ht => h t (List.mem_cons_of_mem s ht)),
      audioFormat_next (h s List.mem_cons_self)]

theorem flatMap_mainFilters (h : ∀ s ∈ steps, s.keepsPicture = true) :
    steps.flatMap mainFilters = [] :=
  List.flatMap_eq_nil_iff.mpr fun s hs => mainFilters_of_keepsPicture (h s hs)

theorem flatMap_mainFilters_of_isOption (h : ∀ s ∈ steps, s.isOption = true) :
    steps.flatMap mainFilters = [] := by
  refine List.flatMap_eq_nil_iff.mpr fun s hs => ?_
  have := h s hs
  cases s <;> first | rfl | cases this

theorem findSome?_decoder? (h : ∀ s ∈ steps, s.keepsPicture = true) :
    steps.findSome? decoder? = none :=
  List.findSome?_eq_none_iff.mpr fun s hs => decoder?_of_keepsPicture (h s hs)

end Step

namespace Pipeline

def decoder? (p : Pipeline) : Option Decoder := p.steps.findSome? Step.decoder?

def mainFilters (p : Pipeline) : List VideoFilter := p.steps.flatMap Step.mainFilters

def entering (p : Pipeline) : Frame :=
  Step.nextAll (p.steps.takeWhile fun s => !s.isFilter) p.initial

end Pipeline

namespace Compilation

variable {c : Compilation}

/-! ## Steps beside the main path -/

theorem group_globalSteps (usesHardware : Bool) :
    ∀ s ∈ c.globalSteps usesHardware, s.group = .general := by
  intro s hs
  simp only [globalSteps, List.mem_append, Option.mem_toList, Option.map_eq_some_iff] at hs
  rcases hs with (⟨n, -, rfl⟩ | hs) | hs
  · rfl
  · rcases List.mem_cons.mp hs with rfl | hs
    · rfl
    · rw [List.mem_singleton.mp hs]
      rfl
  · split at hs
    · rw [List.mem_singleton.mp hs]
      rfl
    · cases hs

theorem group_containerSteps (e : VideoEncoder) (k : Container) (hardwareFilters : Bool) :
    ∀ s ∈ containerSteps e k hardwareFilters, s.group = .muxing := by
  unfold containerSteps
  intro s hs
  rcases List.mem_append.mp hs with hs | hs
  · rcases List.mem_append.mp hs with hs | hs
    · simp only [List.mem_cons, List.not_mem_nil, or_false] at hs
      rcases hs with rfl | rfl | rfl | rfl <;> rfl
    · split at hs
      · rw [List.mem_singleton.mp hs]
        rfl
      · cases hs
  · split at hs
    · cases hs
    · rw [List.mem_singleton.mp hs]
      rfl

theorem group_rateSteps : ∀ s ∈ c.rateSteps, s.group = .rate := by
  intro s hs
  rcases List.mem_append.mp hs with hs | hs
  · split at hs
    · rw [List.mem_singleton.mp hs]
      rfl
    · cases hs
  · obtain ⟨r, -, rfl⟩ := Option.map_eq_some_iff.mp (Option.mem_toList.mp hs)
    rfl

theorem eq_of_mem_pixelFormatSteps {e : VideoEncoder} {f : Frame} {s : Step}
    (hs : s ∈ pixelFormatSteps e f) :
    ∃ p, e.pixelFormat? = some p ∧ s = .output (.pixelFormat p) := by
  unfold pixelFormatSteps at hs
  split at hs
  · next p hp =>
    split at hs
    · exact ⟨p, hp, List.mem_singleton.mp hs⟩
    · cases hs
  · cases hs

theorem group_pixelFormatSteps (e : VideoEncoder) (f : Frame) :
    ∀ s ∈ pixelFormatSteps e f, s.group = .pixels := by
  intro s hs
  obtain ⟨p, -, rfl⟩ := eq_of_mem_pixelFormatSteps hs
  rfl

theorem group_audioChannelSteps (e : AudioEncoder) :
    ∀ s ∈ c.audioChannelSteps e, s.group = .audio := by
  intro s hs
  unfold audioChannelSteps at hs
  dsimp only at hs
  split at hs
  · rw [List.mem_singleton.mp hs]
    rfl
  · cases hs

/-- The audio encoder comes first, and options for the audio follow it. -/
theorem exists_audioSteps (e : AudioEncoder) :
    ∃ options, c.audioSteps (some e) = .audioEncoder e :: options ∧
      ∀ s ∈ options, s.group = .audio := by
  cases e with
  | copy => exact ⟨[], rfl, by simp⟩
  | aac | ac3 =>
    refine ⟨_, rfl, ?_⟩
    intro s hs
    rcases List.mem_append.mp hs with hs | hs
    · rcases List.mem_append.mp hs with hs | hs
      · exact group_audioChannelSteps _ s hs
      · split at hs
        · rw [List.mem_singleton.mp hs]
          rfl
        · cases hs
    · obtain ⟨r, -, rfl⟩ := Option.map_eq_some_iff.mp (Option.mem_toList.mp hs)
      rfl

theorem mem_audioChannelSteps_iff {e : AudioEncoder} {s : Step} :
    s ∈ c.audioChannelSteps e ↔
      s = .output (.audioChannels c.request.target.audio.channels) ∧
        ((∃ source, c.request.audio = some source ∧
            source.stream.channels ≠ c.request.target.audio.channels) ∨
          e = .aac ∧ 2 < c.request.target.audio.channels.toNat) := by
  unfold audioChannelSteps
  cases c.request.audio with
  | none => simp [and_comm]
  | some source => simp [and_comm]

/-- **The steps of an audio encoder** that does not copy. -/
theorem mem_audioSteps_iff {e : AudioEncoder} (he : e ≠ .copy) {s : Step} :
    s ∈ c.audioSteps (some e) ↔
      s = .audioEncoder e ∨ s ∈ c.audioChannelSteps e ∨
      (∃ rate size, c.request.target.audio.bitrate = some rate ∧
        c.request.target.audio.bufferSize = some size ∧
        s = .output (.audioBitrate rate size)) ∨
      ∃ rate, c.request.target.audio.sampleRate = some rate ∧ s = .output (.sampleRate rate) := by
  cases e with
  | copy => exact absurd rfl he
  | aac | ac3 =>
    simp only [audioSteps, List.mem_append, List.mem_singleton, Option.mem_toList,
      Option.map_eq_some_iff, or_assoc, @eq_comm Step _ s]
    cases c.request.target.audio.bitrate <;> cases c.request.target.audio.bufferSize <;> simp

theorem group_audioSteps (e : Option AudioEncoder) :
    ∀ s ∈ c.audioSteps e, s.group = .audioEncoder ∨ s.group = .audio := by
  cases e with
  | none => simp [audioSteps]
  | some e =>
    obtain ⟨options, ho, hp⟩ := c.exists_audioSteps e
    rw [ho]
    exact List.forall_mem_cons.mpr ⟨.inl rfl, fun s hs => .inr (hp s hs)⟩

theorem group_trailingSteps (subtitle : Option SubtitleMethod) (k : Container) :
    ∀ s ∈ c.trailingSteps subtitle k,
      s.group = .closing ∨ s.group = .subtitles ∨ s.group = .container := by
  intro s hs
  simp only [trailingSteps, List.mem_append, Option.mem_toList, Option.map_eq_some_iff,
    List.mem_singleton] at hs
  rcases hs with ((⟨d, -, rfl⟩ | rfl) | ⟨d, -, rfl⟩) | rfl
  · exact .inl rfl
  · exact .inl rfl
  · exact .inr (.inl rfl)
  · exact .inr (.inr rfl)

theorem ends_audioSteps (e : Option AudioEncoder) :
    ∀ s ∈ c.audioSteps e, s.group.ends = true := by
  intro s hs
  rcases group_audioSteps e s hs with h | h <;> rw [h] <;> rfl

theorem ends_trailingSteps (subtitle : Option SubtitleMethod) (k : Container) :
    ∀ s ∈ c.trailingSteps subtitle k, s.group.ends = true := by
  intro s hs
  rcases group_trailingSteps _ k s hs with h | h | h <;> rw [h] <;> rfl

def endingSteps (c : Compilation) (audio : Option AudioEncoder) (k : Container) : List Step :=
  c.audioSteps audio ++ c.trailingSteps (c.sources.subtitle.map Prod.snd) k

theorem ends_endingSteps (e : Option AudioEncoder) (k : Container) :
    ∀ s ∈ c.endingSteps e k, s.group.ends = true :=
  List.forall_mem_append.mpr ⟨ends_audioSteps e, ends_trailingSteps _ k⟩

theorem isOption_pixelFormatSteps (e : VideoEncoder) (f : Frame) :
    ∀ s ∈ pixelFormatSteps e f, s.isOption = true := by
  intro s hs
  rw [s.isOption_eq, group_pixelFormatSteps _ _ s hs]
  rfl

theorem besideSubtitles_audioSteps (e : Option AudioEncoder) :
    ∀ s ∈ c.audioSteps e, s.besideSubtitles = true := by
  intro s hs
  rw [s.besideSubtitles_eq]
  rcases group_audioSteps e s hs with h | h <;> rw [h] <;> rfl

theorem isOption_audioOptions {options : List Step} (h : ∀ s ∈ options, s.group = .audio) :
    ∀ s ∈ options, s.isOption = true := by
  intro s hs
  rw [s.isOption_eq, h s hs]
  rfl

theorem isOption_trailingSteps (subtitle : Option SubtitleMethod) (k : Container) :
    ∀ s ∈ c.trailingSteps subtitle k, s.isOption = true := by
  intro s hs
  rw [s.isOption_eq]
  rcases group_trailingSteps _ _ s hs with h | h | h <;> rw [h] <;> rfl

end Compilation

end Playout
