import Playout.Proofs.Command.Amounts
import Playout.Proofs.Plan.Independence
import Playout.Proofs.Plan.Listed
import Playout.Proofs.Plan.Refusal

/-!
# The channels of the audio

A command tells the encoder the channels that are wanted, or the audio that is read has them
already; unless the audio is silence in one of its two layouts, and the layout does not suit.

* `silentChannels?`: the channels of generated silence, read off its path.
* `Pipeline.channelsRead?`: the channels of the audio that a pipeline reads.
* `Request.SilenceMisfits`: the silence that is read has other channels than are wanted.
* `channels_suit_iff`: that is the only case in which the channels are left as they are.
-/

namespace Playout

def silentLayouts : List (String × UInt32) := [("stereo", 2), ("5.1", 6)]

/-- The channels of generated silence, by the layout in its path. -/
def silentChannels? (path : String) : Option UInt32 :=
  (silentLayouts.find? fun l =>
    ("anullsrc=channel_layout=" ++ l.1 ++ ":").toList.isPrefixOf path.toList).map Prod.snd

theorem silentChannels?_silence (wanted : UInt32) :
    silentChannels? (InputFile.silence wanted).path =
      some (if 2 < wanted.toNat then 6 else 2) := by
  unfold InputFile.silence
  dsimp only
  split <;> decide

namespace Pipeline

def audioFile? (p : Pipeline) : Option InputFile :=
  p.graphs.head?.bind fun g => g.audio.bind fun ref => p.inputs[ref.input]?

/-- The channels of the audio that is read: those of the request's stream, or of silence. -/
def channelsRead? (p : Pipeline) (r : Request) : Option UInt32 :=
  match r.audio with
  | some source => some source.stream.channels
  | none => p.audioFile?.bind fun f => silentChannels? f.path

theorem channelsRead?_of_audio {r : Request} {source : AudioSource} (h : r.audio = some source)
    (p : Pipeline) : p.channelsRead? r = some source.stream.channels := by
  rw [channelsRead?, h]

end Pipeline

/-- The request has no audio, no layout of silence has the channels that are wanted, and the
encoder is not told them in any case. -/
def Request.SilenceMisfits (r : Request) (e : AudioEncoder) : Prop :=
  r.audio = none ∧
    (r.target.audio.channels = 1 ∨
      (e = .ac3 ∧ 2 < r.target.audio.channels.toNat ∧ r.target.audio.channels ≠ 6))

namespace Compilation

variable {c : Compilation} {a : Assembly} {e : AudioEncoder}

/-! ## What is read -/

theorem exists_audioFile (h : c.assembled = .ok a) :
    ∃ f, a.pipeline.audioFile? = some f ∧ f.path = c.audioFile.1.path := by
  obtain ⟨g, w⟩ := exists_wires h
  obtain ⟨f, hf, hstream⟩ := resolves_iff.mp (c.resolves_audio.mono w.sources_extended)
  rw [stream?_audio, Option.some.injEq, Prod.mk.injEq] at hstream
  refine ⟨f, ?_, hstream.1.symm⟩
  rw [Pipeline.audioFile?, w.graphs, List.head?_cons, Option.bind_some, w.audio,
    Option.bind_some, hf]

theorem channelsRead_of_silence (h : c.assembled = .ok a) (hs : c.request.audio = none) :
    a.pipeline.channelsRead? c.request =
      some (if 2 < c.request.target.audio.channels.toNat then 6 else 2) := by
  obtain ⟨f, hf, hpath⟩ := exists_audioFile h
  have hsilence : c.audioFile.1.path =
      (InputFile.silence c.request.target.audio.channels).path := by
    rw [audioFile, hs]
    exact InputFile.path_add _ _
  rw [Pipeline.channelsRead?, hs]
  dsimp only
  rw [hf, Option.bind_some, hpath, hsilence, silentChannels?_silence]

/-! ## What is told -/

/-- The encoder is told the channels if the source has others, or if AAC is to have more than
two. -/
theorem channels_mem_iff (h : c.assembled = .ok a) (he : .audioEncoder e ∈ a.pipeline.steps)
    (hcopy : e ≠ .copy) {n : UInt32} :
    .output (.audioChannels n) ∈ a.pipeline.steps ↔
      n = c.request.target.audio.channels ∧
        ((∃ source, c.request.audio = some source ∧
            source.stream.channels ≠ c.request.target.audio.channels) ∨
          e = .aac ∧ 2 < c.request.target.audio.channels.toNat) := by
  rw [audio_mem_iff h (.inr rfl), (audioEncoder_mem_iff h).mp he, mem_audioSteps_iff hcopy,
    mem_audioChannelSteps_iff]
  simp

theorem tells_channels_iff (h : c.assembled = .ok a) (he : .audioEncoder e ∈ a.pipeline.steps)
    (hcopy : e ≠ .copy) {words : List String} (hwords : a.pipeline.arguments = .ok words)
    (value : String) :
    Tells words "-ac" value ↔
      value = toString c.request.target.audio.channels.toNat ∧
        ((∃ source, c.request.audio = some source ∧
            source.stream.channels ≠ c.request.target.audio.channels) ∨
          e = .aac ∧ 2 < c.request.target.audio.channels.toNat) := by
  rw [Pipeline.tells_channels_iff (file_not_mem h) hwords]
  constructor
  · rintro ⟨n, hn, rfl⟩
    obtain ⟨rfl, hneeded⟩ := (channels_mem_iff h he hcopy).mp hn
    exact ⟨rfl, hneeded⟩
  · rintro ⟨rfl, hneeded⟩
    exact ⟨_, (channels_mem_iff h he hcopy).mpr ⟨rfl, hneeded⟩, rfl⟩

end Compilation

/-- With the channels of its layout, silence needs none told; with others, only AAC is told. -/
theorem silence_suits_iff {wanted : UInt32} {e : AudioEncoder} (hwanted : wanted ≠ 0)
    (hcopy : e ≠ .copy) :
    ((e = .aac ∧ 2 < wanted.toNat) ∨ (if 2 < wanted.toNat then 6 else 2) = wanted) ↔
      ¬(wanted = 1 ∨ (e = .ac3 ∧ 2 < wanted.toNat ∧ wanted ≠ 6)) := by
  have hzero : wanted.toNat ≠ 0 := fun h => hwanted (UInt32.toNat_inj.mp h)
  have hone : wanted = 1 ↔ wanted.toNat = 1 := UInt32.toNat_inj.symm
  have hsix : 6 = wanted ↔ wanted.toNat = 6 := by rw [eq_comm]; exact UInt32.toNat_inj.symm
  have htwo : 2 = wanted ↔ wanted.toNat = 2 := by rw [eq_comm]; exact UInt32.toNat_inj.symm
  rw [Ne, eq_comm (a := wanted) (b := 6)]
  split
  · next hmany =>
    rw [hone, hsix]
    cases e with
    | copy => exact absurd rfl hcopy
    | aac => simp [hmany]; omega
    | ac3 => simp [hmany]; omega
  · next hfew =>
    rw [hone, htwo]
    simp [hfew]
    omega

/-- **The audio gets the channels that are wanted.**  Where audio is encoded, the command tells the
encoder the target's channels, or the audio that is read has them: the stream of the request, or
silence in the layout that is generated.  The only exception is silence that `SilenceMisfits`; and
no other number of channels is told in any case. -/
theorem channels_suit_iff {r : Request} {facts : Capabilities} {config : Config} {p : Pipeline}
    {words : List String} {e : AudioEncoder} (h : compile r facts config = .ok p)
    (hwords : p.arguments = .ok words) (he : .audioEncoder e ∈ p.steps) (hcopy : e ≠ .copy) :
    ((Tells words "-ac" (toString r.target.audio.channels.toNat) ∨
        p.channelsRead? r = some r.target.audio.channels) ↔ ¬r.SilenceMisfits e) ∧
    ∀ value, Tells words "-ac" value → value = toString r.target.audio.channels.toNat := by
  obtain ⟨a, ha, rfl⟩ := Compilation.assembled_of_run h
  have htells := Compilation.tells_channels_iff ha he hcopy hwords
  refine ⟨?_, fun value hv => ((htells value).mp hv).1⟩
  obtain ⟨hdesired, -⟩ := Compilation.prepared_of_assembled ha
  have hvalid := Target.problem?_eq_none_iff.mp (Target.desired_eq_ok_iff.mp hdesired).1
  rw [htells, and_iff_right rfl, Request.SilenceMisfits]
  dsimp only
  cases hs : r.audio with
  | none =>
    rw [Compilation.channelsRead_of_silence ha hs]
    simpa using silence_suits_iff hvalid.audioChannels hcopy
  | some source =>
    rw [Pipeline.channelsRead?_of_audio hs]
    by_cases heq : source.stream.channels = r.target.audio.channels
    · simp [heq]
    · simp [heq]

/-- The surround sound of the film is told to become stereo. -/
theorem surroundFilm_channels :
    ∃ p words, compile surroundFilm {} {} = .ok p ∧ p.arguments = .ok words ∧
      p.channelsRead? surroundFilm = some 6 ∧ Tells words "-ac" "2" := by
  have hr : ((compile surroundFilm {} {}).toOption.bind fun p => p.arguments.toOption.map fun _ =>
      decide (.audioEncoder .aac ∈ p.steps)) = some true := by
    decide +kernel
  obtain ⟨p, hp, hr⟩ := Option.bind_eq_some_iff.mp hr
  obtain ⟨words, hwords, hr⟩ := Option.map_eq_some_iff.mp hr
  have hp := toOption_eq_some_iff.mp hp
  have hwords := toOption_eq_some_iff.mp hwords
  have hread : p.channelsRead? surroundFilm = some 6 := rfl
  have hsuits := (channels_suit_iff hp hwords (of_decide_eq_true hr) (by decide)).1.mpr fun h =>
    nomatch h.1
  refine ⟨p, words, hp, hwords, hread, hsuits.resolve_right ?_⟩
  rw [hread]
  decide

def silentFilm : Request where
  video := ⟨"film.mkv", filmOfWidth 1920⟩
  target := { audio := { channels := 1 } }

/-- Its silence is generated in stereo, and the encoder is not told the one channel. -/
theorem silentFilm_channels :
    ∃ p words, compile silentFilm {} {} = .ok p ∧ p.arguments = .ok words ∧
      .audioEncoder .aac ∈ p.steps ∧ p.channelsRead? silentFilm = some 2 ∧
      ¬Tells words "-ac" (toString silentFilm.target.audio.channels.toNat) := by
  have hr : ((compile silentFilm {} {}).toOption.bind fun p => p.arguments.toOption.map fun words =>
      decide (.audioEncoder .aac ∈ p.steps ∧ p.channelsRead? silentFilm = some 2 ∧
        ¬Tells words "-ac" (toString silentFilm.target.audio.channels.toNat))) = some true := by
    decide +kernel
  obtain ⟨p, hp, hr⟩ := Option.bind_eq_some_iff.mp hr
  obtain ⟨words, hwords, hr⟩ := Option.map_eq_some_iff.mp hr
  exact ⟨p, words, toOption_eq_some_iff.mp hp, toOption_eq_some_iff.mp hwords,
    of_decide_eq_true hr⟩

end Playout
