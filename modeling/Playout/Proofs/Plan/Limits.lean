import Playout.Proofs.Command.Amounts
import Playout.Proofs.Command.Fields
import Playout.Proofs.Plan.Independence
import Playout.Proofs.Plan.Listed

/-!
# The limits of the rates

A target sets a bitrate, the size of a buffer, or both, for the video and for the audio.  A command
tells the encoders both or nothing, so that a limit which is set alone is lost.

* `Request.KeepsLimits`: each limit that is set ends up in the final state and in the command.
* `Target.PairsLimits`: no limit is set alone.
* `keepsLimits_iff`: the limits are kept exactly if they come in pairs.
-/

namespace Playout

open OutputOption (thousands)

/-- An amount is set by the target, or by the state that it asks for. -/
def Request.Sets (r : Request) (target : Target → Option UInt32) (desired : Frame → Option UInt32)
    (amount : UInt32) : Prop :=
  target r.target = some amount ∨
    ∃ d, r.target.desired r.video.stream r.settings = .ok d ∧ desired d = some amount

/-- The limits that are set are in the final state and in the command, those of the audio where it
is encoded. -/
structure Request.KeepsLimits (r : Request) (p : Pipeline) (words : List String) : Prop where
  videoBitrate : ∀ rate, r.Sets Target.videoBitrate Frame.videoBitrate rate →
    p.final.videoBitrate = some rate ∧ Tells words "-b:v" (thousands rate)
  videoBufferSize : ∀ size, r.Sets Target.videoBufferSize Frame.videoBufferSize size →
    p.final.videoBufferSize = some size ∧ Tells words "-bufsize:v" (thousands size)
  audioBitrate : ∀ e rate, .audioEncoder e ∈ p.steps → e ≠ .copy →
    r.target.audio.bitrate = some rate → Tells words "-b:a" (thousands rate)
  audioBufferSize : ∀ e size, .audioEncoder e ∈ p.steps → e ≠ .copy →
    r.target.audio.bufferSize = some size → Tells words "-bufsize:a" (thousands size)

/-- Bitrates and sizes of buffers are set together, those of the audio where it is encoded. -/
structure Target.PairsLimits (t : Target) : Prop where
  video : t.videoBitrate.isSome = t.videoBufferSize.isSome
  audio : ∀ format, t.audio.audioFormat = some format → format ≠ .copy →
    t.audio.bitrate.isSome = t.audio.bufferSize.isSome

/-- The desired state repeats the target. -/
theorem Request.sets_iff {r : Request} {target : Target → Option UInt32}
    {desired : Frame → Option UInt32}
    (h : ∀ t stream settings, desired (Target.frame t stream settings) = target t)
    {amount : UInt32} : r.Sets target desired amount ↔ target r.target = some amount := by
  constructor
  · rintro (ht | ⟨d, hd, hamount⟩)
    · exact ht
    · rwa [(Target.desired_eq_ok_iff.mp hd).2, h] at hamount
  · exact .inl

/-- Where two limits are told together only, they are told exactly if both are set or none. -/
theorem told_together_iff {words : List String} {bitrate bufferSize : Option UInt32}
    {rateOption sizeOption : String}
    (hrate : ∀ value, Tells words rateOption value ↔
      ∃ rate size, bitrate = some rate ∧ bufferSize = some size ∧ value = thousands rate)
    (hsize : ∀ value, Tells words sizeOption value ↔
      ∃ rate size, bitrate = some rate ∧ bufferSize = some size ∧ value = thousands size) :
    ((∀ rate, bitrate = some rate → Tells words rateOption (thousands rate)) ∧
      ∀ size, bufferSize = some size → Tells words sizeOption (thousands size)) ↔
      bitrate.isSome = bufferSize.isSome := by
  cases bitrate <;> cases bufferSize <;> simp [hrate, hsize]

namespace Compilation

variable {c : Compilation} {a : Assembly} {e : AudioEncoder} {rate size : UInt32}

/-! ## The steps -/

theorem Transcoding.videoBitrate_mem_iff (t : c.Transcoding a) :
    .output (.videoBitrate rate size) ∈ a.pipeline.steps ↔
      c.request.target.videoBitrate = some rate ∧ c.request.target.videoBufferSize = some size := by
  rw [t.rate_mem_iff rfl]
  simp only [rateSteps, List.mem_append, Option.mem_toList, Option.map_eq_some_iff,
    Step.output.injEq, reduceCtorEq, and_false, exists_false, or_false]
  cases c.request.target.videoBitrate <;> cases c.request.target.videoBufferSize <;>
    simp [eq_comm]

theorem audioBitrate_mem_iff (h : c.assembled = .ok a) (he : .audioEncoder e ∈ a.pipeline.steps)
    (hcopy : e ≠ .copy) :
    .output (.audioBitrate rate size) ∈ a.pipeline.steps ↔
      c.request.target.audio.bitrate = some rate ∧
        c.request.target.audio.bufferSize = some size := by
  rw [audio_mem_iff h (.inr rfl), (audioEncoder_mem_iff h).mp he, mem_audioSteps_iff hcopy,
    mem_audioChannelSteps_iff]
  simp

/-- Beside transcoded video the audio is encoded if its format is known, and no copy. -/
theorem encodes_audio_iff (h : c.assembled = .ok a) (hd : a.pipeline.decoder?.isSome = true) :
    (∃ e, .audioEncoder e ∈ a.pipeline.steps ∧ e ≠ .copy) ↔
      ∃ format, c.request.target.audio.audioFormat = some format ∧ format ≠ .copy := by
  rw [isSome_decoder h, decide_eq_true_eq] at hd
  have hencoder : c.audioEncoder = c.request.target.audio.audioFormat.map AudioEncoder.ofFormat :=
    if_neg hd
  simp [audioEncoder_mem_iff h, hencoder, AudioEncoder.ofFormat_eq_copy_iff]

/-! ## The final state -/

theorem Transcoding.videoRates_last (t : c.Transcoding a) :
    Step.last? Step.videoRates? a.pipeline.steps = some (rate, size) ↔
      c.request.target.videoBitrate = some rate ∧ c.request.target.videoBufferSize = some size := by
  have hread : ∀ {s : Step} {x : UInt32 × UInt32},
      s.videoRates? = some x ↔ s = .output (.videoBitrate x.1 x.2) := by
    intro s x
    cases s with
    | output o => cases o <;> simp [Step.videoRates?, Prod.ext_iff]
    | _ => simp [Step.videoRates?]
  rw [Step.last?_eq_some_iff, ← t.videoBitrate_mem_iff]
  · simp [hread]
  · intro s hs u hu x y hx hy
    rw [hread] at hx hy
    rw [hx, t.videoBitrate_mem_iff] at hs
    rw [hy, t.videoBitrate_mem_iff] at hu
    exact Prod.ext (Option.some.inj (hs.1.symm.trans hu.1)) (Option.some.inj (hs.2.symm.trans hu.2))

/-- Limits that are set together are in the final state. -/
theorem Transcoding.videoRates_final (t : c.Transcoding a)
    (hrate : c.request.target.videoBitrate = some rate)
    (hsize : c.request.target.videoBufferSize = some size) :
    a.pipeline.final.videoBitrate = some rate ∧ a.pipeline.final.videoBufferSize = some size := by
  have hlast := t.videoRates_last.mpr ⟨hrate, hsize⟩
  have hbitrate := Step.field_nextAll Frame.videoBitrate
    (fun s f => congrArg Frame.videoBitrate (s.beside_next f)) a.pipeline.steps a.pipeline.initial
  have hbuffer := Step.field_nextAll Frame.videoBufferSize
    (fun s f => congrArg Frame.videoBufferSize (s.beside_next f)) a.pipeline.steps
    a.pipeline.initial
  rw [hlast] at hbitrate hbuffer
  exact ⟨hbitrate, hbuffer⟩

/-! ## The words -/

section

variable {words : List String} {value : String}

theorem Transcoding.tells_videoRates_iff (t : c.Transcoding a) (h : c.assembled = .ok a)
    (hwords : a.pipeline.arguments = .ok words) :
    (Tells words "-b:v" value ↔ ∃ rate size, c.request.target.videoBitrate = some rate ∧
      c.request.target.videoBufferSize = some size ∧ value = thousands rate) ∧
    (Tells words "-bufsize:v" value ↔ ∃ rate size, c.request.target.videoBitrate = some rate ∧
      c.request.target.videoBufferSize = some size ∧ value = thousands size) := by
  obtain ⟨hrate, hsize⟩ := Pipeline.tells_videoRates_iff (file_not_mem h) hwords
  rw [hrate, hsize]
  simp only [t.videoBitrate_mem_iff, and_assoc, and_self]

theorem tells_audioRates_iff (h : c.assembled = .ok a) (he : .audioEncoder e ∈ a.pipeline.steps)
    (hcopy : e ≠ .copy) (hwords : a.pipeline.arguments = .ok words) :
    (Tells words "-b:a" value ↔ ∃ rate size, c.request.target.audio.bitrate = some rate ∧
      c.request.target.audio.bufferSize = some size ∧ value = thousands rate) ∧
    (Tells words "-bufsize:a" value ↔ ∃ rate size, c.request.target.audio.bitrate = some rate ∧
      c.request.target.audio.bufferSize = some size ∧ value = thousands size) := by
  obtain ⟨hrate, hsize⟩ := Pipeline.tells_audioRates_iff (file_not_mem h) hwords
  rw [hrate, hsize]
  simp only [audioBitrate_mem_iff h he hcopy, and_assoc, and_self]

end

end Compilation

/-- **Limits are kept in pairs.**  Of a transcoding, each bitrate and each size of a buffer that
the target or its desired state sets is in the final state and in the command, and each that is set
for an audio encoder is in the command, exactly if none of them is set without the other. -/
theorem keepsLimits_iff {r : Request} {facts : Capabilities} {config : Config} {p : Pipeline}
    {words : List String} (h : compile r facts config = .ok p) (hd : p.decoder?.isSome = true)
    (hwords : p.arguments = .ok words) : r.KeepsLimits p words ↔ r.target.PairsLimits := by
  obtain ⟨a, ha, rfl⟩ := Compilation.assembled_of_run h
  obtain ⟨d, hdecoder⟩ := Option.isSome_iff_exists.mp hd
  obtain ⟨t⟩ := Compilation.transcoding_of_decoder ha hdecoder
  have hvideo := told_together_iff (fun _ => (t.tells_videoRates_iff ha hwords).1)
    fun _ => (t.tells_videoRates_iff ha hwords).2
  have haudio := fun e he hcopy =>
    told_together_iff (fun _ => (Compilation.tells_audioRates_iff (e := e) ha he hcopy hwords).1)
      fun _ => (Compilation.tells_audioRates_iff (e := e) ha he hcopy hwords).2
  have hencodes := Compilation.encodes_audio_iff ha hd
  constructor
  · intro hk
    refine ⟨hvideo.mp ⟨fun rate hrate => (hk.videoBitrate rate (.inl hrate)).2,
      fun size hsize => (hk.videoBufferSize size (.inl hsize)).2⟩, fun format hformat hne => ?_⟩
    obtain ⟨e, he, hcopy⟩ := hencodes.mpr ⟨format, hformat, hne⟩
    exact (haudio e he hcopy).mp ⟨fun rate => hk.audioBitrate e rate he hcopy,
      fun size => hk.audioBufferSize e size he hcopy⟩
  · rintro ⟨hpaired, haudible⟩
    obtain ⟨hrate, hsize⟩ := hvideo.mpr hpaired
    have htold : ∀ e, .audioEncoder e ∈ a.pipeline.steps → e ≠ .copy →
        r.target.audio.bitrate.isSome = r.target.audio.bufferSize.isSome := by
      intro e he hcopy
      obtain ⟨format, hformat, hne⟩ := hencodes.mp ⟨e, he, hcopy⟩
      exact haudible format hformat hne
    refine ⟨fun rate hr => ?_, fun size hs => ?_,
      fun e rate he hcopy => ((haudio e he hcopy).mpr (htold e he hcopy)).1 rate,
      fun e size he hcopy => ((haudio e he hcopy).mpr (htold e he hcopy)).2 size⟩
    · rw [Request.sets_iff fun _ _ _ => rfl] at hr
      rw [hr] at hpaired
      obtain ⟨size, hs⟩ := Option.isSome_iff_exists.mp hpaired.symm
      exact ⟨(t.videoRates_final hr hs).1, hrate rate hr⟩
    · rw [Request.sets_iff fun _ _ _ => rfl] at hs
      rw [hs] at hpaired
      obtain ⟨rate, hr⟩ := Option.isSome_iff_exists.mp hpaired
      exact ⟨(t.videoRates_final hr hs).2, hsize size hs⟩

/-- The film is encoded with the limits that a target sets if nothing else is said. -/
theorem surroundFilm_limits :
    ∃ p words, compile surroundFilm {} {} = .ok p ∧ p.arguments = .ok words ∧
      p.final.videoBitrate = some 2000 ∧ Tells words "-b:v" "2000k" ∧
      Tells words "-bufsize:v" "4000k" ∧ Tells words "-b:a" "192k" ∧
      Tells words "-bufsize:a" "384k" := by
  have hr : ((compile surroundFilm {} {}).toOption.bind fun p => p.arguments.toOption.map fun _ =>
      decide (p.decoder?.isSome = true ∧ .audioEncoder .aac ∈ p.steps)) = some true := by
    decide +kernel
  obtain ⟨p, hp, hr⟩ := Option.bind_eq_some_iff.mp hr
  obtain ⟨words, hwords, hr⟩ := Option.map_eq_some_iff.mp hr
  obtain ⟨hd, he⟩ := of_decide_eq_true hr
  have hp := toOption_eq_some_iff.mp hp
  have hwords := toOption_eq_some_iff.mp hwords
  have hkept := (keepsLimits_iff hp hd hwords).mpr ⟨rfl, fun _ _ _ => rfl⟩
  obtain ⟨hfinal, hrate⟩ := hkept.videoBitrate 2000 (.inl rfl)
  exact ⟨p, words, hp, hwords, hfinal, hrate, (hkept.videoBufferSize 4000 (.inl rfl)).2,
    hkept.audioBitrate .aac 192 he (by decide) rfl,
    hkept.audioBufferSize .aac 384 he (by decide) rfl⟩

def unbufferedFilm : Request where
  video := ⟨"film.mkv", filmOfWidth 1920⟩
  target := { allowCopy := false, videoBufferSize := none }

/-- Its bitrate is lost. -/
theorem unbufferedFilm_limits :
    ∃ p words, compile unbufferedFilm {} {} = .ok p ∧ p.decoder?.isSome = true ∧
      p.arguments = .ok words ∧ unbufferedFilm.target.videoBitrate = some 2000 ∧
      p.final.videoBitrate = none ∧ ¬Tells words "-b:v" "2000k" := by
  have hr : ((compile unbufferedFilm {} {}).toOption.bind fun p =>
      p.arguments.toOption.map fun words => decide (p.decoder?.isSome = true ∧
        unbufferedFilm.target.videoBitrate = some 2000 ∧ p.final.videoBitrate = none ∧
        ¬Tells words "-b:v" "2000k")) = some true := by
    decide +kernel
  obtain ⟨p, hp, hr⟩ := Option.bind_eq_some_iff.mp hr
  obtain ⟨words, hwords, hr⟩ := Option.map_eq_some_iff.mp hr
  obtain ⟨hd, hlost⟩ := of_decide_eq_true hr
  exact ⟨p, words, toOption_eq_some_iff.mp hp, hd, toOption_eq_some_iff.mp hwords, hlost⟩

end Playout
