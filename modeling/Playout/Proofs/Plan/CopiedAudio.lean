import Playout.Proofs.Command.Amounts
import Playout.Proofs.Plan.Fulfilment
import Playout.Proofs.Plan.Independence
import Playout.Proofs.Plan.Listed

/-!
# Copied audio

The audio is copied exactly where it is mapped as it is read.  No chain is made for it then, and
its encoder is told nothing; in every other case it passes one chain, which the resampler leads.

* `Pipeline.audioMap?`, `Pipeline.audioChains`: what the audio is mapped by, and the chains that
  end in its label.
* `LeavesAudio`, `FiltersAudio`: the two ways of the audio.
* `Compilation.audioEncoder_eq_copy_iff`: when the encoder copies.
* `Compilation.run_copies_audio_iff`: which way the audio of a pipeline takes, and why.
-/

namespace Playout

/-! ## The audio of a pipeline -/

def audioOptions : List String := ["-ac", "-ar", "-b:a", "-maxrate:a", "-bufsize:a"]

theorem mem_amountOptions_of_audio : ∀ option ∈ audioOptions, option ∈ amountOptions := by
  decide

theorem Step.group_of_mem_amounts {s : Step} {option value : String}
    (h : (option, value) ∈ s.amounts) (ho : option ∈ audioOptions) : s.group = .audio := by
  have hm : option ∈ s.amounts.map Prod.fst := List.mem_map_of_mem h
  cases s with
  | global o =>
    cases o with
    | threads n =>
      have hthreads : ∀ o ∈ ["-threads"], o ∉ audioOptions := by decide
      exact absurd ho (hthreads option hm)
    | _ => cases h
  | output o =>
    cases o with
    | videoBitrate rate size =>
      have hvideo : ∀ o ∈ ["-b:v", "-maxrate:v", "-bufsize:v"], o ∉ audioOptions := by decide
      exact absurd ho (hvideo option hm)
    | duration d =>
      have hlength : ∀ o ∈ ["-t"], o ∉ audioOptions := by decide
      exact absurd ho (hlength option hm)
    | audioChannels | audioBitrate | sampleRate => rfl
    | _ => cases h
  | container k =>
    cases k with
    | hls output =>
      have hkeyframes : ∀ o ∈ ["-g", "-keyint_min"], o ∉ audioOptions := by decide
      exact absurd ho (hkeyframes option hm)
    | _ => cases h
  | _ => cases h

namespace Pipeline

def maps (p : Pipeline) : List String := p.graphs.flatMap Graph.maps

/-- What the audio is mapped by: the video is mapped before it. -/
def audioMap? (p : Pipeline) : Option String := p.maps[1]?

def audioChains (p : Pipeline) : List Chain :=
  p.graphs.flatMap fun g => g.chains.filter fun c => c.output == "a"

end Pipeline

/-- A pipeline that does nothing to the audio: there is no chain for it, and no channels, rate or
buffer that its encoder is told. -/
structure LeavesAudio (p : Pipeline) : Prop where
  chains : p.audioChains = []
  options : ∀ s ∈ p.steps, s.group ≠ .audio
  told : ∀ words, p.arguments = .ok words → ∀ option ∈ audioOptions, ∀ value,
    ¬Tells words option value

/-- A pipeline that maps what one chain makes of the audio, after the resampler. -/
structure FiltersAudio (audio : StreamRef) (p : Pipeline) : Prop where
  mapped : p.audioMap? = some "[a]"
  chains : ∃ filters : List AudioFilter, p.audioChains =
    [⟨[.stream audio], (AudioFilter.resample :: filters).map AudioFilter.call, "a"⟩]

theorem StreamRef.text_ne_label (ref : StreamRef) : ref.text ≠ "[a]" := by
  intro h
  have hcolon : ':' ∈ ref.text.toList := by simp [text]
  rw [h] at hcolon
  revert hcolon
  decide

namespace Compilation

variable {c : Compilation} {a : Assembly} {g : Graph}

/-! ## When the encoder copies -/

/-- **The encoder of the audio copies** beside copied video if nothing speaks against a copy of a
stream that there is, and beside all video if that is the format asked for. -/
theorem audioEncoder_eq_copy_iff :
    c.audioEncoder = some .copy ↔
      (c.reasons c.desired = [] ∧ ∃ source, c.request.audio = some source ∧
        audioReasons source.stream c.request.target.audio c.request.target.allowCopy = []) ∨
      c.request.target.audio.audioFormat = some .copy := by
  unfold audioEncoder
  split
  · next hr =>
    have hany : (c.request.audio.any fun source =>
        (audioReasons source.stream c.request.target.audio c.request.target.allowCopy).isEmpty) =
          true ↔ ∃ source, c.request.audio = some source ∧
        audioReasons source.stream c.request.target.audio c.request.target.allowCopy = [] := by
      simp [Option.any_eq_true]
    rw [and_iff_right hr, ← hany, ← AudioEncoder.select_eq_copy_iff]
    unfold copiedAudioEncoder
    dsimp only
    split
    · next hcopies => exact iff_of_true rfl (.inl hcopies)
    · next hcopies => exact (or_iff_right hcopies).symm
  · next hr =>
    rw [transcodedAudioEncoder, AudioEncoder.select_eq_copy_iff, or_iff_right fun h => hr h.1]

/-! ## The two ways -/

theorem audioMap?_eq (w : c.Wires a g) : a.pipeline.audioMap? = g.audioMap := by
  obtain ⟨video, audio, -, haudio, hmaps⟩ := w.maps_eq
  rw [Pipeline.audioMap?, Pipeline.maps, w.graphs, List.flatMap_singleton, hmaps, haudio]
  rfl

theorem audioChains_eq (w : c.Wires a g) : a.pipeline.audioChains = g.audioChains := by
  rw [Pipeline.audioChains, w.graphs, List.flatMap_singleton, Graph.filter_audio]

/-- Audio that is copied is mapped as it is read. -/
theorem plainGraph_of_copied (he : c.audioEncoder = some .copy) :
    c.plainGraph.audioChains = [] ∧ c.plainGraph.audioMap = some c.sources.audio.text := by
  have hf : c.audioFilters c.audioEncoder = [] := if_pos he
  rw [plainGraph, hf]
  exact ⟨rfl, rfl⟩

/-- Other audio passes the resampler, and what the target wants behind it. -/
theorem plainGraph_of_encoded (he : c.audioEncoder ≠ some .copy) :
    (∃ filters : List AudioFilter, c.plainGraph.audioChains =
      [⟨[.stream c.sources.audio], (AudioFilter.resample :: filters).map AudioFilter.call, "a"⟩]) ∧
    c.plainGraph.audioMap = some "[a]" := by
  have hf : c.audioFilters c.audioEncoder =
      AudioFilter.chain c.request.target.audio.loudness c.request.target.audio.padTo := if_neg he
  rw [plainGraph, hf]
  exact ⟨⟨_, rfl⟩, rfl⟩

theorem leavesAudio_of_copied (h : c.assembled = .ok a) (he : c.audioEncoder = some .copy) :
    LeavesAudio a.pipeline := by
  obtain ⟨g, w, hchains, -, -⟩ := exists_graph_beside h
  have hoptions : ∀ s ∈ a.pipeline.steps, s.group ≠ .audio := by
    intro s hs hgroup
    have hm := (audio_mem_iff h (.inr hgroup)).mp hs
    rw [he] at hm
    rw [List.mem_singleton.mp hm] at hgroup
    cases hgroup
  refine ⟨?_, hoptions, fun words hwords option ho value ht => ?_⟩
  · rw [audioChains_eq w, hchains, (plainGraph_of_copied he).1]
  · obtain ⟨s, hs, hamount⟩ :=
      (Pipeline.tells_iff (file_not_mem h) hwords (mem_amountOptions_of_audio option ho)).mp ht
    exact hoptions s hs (Step.group_of_mem_amounts hamount ho)

theorem filtersAudio_of_encoded (h : c.assembled = .ok a) (he : c.audioEncoder ≠ some .copy) :
    FiltersAudio c.sources.audio a.pipeline := by
  obtain ⟨g, w, hchains, hmap, -⟩ := exists_graph_beside h
  obtain ⟨hone, hlabel⟩ := plainGraph_of_encoded he
  refine ⟨?_, ?_⟩
  · rw [audioMap?_eq w, hmap, hlabel]
  · rw [audioChains_eq w, hchains]
    exact hone

theorem mapped_iff (h : c.assembled = .ok a) :
    a.pipeline.audioMap? = some c.sources.audio.text ↔ c.audioEncoder = some .copy := by
  constructor
  · intro hm
    by_contra he
    rw [(filtersAudio_of_encoded h he).mapped] at hm
    exact c.sources.audio.text_ne_label (Option.some.inj hm).symm
  · intro he
    obtain ⟨g, w, -, hmap, -⟩ := exists_graph_beside h
    rw [audioMap?_eq w, hmap, (plainGraph_of_copied he).2]

/-- **Audio is copied exactly where it is left alone.**  The encoder copies if and only if the audio
is mapped as it is read; nothing is done to it then, and else it is mapped from one chain that the
resampler leads.  Where no reason speaks against a copy of the video, a stream is copied with it if
none speaks against that either or the target asks for a copy; where the video is transcoded, only
if the target asks for one. -/
theorem run_copies_audio_iff {p : Pipeline} (h : c.run = .ok p) :
    Resolves c.request p.inputs .audio c.sources.audio ∧
    (.audioEncoder .copy ∈ p.steps ↔ p.audioMap? = some c.sources.audio.text) ∧
    (.audioEncoder .copy ∈ p.steps → LeavesAudio p) ∧
    (.audioEncoder .copy ∉ p.steps → FiltersAudio c.sources.audio p) ∧
    (c.reasons c.desired = [] → ∀ source, c.request.audio = some source →
      (.audioEncoder .copy ∈ p.steps ↔
        audioReasons source.stream c.request.target.audio c.request.target.allowCopy = [] ∨
          c.request.target.audio.audioFormat = some .copy)) ∧
    (c.reasons c.desired ≠ [] →
      (.audioEncoder .copy ∈ p.steps ↔ c.request.target.audio.audioFormat = some .copy)) := by
  obtain ⟨a, ha, rfl⟩ := assembled_of_run h
  obtain ⟨g, w⟩ := exists_wires ha
  rw [audioEncoder_mem_iff ha]
  refine ⟨c.resolves_audio.mono w.sources_extended, (mapped_iff ha).symm, leavesAudio_of_copied ha,
    filtersAudio_of_encoded ha, fun hr source hs => ?_, fun hr => ?_⟩
  · rw [audioEncoder_eq_copy_iff, and_iff_right hr, hs]
    simp
  · rw [audioEncoder_eq_copy_iff, or_iff_right fun hc => hr hc.1]

def stereoFilm (t : Target) : Compilation where
  request := {
    video := ⟨"film.mkv", filmOfWidth 1920⟩
    audio := some ⟨"film.mkv", ⟨1, "aac", 2, none⟩⟩
    target := t }
  capabilities := {}
  config := {}

/-- The sound of the film is copied with it, and filtered where its loudness is to be evened out. -/
theorem stereoFilm_copies_audio :
    ∃ p q, (stereoFilm {}).run = .ok p ∧
      (stereoFilm { audio := { loudness := .loudNorm } }).run = .ok q ∧
      .videoEncoder .copy ∈ p.steps ∧ .videoEncoder .copy ∈ q.steps ∧
      p.audioMap? = some "0:1" ∧ LeavesAudio p ∧
      .audioEncoder .aac ∈ q.steps ∧ FiltersAudio ⟨0, 1⟩ q := by
  have hcopied : (stereoFilm {}).run.toOption.map (fun p =>
      decide (.videoEncoder .copy ∈ p.steps ∧ .audioEncoder .copy ∈ p.steps)) = some true := by
    decide +kernel
  have hfiltered : (stereoFilm { audio := { loudness := .loudNorm } }).run.toOption.map (fun q =>
      decide (.videoEncoder .copy ∈ q.steps ∧ .audioEncoder .aac ∈ q.steps ∧
        .audioEncoder .copy ∉ q.steps)) = some true := by
    decide +kernel
  obtain ⟨p, hp, hcopied⟩ := Option.map_eq_some_iff.mp hcopied
  obtain ⟨q, hq, hfiltered⟩ := Option.map_eq_some_iff.mp hfiltered
  obtain ⟨hvideo, haudio⟩ := of_decide_eq_true hcopied
  obtain ⟨hvideo', haac, haudio'⟩ := of_decide_eq_true hfiltered
  have hp := toOption_eq_some_iff.mp hp
  have hq := toOption_eq_some_iff.mp hq
  obtain ⟨-, hmapped, hleaves, -⟩ := run_copies_audio_iff hp
  obtain ⟨-, -, -, hfilters, -⟩ := run_copies_audio_iff hq
  exact ⟨p, q, hp, hq, hvideo, hvideo', hmapped.mp haudio, hleaves haudio, haac, hfilters haudio'⟩

end Compilation

end Playout
