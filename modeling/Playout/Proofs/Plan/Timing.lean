import Playout.Proofs.Plan.Inputs
import Playout.Proofs.Plan.Listed

/-!
# Start and length

A film is played from its start to its finish: the inputs in which a time can be sought are told
the start, and the output is told how much is left until the finish.

* `Settings.seek?_eq_some_iff`, `Settings.limit?_eq_some_iff`: when there is something to tell.
* `Compilation.seek_mem_options_iff`: the files that are sought in.
* `Pipeline.TellsOutput`: what the steps of a pipeline tell the output.
* `Pipeline.Timed`: the times of a pipeline are those of the settings.
* `timed_of_compile`: this holds of every item, copied or transcoded.
-/

namespace Playout

theorem Duration.isZero_eq_false_iff {d : Duration} : d.isZero = false ↔ 0 < d.nanoseconds := by
  rw [isZero, beq_eq_false_iff_ne, Nat.pos_iff_ne_zero]

/-! ## The settings -/

namespace Settings

variable {s : Settings} {d : Duration}

/-- Where an item starts: at the very beginning if nothing is said. -/
def beginning (s : Settings) : Duration := s.start.getD .zero

theorem seek?_eq_some_iff : s.seek? = some d ↔ s.start = some d ∧ 0 < d.nanoseconds := by
  rw [seek?, Option.filter_eq_some_iff, Bool.not_eq_true', Duration.isZero_eq_false_iff]

/-- **There is a length to tell** if the finish is later than the start. -/
theorem limit?_eq_some_iff :
    s.limit? = some d ↔ ∃ finish, s.finish = some finish ∧
      s.beginning.nanoseconds < finish.nanoseconds ∧ d = finish.minus s.beginning := by
  rw [limit?, Option.filter_eq_some_iff, Bool.not_eq_true', Duration.isZero_eq_false_iff,
    Option.map_eq_some_iff]
  constructor
  · rintro ⟨⟨finish, hf, rfl⟩, hpos⟩
    exact ⟨finish, hf, Nat.lt_of_sub_pos hpos, rfl⟩
  · rintro ⟨finish, hf, hlt, rfl⟩
    exact ⟨⟨finish, hf, rfl⟩, Nat.sub_pos_of_lt hlt⟩

end Settings

/-! ## Inputs that are sought in -/

/-- Films and sounds are read from a time on; stills, and what is laid over a film, are not. -/
def InputKind.isSeekable : InputKind → Bool
  | video s => !s.stillImage
  | audio _ => true
  | _ => false

theorem InputOption.appliesTo_seek (d : Duration) (k : InputKind) :
    (seek d).appliesTo k = k.isSeekable := by
  cases k <;> rfl

theorem InputFile.seek_mem_withOptions_iff {path : String} {kind : InputKind}
    {os : List InputOption} {d : Duration} :
    .seek d ∈ (withOptions path kind os).options ↔ .seek d ∈ os ∧ kind.isSeekable = true := by
  rw [mem_options_withOptions, InputOption.appliesTo_seek]

theorem InputOption.start_mem_flags_iff {o : InputOption} {k : InputKind} :
    "-ss" ∈ o.flags k ↔ ∃ start, o = seek start := by
  cases o with
  | infiniteLoop => cases hk : k.isStill <;> simp [flags, hk]
  | _ => simp [flags]

namespace Pipeline

variable {p : Pipeline} {f : InputFile} {value : String}

theorem start_mem_inputWords_iff :
    "-ss" ∈ p.inputWords f ↔ ∃ start, .seek start ∈ f.options := by
  constructor
  · intro hword
    rcases mem_inputWords (by decide) hword with ⟨o, ho, hflag⟩ | ⟨hdecoder, -⟩
    · obtain ⟨start, rfl⟩ := InputOption.start_mem_flags_iff.mp hflag
      exact ⟨start, ho⟩
    · exact absurd hdecoder (by decide)
  · rintro ⟨start, hs⟩
    exact (infix_inputWords hs).subset List.mem_cons_self

theorem tells_start_iff :
    Tells (p.inputArguments f) "-ss" value ↔
      ∃ start, .seek start ∈ f.options ∧ value = start.clock := by
  rw [tells_inputArguments_iff (by decide) (by decide)]
  simp only [InputOption.tells_start_iff]
  grind

end Pipeline

namespace Compilation

variable {c : Compilation} {a : Assembly} {f : InputFile} {d : Duration}

theorem seek_mem_seekOptions_iff :
    .seek d ∈ c.seekOptions ↔ c.request.settings.seek? = some d := by
  simp [seekOptions]

theorem seek_not_mem_readrateOptions : .seek d ∉ c.readrateOptions := by
  unfold readrateOptions
  split <;> simp

/-- **The files that are sought in** are those with films and sounds, and all of them. -/
theorem seek_mem_options_iff (hf : f ∈ c.sourceFiles ++ c.layerFiles) :
    .seek d ∈ f.options ↔
      f.kind.isSeekable = true ∧ c.request.settings.seek? = some d := by
  rcases cases_files hf with rfl | ⟨source, rfl⟩ | ⟨path, rfl⟩ | ⟨w, rfl⟩ | ⟨g, rfl⟩ |
    ⟨path, stream, rfl⟩
  · rw [videoFile, InputFile.seek_mem_withOptions_iff, InputFile.kind_withOptions, and_comm]
    simp [seek_mem_seekOptions_iff, seek_not_mem_readrateOptions]
  · rw [InputFile.seek_mem_withOptions_iff, InputFile.kind_withOptions, and_comm]
    simp [seek_mem_seekOptions_iff, seek_not_mem_readrateOptions]
  · rw [InputFile.kind_withOptions, InputFile.seek_mem_withOptions_iff]
    simp [InputKind.isSeekable]
  · rw [watermarkFile, InputFile.kind_withOptions, InputFile.seek_mem_withOptions_iff]
    simp [InputKind.isSeekable]
  · rw [graphicsFile, InputFile.kind_withOptions, InputFile.seek_mem_withOptions_iff]
    simp [InputKind.isSeekable]
  · simp [InputKind.isSeekable]

end Compilation

/-! ## The output -/

/-- A step of the pipeline tells the output a value. -/
def Pipeline.TellsOutput (p : Pipeline) (option value : String) : Prop :=
  ∃ s ∈ p.steps, ∃ words, s.outputOptions = .ok words ∧ Tells words option value

theorem Pipeline.tellsOutput_length_iff {p : Pipeline} {value : String} :
    p.TellsOutput "-t" value ↔ ∃ d, .output (.duration d) ∈ p.steps ∧ value = d.clock := by
  constructor
  · rintro ⟨s, hs, words, hwords, htells⟩
    have hoption := htells.option_mem
    have hglobal : s.isGlobal = false := by
      cases s with
      | global o =>
        cases hwords
        cases hoption
      | _ => rfl
    have hamount : ("-t", value) ∈ s.amounts := by
      rw [← Step.told_outputOptions hglobal hwords]
      exact mem_told_iff.mpr ⟨by decide, htells⟩
    obtain ⟨d, rfl, hvalue⟩ := Step.length_mem_amounts.mp hamount
    exact ⟨d, hs, hvalue⟩
  · rintro ⟨d, hd, rfl⟩
    exact ⟨_, hd, _, rfl, tells_pair.mpr ⟨rfl, rfl, not_isOption_clock d⟩⟩

theorem Compilation.length_mem_iff {c : Compilation} {a : Assembly} (h : c.assembled = .ok a)
    {d : Duration} :
    .output (.duration d) ∈ a.pipeline.steps ↔ c.request.settings.limit? = some d := by
  obtain ⟨k, -, hmem⟩ := exists_mem_steps_iff h
  have haudio : .output (.duration d) ∉ c.audioSteps c.audioEncoder := by
    intro hm
    rcases group_audioSteps _ _ hm with hg | hg <;> cases hg
  rw [hmem _ rfl, endingSteps, List.mem_append, or_iff_right haudio]
  simp [trailingSteps]

/-! ## Timed pipelines -/

/-- The times of a pipeline are those of the settings.  An input is told a start if a time can be
sought in it and the start is not the very beginning; the output is told a length if the finish is
later than the start.  Read as clock times, they are what the settings say, in whole milliseconds.
Nothing else in the command is told a length. -/
structure Pipeline.Timed (p : Pipeline) (s : Settings) : Prop where
  starts : ∀ f ∈ p.inputs, "-ss" ∈ p.inputWords f ↔
    f.kind.isSeekable = true ∧ ∃ start, s.start = some start ∧ 0 < start.nanoseconds
  startTold : ∀ f ∈ p.inputs, "-ss" ∈ p.inputWords f →
    ∃ value, Tells (p.inputArguments f) "-ss" value
  startShown : ∀ f ∈ p.inputs, ∀ value, Tells (p.inputArguments f) "-ss" value →
    ∃ start, s.start = some start ∧ ClockTime.Shows value start.nanoseconds
  stops : (∃ value, p.TellsOutput "-t" value) ↔
    ∃ finish, s.finish = some finish ∧ s.beginning.nanoseconds < finish.nanoseconds
  lengthShown : ∀ value, p.TellsOutput "-t" value → ∃ finish, s.finish = some finish ∧
    ClockTime.Shows value (finish.nanoseconds - s.beginning.nanoseconds)
  command : ∀ words value, p.arguments = .ok words →
    (Tells words "-t" value ↔ p.TellsOutput "-t" value)

namespace Compilation

variable {c : Compilation} {a : Assembly} {g : Graph}

theorem Wires.seek_mem_options_iff (w : c.Wires a g) {f : InputFile} (hf : f ∈ a.pipeline.inputs)
    {start : Duration} :
    .seek start ∈ f.options ↔ f.kind.isSeekable = true ∧
      c.request.settings.start = some start ∧ 0 < start.nanoseconds := by
  rw [Compilation.seek_mem_options_iff (w.mem_files f hf), Settings.seek?_eq_some_iff]

/-- **The times of an assembly are those of its settings.** -/
theorem timed_of_assembled (h : c.assembled = .ok a) : a.pipeline.Timed c.request.settings := by
  obtain ⟨g, w⟩ := exists_wires h
  refine ⟨fun f hf => ?_, fun f hf hword => ?_, fun f hf value htells => ?_, ?_,
    fun value htells => ?_, fun words value hwords => ?_⟩
  · simp only [Pipeline.start_mem_inputWords_iff, w.seek_mem_options_iff hf, exists_and_left]
  · obtain ⟨start, hs⟩ := Pipeline.start_mem_inputWords_iff.mp hword
    exact ⟨_, Pipeline.tells_start_iff.mpr ⟨start, hs, rfl⟩⟩
  · obtain ⟨start, hs, rfl⟩ := Pipeline.tells_start_iff.mp htells
    exact ⟨start, ((w.seek_mem_options_iff hf).mp hs).2.1, ClockTime.shows_clock start⟩
  · simp only [Pipeline.tellsOutput_length_iff, length_mem_iff h, Settings.limit?_eq_some_iff]
    constructor
    · rintro ⟨-, -, ⟨finish, hfinish, hlt, -⟩, -⟩
      exact ⟨finish, hfinish, hlt⟩
    · rintro ⟨finish, hfinish, hlt⟩
      exact ⟨_, _, ⟨finish, hfinish, hlt, rfl⟩, rfl⟩
  · obtain ⟨d, hd, rfl⟩ := Pipeline.tellsOutput_length_iff.mp htells
    obtain ⟨finish, hfinish, -, rfl⟩ := Settings.limit?_eq_some_iff.mp ((length_mem_iff h).mp hd)
    exact ⟨finish, hfinish, ClockTime.shows_clock _⟩
  · rw [Pipeline.tells_length_iff (file_not_mem h) hwords, Pipeline.tellsOutput_length_iff]

end Compilation

/-- **An item is played from its start to its finish**, whether its video is copied or not. -/
theorem timed_of_compile {r : Request} {facts : Capabilities} {config : Config} {p : Pipeline}
    (h : compile r facts config = .ok p) : p.Timed r.settings := by
  obtain ⟨a, ha, rfl⟩ := Compilation.assembled_of_run h
  exact Compilation.timed_of_assembled ha

/-- A clip of a film with its own sound, from a little more than a minute and a half on. -/
def clip : Request where
  video := ⟨"film.mkv", { codec := "h264", frameSize := ⟨1920, 1080⟩ }⟩
  audio := some ⟨"film.mkv", ⟨1, "aac", 2, none⟩⟩
  settings := {
    start := Duration.ofParts? 90 500400000
    finish := Duration.ofParts? 7200 250000000 }

/-- Its only input is told the start, and its output is told the length, both cut to whole
milliseconds. -/
theorem clip_timed :
    ∃ p main, compile clip {} {} = .ok p ∧ p.inputs = [main] ∧
      (∃ value, Tells (p.inputArguments main) "-ss" value ∧
        ClockTime.Shows value 90500400000) ∧
      ∃ value, p.TellsOutput "-t" value ∧ ClockTime.Shows value 7109749600000 := by
  have hr : (compile clip {} {}).toOption.map (fun p => p.inputs.map fun f => f.kind.isSeekable) =
      some [true] := by decide +kernel
  obtain ⟨p, hp, hkinds⟩ := Option.map_eq_some_iff.mp hr
  have hp := toOption_eq_some_iff.mp hp
  have ht := timed_of_compile hp
  obtain ⟨main, hmain, hseekable⟩ := List.map_eq_singleton_iff.mp hkinds
  have hmem : main ∈ p.inputs := hmain ▸ List.mem_singleton_self main
  obtain ⟨first, hfirst⟩ := ht.startTold main hmem
    ((ht.starts main hmem).mpr ⟨hseekable, _, rfl, by decide⟩)
  obtain ⟨start, hstart, hshown⟩ := ht.startShown main hmem first hfirst
  cases hstart
  obtain ⟨last, hlast⟩ := ht.stops.mpr ⟨_, rfl, by decide⟩
  obtain ⟨finish, hfinish, hlength⟩ := ht.lengthShown last hlast
  cases hfinish
  exact ⟨p, main, hp, hmain, ⟨first, hfirst, hshown⟩, last, hlast, hlength⟩

end Playout
