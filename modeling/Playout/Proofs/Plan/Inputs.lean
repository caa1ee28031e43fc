import Playout.Command.Fixed
import Playout.Proofs.Command.Inputs
import Playout.Proofs.Plan.Resolution

/-!
# The options of a pipeline's inputs

Whatever roles of a request share a file, the options that end up before its path apply to it.

* `Compilation.cases_files`, `Compilation.applies_files`: the files that a compilation registers,
  and that their options apply.
* `Compilation.Wires.mem_files`, `Compilation.Wires.suits_inputs`: the inputs are kept of them.
* `inputs_suited`: the inputs of every pipeline carry the options of their kind.
-/

namespace Playout

namespace Compilation

variable {c : Compilation} {a : Assembly} {g : Graph}

/-- **The files that a compilation reads.**  Silence is read where there is no audio; a subtitle has
no options. -/
theorem cases_files {f : InputFile} (hf : f ∈ c.sourceFiles ++ c.layerFiles) :
    f = c.videoFile ∨
      (∃ source : AudioSource, f = .withOptions source.path (.audio source.stream)
        (c.seekOptions ++ (if c.request.settings.infiniteLoop then [.infiniteLoop] else [])
          ++ c.readrateOptions)) ∨
      (∃ path, f = .withOptions path .silence [.lavfiFormat]) ∨
      (∃ w, f = watermarkFile w) ∨ (∃ g, f = graphicsFile g) ∨
      ∃ path stream, f = ⟨path, .subtitle stream, []⟩ := by
  simp only [sourceFiles, layerFiles, List.mem_append, List.mem_cons, List.not_mem_nil, or_false,
    Option.mem_toList, Option.map_eq_some_iff] at hf
  rcases hf with ((rfl | rfl) | ⟨s, -, rfl⟩) | (⟨s, -, rfl⟩ | ⟨w, -, rfl⟩) | ⟨g, -, rfl⟩
  · exact .inl rfl
  · unfold audioFile
    cases c.request.audio with
    | some source => exact .inr (.inl ⟨source, rfl⟩)
    | none => exact .inr (.inr (.inl ⟨_, rfl⟩))
  · exact .inr (.inr (.inr (.inr (.inr ⟨_, _, rfl⟩))))
  · exact .inr (.inr (.inr (.inr (.inr ⟨_, _, rfl⟩))))
  · exact .inr (.inr (.inr (.inl ⟨w, rfl⟩)))
  · exact .inr (.inr (.inr (.inr (.inl ⟨g, rfl⟩))))

theorem applies_files : ∀ f ∈ c.sourceFiles ++ c.layerFiles, f.Applies := by
  intro f hf
  rcases cases_files hf with rfl | ⟨source, rfl⟩ | ⟨path, rfl⟩ | ⟨w, rfl⟩ | ⟨g, rfl⟩ |
    ⟨path, stream, rfl⟩
  · exact InputFile.applies_withOptions _ _ _
  · exact InputFile.applies_withOptions _ _ _
  · exact InputFile.applies_withOptions _ _ _
  · exact InputFile.applies_withOptions _ _ _
  · exact InputFile.applies_withOptions _ _ _
  · exact InputFile.applies_of_options_eq_nil rfl

theorem loop_infix_videoFile (h : c.request.video.stream.stillImage = true) (p : Pipeline) :
    ["-loop", "1"] <:+: p.inputWords c.videoFile := by
  have hkind : c.videoFile.kind = .video c.request.video.stream := InputFile.kind_withOptions _ _ _
  have hmem : .infiniteLoop ∈ c.videoFile.options := by
    rw [videoFile, InputFile.mem_options_withOptions]
    simp [h, InputOption.appliesTo]
  have hwords : InputOption.infiniteLoop.arguments c.videoFile.kind = ["-loop", "1"] := by
    rw [hkind, InputOption.arguments, InputKind.isStill, if_pos h]
  rw [← hwords]
  exact Pipeline.infix_inputWords hmem

namespace Wires

variable (w : c.Wires a g)

include w

/-- What is read is one of the files that were registered. -/
theorem mem_files : ∀ f ∈ a.pipeline.inputs, f ∈ c.sourceFiles ++ c.layerFiles := by
  obtain ⟨new, he, hnew⟩ := InputFile.exists_registerAll_eq (c.sourceFiles ++ c.layerFiles) []
  rw [w.inputs, he, List.nil_append]
  exact hnew

theorem suits_inputs : ∀ f ∈ a.pipeline.inputs, a.pipeline.Suits f :=
  fun f hf => Pipeline.suits_of_applies (applies_files f (w.mem_files f hf))

/-- No input but the first has a decoder. -/
theorem decoder_not_mem {others : List InputFile} (he : a.pipeline.inputs = c.videoFile :: others) :
    ∀ f ∈ others, ∀ word ∈ ["-c:v", "-deint"], word ∉ a.pipeline.inputWords f := by
  obtain ⟨rest, hrest, hmoving⟩ := w.exists_inputs_eq
  obtain rfl : others = rest := (List.cons.inj (he.symm.trans hrest)).2
  intro f hf word hword hmem
  have hvideo := (w.suits_inputs f (he ▸ List.mem_cons_of_mem _ hf)).decoder word hword hmem
  rw [hmoving f hf] at hvideo
  cases hvideo

end Wires

end Compilation

/-- **Options are carried only by inputs that they apply to.**  This holds of the inputs of every
pipeline, for an item, a playlist or an image, also where several roles of a request share a path.
The first input of an item is its main video, looped if it is a still image, and no other input has
a decoder.  Of the options that are added to a new input those are kept that apply, in their
order. -/
theorem inputs_suited :
    (∀ (r : Request) (facts : Capabilities) (config : Config) (p : Pipeline),
      compile r facts config = .ok p →
        (∀ f ∈ p.inputs, p.Suits f) ∧
        ∃ main others, p.inputs = main :: others ∧ main.path = r.video.path ∧
          main.kind = .video r.video.stream ∧
          (∀ f ∈ others, ∀ word ∈ ["-c:v", "-deint"], word ∉ p.inputWords f) ∧
          (r.video.stream.stillImage = true → ["-loop", "1"] <:+: p.inputWords main)) ∧
    (∀ url metadata, ∀ f ∈ (concatPipeline url metadata).inputs,
      (concatPipeline url metadata).Suits f) ∧
    (∀ source result height, ∀ f ∈ (resizePipeline source result height).inputs,
      (resizePipeline source result height).Suits f) ∧
    ∀ path kind os, (InputFile.withOptions path kind os).options =
      os.filter fun o => o.appliesTo kind := by
  refine ⟨fun r facts config p h => ?_, fun url metadata f hf => ?_,
    fun source result height f hf => ?_, InputFile.options_withOptions⟩
  · obtain ⟨a, ha, rfl⟩ := Compilation.assembled_of_run h
    obtain ⟨g, w⟩ := Compilation.exists_wires ha
    obtain ⟨others, he, -⟩ := w.exists_inputs_eq
    exact ⟨w.suits_inputs, _, others, he, InputFile.path_withOptions _ _ _,
      InputFile.kind_withOptions _ _ _, w.decoder_not_mem he,
      fun hstill => Compilation.loop_infix_videoFile hstill a.pipeline⟩
  · rw [List.mem_singleton.mp hf]
    exact Pipeline.suits_of_applies (InputFile.applies_withOptions _ _ _)
  · rw [List.mem_singleton.mp hf]
    exact Pipeline.suits_of_applies (InputFile.applies_withOptions _ _ _)

/-- A picture that is shown with itself as its sound and as graphics, from five seconds on. -/
def slate : Request where
  video := ⟨"slate.png", { codec := "png", frameSize := ⟨1920, 1080⟩, stillImage := true }⟩
  audio := some ⟨"slate.png", ⟨1, "aac", 2, none⟩⟩
  graphics := some { path := "slate.png", size := ⟨1920, 1080⟩, frameRate := 25 }
  settings := { start := Duration.ofParts? 5 0 }

/-- The picture is read once and looped; it is not sought, and not read as raw frames. -/
theorem slate_suited :
    ∃ p main, compile slate {} {} = .ok p ∧ p.inputs = [main] ∧
      ["-loop", "1"] <:+: p.inputWords main ∧ "-ss" ∉ p.inputWords main ∧
      ¬Tells (p.inputArguments main) "-f" "rawvideo" := by
  have hr : (compile slate {} {}).toOption.map (fun p => p.inputs.length) = some 1 := by
    decide +kernel
  obtain ⟨p, hp, hlength⟩ := Option.map_eq_some_iff.mp hr
  have hp := toOption_eq_some_iff.mp hp
  obtain ⟨hsuits, main, others, he, -, hkind, -, hloop⟩ := inputs_suited.1 slate {} {} p hp
  obtain rfl : others = [] := by simpa [he] using hlength
  have hmain := hsuits main (he ▸ List.mem_singleton_self main)
  have hstill : main.kind.isStill = true := by rw [hkind]; rfl
  refine ⟨p, main, hp, he, hloop rfl, hmain.still hstill _ (by decide), fun hraw => ?_⟩
  obtain ⟨size, rate, hgraphics⟩ := hmain.rawVideo hraw
  rw [hkind] at hgraphics
  cases hgraphics

end Playout
