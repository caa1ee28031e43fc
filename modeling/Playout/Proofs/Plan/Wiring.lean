import Playout.Proofs.Graph.Links
import Playout.Proofs.Path.Task
import Playout.Proofs.Plan.Assembly
import Playout.Proofs.Plan.Reasons
import Playout.Proofs.Plan.Sources

/-!
# The filter graph of a pipeline

Every pipeline has one filter graph, whether its video is copied or transcoded, and what the graph
reads and lays over the frames is what the request asks for.

* `Pipeline.graphs`: the filter graphs of a pipeline.
* `Compilation.Wires`: the graph of an assembly, with what it is made of.
* `Compilation.exists_wires`: there is one.
* `Compilation.wellWired_of_assembled`: chains and maps fit together, and there is one map for
  each of video, audio and subtitle.
-/

namespace Playout

open VideoFilter

namespace Step

def graph? : Step → Option Graph
  | filter g => some g
  | _ => none

theorem graph?_of_keepsPicture {s : Step} (h : s.keepsPicture = true) : s.graph? = none := by
  cases s <;> first | rfl | cases h

theorem graph?_of_isOption {s : Step} (h : s.isOption = true) : s.graph? = none := by
  cases s <;> first | rfl | cases h

theorem filterMap_graph_of_keepsPicture {steps : List Step}
    (h : ∀ s ∈ steps, s.keepsPicture = true) : steps.filterMap graph? = [] :=
  List.filterMap_eq_nil_iff.mpr fun s hs => graph?_of_keepsPicture (h s hs)

theorem filterMap_graph_of_isOption {steps : List Step} (h : ∀ s ∈ steps, s.isOption = true) :
    steps.filterMap graph? = [] :=
  List.filterMap_eq_nil_iff.mpr fun s hs => graph?_of_isOption (h s hs)

end Step

namespace Pipeline

def graphs (p : Pipeline) : List Graph := p.steps.filterMap Step.graph?

theorem flatMap_filterOptions (p : Pipeline) :
    p.steps.flatMap Step.filterOptions = p.graphs.flatMap Graph.options := by
  unfold graphs
  induction p.steps with
  | nil => rfl
  | cons s rest ih =>
    rw [List.flatMap_cons, ih]
    cases s <;> rfl

end Pipeline

namespace Compilation

variable {c : Compilation} {a : Assembly}

/-- The graph of an assembly: the only one, on the streams of the request, and with the layers that
the request asks for. -/
structure Wires (c : Compilation) (a : Assembly) (g : Graph) : Prop where
  graphs : a.pipeline.graphs = [g]
  video : g.video = some c.sources.video
  audio : g.audio = some c.sources.audio
  subtitle : g.subtitle = c.sources.subtitle.map Prod.fst
  effective : g.Effective
  text : g.videoFilters.filterMap burned? =
    (c.request.burnedText?.map fun s => ⟨s.path, s.relativeIndex, c.config.fontsFolder⟩).toList
  textless : g.tail.filterMap burned? = []
  inputs : a.pipeline.inputs = InputFile.registerAll (c.sourceFiles ++ c.layerFiles) []
  layers : ∃ layers, g.layers = sortLayers layers ∧
    Laid c.request c.layerFiles c.request.layerOrder c.sources.files (a.pipeline.inputs, layers)

/-- What is copied has nothing laid over it. -/
theorem hasOverlays_of_reasons (h : c.reasons c.desired = []) : c.request.hasOverlays = false :=
  (matches_of_reasons h).plain

theorem wires_copied (h : c.reasons c.desired = []) (k : Container) :
    c.Wires ⟨c.copied k, .copy, c.copiedAudioEncoder⟩ c.copiedGraph where
  graphs := by
    obtain ⟨lead, trail, he, hl, ht⟩ := c.exists_copied_steps_eq k
    show (c.copied k).graphs = _
    rw [Pipeline.graphs, he, List.filterMap_append, Step.filterMap_graph_of_keepsPicture hl,
      List.filterMap_cons, Step.filterMap_graph_of_keepsPicture ht]
    rfl
  video := rfl
  audio := rfl
  subtitle := rfl
  effective := by
    intro v hv
    cases hv
  text := by
    rw [Request.burnedText?_eq_none (hasOverlays_of_reasons h)]
    rfl
  textless := rfl
  inputs := by
    rw [layerFiles_eq_nil (hasOverlays_of_reasons h), List.append_nil]
    exact c.sources_files
  layers := by
    refine ⟨[], rfl, ?_⟩
    rw [layerFiles_eq_nil (hasOverlays_of_reasons h),
      Request.layerOrder_eq_nil (hasOverlays_of_reasons h)]
    exact laid_nil c.request c.sources.files

namespace Transcoding

variable (t : c.Transcoding a)

theorem inputs_eq : a.pipeline.inputs = t.files :=
  congrArg (fun x : Assembly => x.pipeline.inputs) t.eq

theorem graphs_eq : a.pipeline.graphs = [t.graph] := by
  obtain ⟨lead, middle, trail, he, hl, hm, ht⟩ := t.exists_steps_eq
  rw [Pipeline.graphs, he, List.filterMap_append, Step.filterMap_graph_of_keepsPicture hl,
    List.filterMap_cons, List.filterMap_cons, List.filterMap_append, List.filterMap_append,
    Step.filterMap_graph_of_keepsPicture hm, Step.filterMap_graph_of_keepsPicture ht,
    Step.filterMap_graph_of_isOption (isOption_pixelFormatSteps _ _)]
  rfl

theorem wires : c.Wires a t.graph where
  graphs := t.graphs_eq
  video := rfl
  audio := rfl
  subtitle := rfl
  effective := by
    rw [Graph.Effective, t.filters_graph]
    exact t.plan.calls_ne_nil_emitted t.decoded
  text := by
    have hf : t.graph.videoFilters = Stage.emitted t.plan.stages t.decoded :=
      congrArg MainPath.filters (MainPath.compose_eq t.plan t.decoded)
    rw [hf]
    exact t.plan.filterMap_burned_emitted t.decoded
  textless := PathPlan.filterMap_burned_finalUpload _ _ _
  inputs := by
    rw [t.inputs_eq, InputFile.registerAll_append, ← sources_files]
    exact (laid_of_layers t.laid).files
  layers := by
    rw [t.inputs_eq]
    exact ⟨t.layers, rfl, laid_of_layers t.laid⟩

end Transcoding

theorem exists_wires (h : c.assembled = .ok a) : ∃ g, c.Wires a g := by
  rcases assembled_eq_ok h with ⟨k, hr, rfl⟩ | ⟨⟨t⟩⟩
  · exact ⟨c.copiedGraph, wires_copied hr k⟩
  · exact ⟨t.graph, t.wires⟩

namespace Wires

variable {g : Graph} (w : c.Wires a g)

include w

theorem nodup_kinds : (g.layers.map Layer.kind).Nodup := by
  obtain ⟨layers, hsorted, hlaid⟩ := w.layers
  have hkinds : layers.map Layer.kind = c.request.layerOrder.map Prod.fst := by
    rw [← hlaid.order, List.map_map]
    rfl
  rw [hsorted, ((perm_sortLayers layers).map Layer.kind).nodup_iff, hkinds]
  exact c.request.nodup_layerOrder

/-- What the main streams are is known before the layers are added. -/
theorem sources_extended : c.sources.files <+: a.pipeline.inputs := by
  rw [w.inputs, InputFile.registerAll_append, ← sources_files]
  exact InputFile.prefix_registerAll _ _

theorem resolves_subtitle {ref : StreamRef} (h : g.subtitle = some ref) :
    Resolves c.request a.pipeline.inputs .subtitle ref := by
  rw [w.subtitle] at h
  obtain ⟨⟨_, m⟩, hs, rfl⟩ := Option.map_eq_some_iff.mp h
  exact (resolves_carried hs).mono w.sources_extended

/-- Each layer is laid by a compositing filter, and it is the stream that the request gives. -/
theorem forall_layers : ∀ l ∈ g.layers, l.overlay.name ∈ Layer.compositors ∧
    Resolves c.request a.pipeline.inputs l.kind.role l.input := by
  obtain ⟨layers, hsorted, hlaid⟩ := w.layers
  intro l hl
  rw [hsorted] at hl
  have hmem := (perm_sortLayers layers).mem_iff.mp hl
  exact ⟨hlaid.composited l hmem, hlaid.resolves l hmem⟩

theorem wellWired : WellWired g.chains g.targets := Graph.wellWired w.nodup_kinds

theorem filterOptions_eq :
    a.pipeline.steps.flatMap Step.filterOptions =
      (if g.chains.isEmpty then [] else ["-filter_complex", g.text])
        ++ g.targets.flatMap fun target => ["-map", target.mapText] := by
  rw [Pipeline.flatMap_filterOptions, w.graphs, List.flatMap_singleton, Graph.options,
    Graph.maps_eq w.effective, List.flatMap_map]

end Wires

/-- **Chains and maps fit together.**  The graph of a pipeline defines every label once and reads
it once, later on or in a map; and the video is mapped, then the audio, then a subtitle that stays
a stream. -/
theorem wellWired_of_assembled (h : c.assembled = .ok a) :
    ∃ g video audio, a.pipeline.graphs = [g] ∧
      WellWired g.chains g.targets ∧
      (video = .stream c.sources.video ∨ ∃ x ∈ g.videoChains, video = .link x.output) ∧
      (audio = .stream c.sources.audio ∨ ∃ x ∈ g.audioChains, audio = .link x.output) ∧
      g.targets = video :: audio :: (c.sources.subtitle.map fun s => .stream s.1).toList ∧
      a.pipeline.steps.flatMap Step.filterOptions =
        (if g.chains.isEmpty then [] else ["-filter_complex", g.text])
          ++ g.targets.flatMap fun target => ["-map", target.mapText] := by
  obtain ⟨g, w⟩ := exists_wires h
  obtain ⟨video, hvideo, hv⟩ := Graph.videoTarget_eq w.video
  obtain ⟨audio, haudio, ha⟩ := Graph.audioSource_eq w.audio
  refine ⟨g, video, audio, w.graphs, w.wellWired, hv, ha, ?_, w.filterOptions_eq⟩
  rw [Graph.targets, hvideo, haudio, w.subtitle, Option.map_map]
  rfl

/-- A film of 1920 by 800, with its subtitle of pictures burned in and a clock from a caller, for a
frame of 1920 by 1080. -/
def signedFilm : Compilation where
  request := {
    video := ⟨"film.mkv", {
      codec := "h264"
      pixelFormatName := some "yuv420p"
      frameSize := ⟨1920, 800⟩ }⟩
    subtitle := some { path := "film.mkv", stream := ⟨3, "hdmv_pgs_subtitle", none⟩ }
    graphics := some {
      path := "clock.raw"
      size := ⟨1920, 1080⟩
      frameRate := 25
      zIndex := -5 } }
  capabilities := {}
  config := {}

/-- The film goes through five chains, and two of their labels are mapped. -/
theorem signedFilm_wellWired :
    ∃ a g, signedFilm.assembled = .ok a ∧ a.pipeline.graphs = [g] ∧
      g.chains.map Chain.output = ["a", "v", "st", "vst", "vgfx"] ∧
      g.targets = [.link "vgfx", .link "a"] ∧ WellWired g.chains g.targets := by
  have hr : (signedFilm.assembled.toOption.bind fun a => a.pipeline.graphs.head?.map fun g =>
      (g.chains.map Chain.output, g.targets)) =
      some (["a", "v", "st", "vst", "vgfx"], [.link "vgfx", .link "a"]) := by
    decide +kernel
  obtain ⟨a, ha, hr⟩ := exists_assembled hr
  obtain ⟨g, -, -, hg, hwired, -⟩ := wellWired_of_assembled ha
  rw [hg, List.head?_cons, Option.map_some, Option.some.injEq] at hr
  obtain ⟨houtputs, htargets⟩ := Prod.mk.inj hr
  exact ⟨a, g, ha, hg, houtputs, htargets, hwired⟩

end Compilation

end Playout
