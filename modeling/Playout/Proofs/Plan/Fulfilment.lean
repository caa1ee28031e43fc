import Playout.Proofs.Graph.Compositing
import Playout.Proofs.Plan.SubtitleCodec
import Playout.Proofs.Plan.Wiring

/-!
# What a request asks for, and what it gets

Subtitles, watermark and graphics take different ways through a compilation; each ends in its place
once.

* `Compilation.Fulfils`: a graph with all that is asked for, once and in order.
* `Compilation.request_fulfilled`: the graph of every assembly is one.
-/

namespace Playout

open VideoFilter

namespace Request

variable {r : Request}

/-- Nothing is asked for below the pictures of a subtitle. -/
theorem lowest_le_of_mem {x : LayerKind × Int} (hx : x ∈ r.layerOrder) : Layer.lowest ≤ x.2 := by
  simp only [layerOrder_eq, List.mem_append, Option.mem_toList, Option.map_eq_some_iff] at hx
  rcases hx with (⟨s, -, rfl⟩ | ⟨w, -, rfl⟩) | ⟨g, -, rfl⟩
  · exact Int.le_refl _
  · exact Layer.lowest_le w.zIndex
  · exact Layer.lowest_le g.zIndex

theorem picture_mem_layerOrder {s : Subtitle} (h : r.burnedPicture? = some s) :
    (LayerKind.subtitle, Layer.lowest) ∈ r.layerOrder := by
  simp [layerOrder_eq, h]

/-- Whatever else is asked for, the pictures of a subtitle come first. -/
theorem head?_of_picture {s : Subtitle} (h : r.burnedPicture? = some s)
    {order : List (LayerKind × Int)} (hperm : order.Perm r.layerOrder)
    (hsorted : order.Pairwise Precedes) :
    order.head? = some (LayerKind.subtitle, Layer.lowest) := by
  have hmem := hperm.mem_iff.mpr (picture_mem_layerOrder h)
  cases order with
  | nil => cases hmem
  | cons x rest =>
    rcases List.mem_cons.mp hmem with rfl | hmem
    · rfl
    · -- what comes before the pictures would be below them, or an earlier kind
      have hlow : Layer.lowest ≤ x.2 := lowest_le_of_mem (hperm.mem_iff.mp List.mem_cons_self)
      rcases (List.pairwise_cons.mp hsorted).1 _ hmem with hlt | ⟨-, hturn⟩
      · exact absurd hlt (by show ¬x.2 < Layer.lowest; omega)
      · exact absurd hturn (Nat.not_lt_zero _)

end Request

namespace Compilation

variable {c : Compilation} {a : Assembly} {g : Graph}

/-- A graph with all that a request asks for, once and in order. -/
structure Fulfils (c : Compilation) (p : Pipeline) (g : Graph) : Prop where
  graphs : p.graphs = [g]
  video : Resolves c.request p.inputs .video c.sources.video
  /-- Text is burned in by one filter, and that on the main chain. -/
  text : g.videoFilters.filterMap burned? =
    (c.request.subtitle.toList.filter Subtitle.isBurnedText).map fun s =>
      ⟨s.path, s.relativeIndex, c.config.fontsFolder⟩
  textless : g.tail.filterMap burned? = []
  calls : ((g.chains.filter fun x => x.output == "v").flatMap Chain.calls).filter
      (fun x => x.name == "subtitles") =
    (c.request.subtitle.toList.filter Subtitle.isBurnedText).map fun s =>
      FilterWork.subtitlesCall s.path s.relativeIndex c.config.fontsFolder
  /-- A subtitle that stays a stream is mapped once, after video and audio; a burned one is not. -/
  maps : ∃ video audio, g.videoMap = some video ∧ g.audioMap = some audio ∧
    p.steps.flatMap Step.filterOptions =
      (if g.chains.isEmpty then [] else ["-filter_complex", g.text])
        ++ ["-map", video, "-map", audio] ++ g.subtitle.toList.flatMap fun ref => ["-map", ref.text]
  carried : g.subtitle.isSome = c.request.subtitle.any Subtitle.isCarried
  resolves : ∀ ref, g.subtitle = some ref → Resolves c.request p.inputs .subtitle ref
  /-- It is given a codec once. -/
  codecs : p.steps.filterMap Step.subtitleCodec? =
    (c.request.subtitle.toList.filter Subtitle.isCarried).map Subtitle.method
  declared : p.steps.countP Step.declaresSubtitleCodec =
    (c.request.subtitle.toList.filter Subtitle.isCarried).length
  /-- Each layer that is asked for is composited once, and no other. -/
  composites : (g.composites.map Chain.output).Perm
    (c.request.layerOrder.map fun x => "v" ++ x.1.label)
  layers : ∃ layers, layers.map (fun l => (l.kind, l.zIndex)) = c.request.layerOrder ∧
    g.Composited c.sources.video layers
  /-- A compositing filter lays it, and it is the stream that is asked for. -/
  overlays : ∀ l ∈ g.layers, l.overlay.name ∈ Layer.compositors ∧
    Resolves c.request p.inputs l.kind.role l.input
  order : (g.layers.map fun l => (l.kind, l.zIndex)).Pairwise Precedes
  /-- The pictures of a subtitle come before all else. -/
  picture : c.request.subtitle.any Subtitle.isBurnedPicture = true →
    g.composites.head?.map Chain.output = some "vst"

namespace Wires

variable (w : c.Wires a g)

include w

theorem isSome_subtitle : g.subtitle.isSome = c.request.subtitle.any Subtitle.isCarried := by
  have hm := congrArg Option.isSome (subtitle_sources (c := c))
  rw [Option.isSome_map, Option.isSome_map] at hm
  rw [w.subtitle, Option.isSome_map, hm]
  exact Option.isSome_filter

theorem textCalls_eq : ((g.chains.filter fun x => x.output == "v").flatMap Chain.calls).filter
      (fun x => x.name == "subtitles") =
    (c.request.subtitle.toList.filter Subtitle.isBurnedText).map fun s =>
      FilterWork.subtitlesCall s.path s.relativeIndex c.config.fontsFolder := by
  have hcalls : (g.chains.filter fun x => x.output == "v").flatMap Chain.calls =
      g.beforeLayers := by
    rw [Graph.filter_main w.video, Graph.mainChains_eq]
    split
    · next hnone => exact (List.isEmpty_iff.mp hnone).symm
    · exact List.append_nil _
  have hfilters : (if g.layers.isEmpty then g.videoFilters ++ g.tail
      else g.videoFilters).filterMap burned? = g.videoFilters.filterMap burned? := by
    split
    · rw [List.filterMap_append, w.textless, List.append_nil]
    · rfl
  rw [hcalls, Graph.beforeLayers, filter_subtitles_flatMap, hfilters, w.text, Option.toList_map,
    Request.toList_burnedText, List.map_map]
  rfl

theorem maps_eq : ∃ video audio, g.videoMap = some video ∧ g.audioMap = some audio ∧
    g.maps = [video, audio] ++ (g.subtitle.map StreamRef.text).toList := by
  obtain ⟨video, hvideo⟩ : ∃ video, g.videoMap = some video := by
    rw [Graph.videoMap, w.video]
    exact ⟨_, rfl⟩
  obtain ⟨audio, haudio⟩ : ∃ audio, g.audioMap = some audio := by
    rw [Graph.audioMap, Graph.audioSource, w.audio]
    exact ⟨_, rfl⟩
  refine ⟨video, audio, hvideo, haudio, ?_⟩
  rw [Graph.maps, hvideo, haudio, Graph.subtitleMap]
  rfl

theorem perm_ranks : (g.layers.map Layer.rank).Perm c.request.layerOrder := by
  obtain ⟨layers, hsorted, hlaid⟩ := w.layers
  rw [hsorted, ← hlaid.order]
  exact (perm_sortLayers layers).map Layer.rank

theorem pairwise_ranks : (g.layers.map Layer.rank).Pairwise Precedes := by
  obtain ⟨layers, hsorted, hlaid⟩ := w.layers
  have hkinds : (layers.map Layer.kind).Sublist LayerKind.all := by
    have hrank : layers.map Layer.kind = (layers.map Layer.rank).map Prod.fst := by
      rw [List.map_map]
      rfl
    rw [hrank, hlaid.order]
    exact c.request.layerOrder_sublist
  rw [hsorted]
  exact pairwise_precedes_sortLayers hkinds

theorem outputs_composites :
    g.composites.map Chain.output = (g.layers.map Layer.rank).map fun x => "v" ++ x.1.label := by
  obtain ⟨layers, hsorted, -⟩ := w.layers
  have hall := congrArg (List.map Prod.fst) (Graph.composited w.video hsorted).composites
  rw [List.map_map, List.map_map] at hall
  rw [List.map_map]
  exact hall

theorem head?_of_picture (h : c.request.subtitle.any Subtitle.isBurnedPicture = true) :
    g.composites.head?.map Chain.output = some "vst" := by
  obtain ⟨s, hs, hburned⟩ := (Option.any_eq_true _ _).mp h
  have hpicture : s ∈ c.request.burnedPicture?.toList := by
    rw [Request.toList_burnedPicture, hs]
    exact List.mem_filter.mpr ⟨List.mem_singleton_self s, hburned⟩
  have hfirst := Request.head?_of_picture (Option.mem_toList.mp hpicture) w.perm_ranks
    w.pairwise_ranks
  rw [← List.head?_map, w.outputs_composites, List.head?_map, hfirst]
  rfl

theorem written : ∃ video audio, g.videoMap = some video ∧ g.audioMap = some audio ∧
    a.pipeline.steps.flatMap Step.filterOptions =
      (if g.chains.isEmpty then [] else ["-filter_complex", g.text])
        ++ ["-map", video, "-map", audio]
        ++ g.subtitle.toList.flatMap fun ref => ["-map", ref.text] := by
  obtain ⟨video, audio, hvideo, haudio, hmaps⟩ := w.maps_eq
  refine ⟨video, audio, hvideo, haudio, ?_⟩
  rw [Pipeline.flatMap_filterOptions, w.graphs, List.flatMap_singleton, Graph.options, hmaps,
    List.flatMap_append, Option.toList_map, List.flatMap_map, List.append_assoc]
  rfl

theorem fulfils (h : c.assembled = .ok a) : c.Fulfils a.pipeline g where
  graphs := w.graphs
  video := c.resolves_video.mono w.sources_extended
  text := by
    rw [w.text, Option.toList_map, Request.toList_burnedText]
  textless := w.textless
  calls := w.textCalls_eq
  maps := w.written
  carried := w.isSome_subtitle
  resolves := fun _ hr => w.resolves_subtitle hr
  codecs := by
    rw [subtitleCodecs_eq h, Option.toList_map, Request.toList_carried]
  declared := by
    rw [countP_declaresSubtitleCodec h, ← Request.toList_carried]
    cases c.request.carried? <;> rfl
  composites := by
    rw [w.outputs_composites]
    exact w.perm_ranks.map _
  layers := by
    obtain ⟨layers, hsorted, hlaid⟩ := w.layers
    exact ⟨layers, hlaid.order, Graph.composited w.video hsorted⟩
  overlays := w.forall_layers
  order := w.pairwise_ranks
  picture := w.head?_of_picture

end Wires

/-- **Nothing that is asked for is lost, doubled or out of order.**  And every graph with sorted
layers lays them over its video in their order. -/
theorem request_fulfilled (h : c.assembled = .ok a) :
    (∃ g, c.Fulfils a.pipeline g) ∧
      ∀ (g : Graph) (video : StreamRef) (layers : List Layer),
        g.video = some video → g.layers = sortLayers layers → g.Composited video layers := by
  obtain ⟨g, w⟩ := exists_wires h
  exact ⟨⟨g, w.fulfils h⟩, fun g video layers hv hl => Graph.composited hv hl⟩

/-- The subtitle of the film comes first, though the clock has a negative z-index. -/
theorem signedFilm_fulfilled :
    ∃ a g, signedFilm.assembled = .ok a ∧ signedFilm.Fulfils a.pipeline g ∧
      g.composites.map Chain.output = ["vst", "vgfx"] := by
  have hr : (signedFilm.assembled.toOption.bind fun a => a.pipeline.graphs.head?.map fun g =>
      g.composites.map Chain.output) = some ["vst", "vgfx"] := by
    decide +kernel
  obtain ⟨a, ha, hr⟩ := exists_assembled hr
  obtain ⟨⟨g, hg⟩, -⟩ := request_fulfilled ha
  rw [hg.graphs, List.head?_cons, Option.map_some, Option.some.injEq] at hr
  exact ⟨a, g, ha, hg, hr⟩

end Compilation

end Playout
