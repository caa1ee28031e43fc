import Playout.Proofs.Graph.Rereading
import Playout.Proofs.Plan.Completion
import Playout.Proofs.Plan.Meeting
import Playout.Proofs.Plan.Wiring

/-!
# Texts in the graph of a pipeline

Of all texts in a request, the paths and folders are escaped where they are written into the graph,
and the algorithm of tone mapping is not.

* `BreaksGraph`: the way in which that algorithm changes the graph.
* `readsBack_iff_of_assembled`: the graph is changed in this way only.
-/

namespace Playout

open VideoFilter

namespace Compilation

variable {c : Compilation} {a : Assembly}

/-- The way in which a text changes the graph: a source of high dynamic range is tone mapped by a
family that is told the algorithm, and the algorithm ends a chain or opens a label. -/
structure BreaksGraph (c : Compilation) : Prop where
  range : c.request.video.stream.isHdr = true
  told : ∃ m, c.machinery = .ok m ∧ m.backend ≠ .qsv
  breaks : ¬Quiet c.request.target.tonemapAlgorithm.toList

namespace Transcoding

variable (t : c.Transcoding a)

theorem filterMap_rawAlgorithm :
    t.graph.videoFilters.filterMap rawAlgorithm? =
      if c.request.video.stream.isHdr = true ∧ t.machinery.backend ≠ .qsv then
        [c.request.target.tonemapAlgorithm]
      else [] := by
  have hhdr : t.decoded.hdr = c.request.video.stream.isHdr := by
    unfold decoded Decoder.next
    split
    · rfl
    · rfl
  rw [videoFilters_graph, PathPlan.filterMap_rawAlgorithm_emitted, t.fresh.hdr, hhdr,
    Bool.not_false, Bool.and_true]
  rfl

theorem quiet_filterMap_iff :
    (∀ s ∈ t.graph.videoFilters.filterMap rawAlgorithm?, Quiet s.toList) ↔ ¬c.BreaksGraph := by
  rw [filterMap_rawAlgorithm]
  split
  · next h =>
    rw [List.forall_mem_singleton]
    exact ⟨fun hquiet hb => hb.breaks hquiet, fun hb => Decidable.byContradiction fun hloud =>
      hb ⟨h.1, ⟨t.machinery, t.made, h.2⟩, hloud⟩⟩
  · next h =>
    refine iff_of_true (List.forall_mem_nil _) fun hb => h ⟨hb.range, ?_⟩
    obtain ⟨m, hm, hqsv⟩ := hb.told
    rwa [Except.ok.inj (t.made.symm.trans hm)]

theorem isSettled_layers : ∀ l ∈ t.graph.layers, l.IsSettled :=
  fun l hl => forall_of_layers (fun _ _ _ => Layer.isSettled_pictureSubtitle _ _ _ _)
    (fun _ _ _ _ _ h => Layer.isSettled_watermark h) (fun _ _ => Layer.isSettled_graphics _ _ _ _)
    t.laid l (t.mem_layers.mp hl)

theorem readsBack_iff : t.graph.chains = [] ∨ t.graph.ReadsBack ↔ ¬c.BreaksGraph := by
  have htail : ∀ v ∈ t.graph.tail, v.rawAlgorithm? = none :=
    PathPlan.rawAlgorithm?_finalUpload _ _ _
  rw [Graph.readsBack_iff_of_settled (t.wires.video) htail t.isSettled_layers]
  exact t.quiet_filterMap_iff

end Transcoding

theorem readsBack_copied (h : c.reasons c.desired = []) :
    (c.copiedGraph.chains = [] ∨ c.copiedGraph.ReadsBack) ∧ ¬c.BreaksGraph := by
  have hvideo : c.copiedGraph.video = some c.sources.video := rfl
  refine ⟨(Graph.readsBack_iff_of_settled hvideo ?_ ?_).mpr ?_, fun hb => ?_⟩
  · exact List.forall_mem_nil _
  · exact List.forall_mem_nil _
  · exact List.forall_mem_nil _
  · have hrange : c.request.video.stream.isHdr = false := (matches_of_reasons h).range
    rw [hb.range] at hrange
    cases hrange

/-- **No text changes the structure of a graph** but an algorithm of tone mapping that ends a chain
or opens a label: the text of the graph comes apart into its chains, and the chains into their
labels and calls. -/
theorem readsBack_iff_of_assembled (h : c.assembled = .ok a) :
    ∃ g, a.pipeline.graphs = [g] ∧
      a.pipeline.steps.flatMap Step.filterOptions =
        (if g.chains.isEmpty then [] else ["-filter_complex", g.text])
          ++ (g.targets.flatMap fun target => ["-map", target.mapText]) ∧
      (g.chains = [] ∨ g.ReadsBack ↔ ¬c.BreaksGraph) := by
  rcases assembled_eq_ok h with ⟨k, hr, rfl⟩ | ⟨⟨t⟩⟩
  · obtain ⟨hreads, hunbroken⟩ := readsBack_copied hr
    exact ⟨c.copiedGraph, (wires_copied hr k).graphs, (wires_copied hr k).filterOptions_eq,
      iff_of_true hreads hunbroken⟩
  · exact ⟨t.graph, t.graphs_eq, t.wires.filterOptions_eq, t.readsBack_iff⟩

/-- A film of high dynamic range, with burned text whose path has all that divides, tone mapped by
an algorithm on the host. -/
def mappedFilm (algorithm : String) : Compilation where
  request := {
    video := ⟨"film.mkv", {
      codec := "hevc"
      pixelFormatName := some "yuv420p10le"
      frameSize := ⟨1920, 1080⟩
      colorTransfer := some "smpte2084" }⟩
    subtitle := some { path := "[a];b\x5c,c:d\x27.srt", stream := ⟨0, "subrip", none⟩ }
    target := { tonemapAlgorithm := algorithm } }
  capabilities := {}
  config := {}

/-- The path of the text leaves the two chains of the film as they are. -/
theorem mappedFilm_readsBack :
    ∃ a g, (mappedFilm "hable").assembled = .ok a ∧ a.pipeline.graphs = [g] ∧
      g.chains.map Chain.output = ["a", "v"] ∧ g.ReadsBack := by
  have hr : ((mappedFilm "hable").assembled.toOption.bind fun a => a.pipeline.graphs.head?.map
      fun g => g.chains.map Chain.output) = some ["a", "v"] := by
    decide +kernel
  obtain ⟨a, ha, hr⟩ := exists_assembled hr
  obtain ⟨g, hg, -, hreads⟩ := readsBack_iff_of_assembled ha
  have hquiet : ¬(mappedFilm "hable").BreaksGraph := fun hb => hb.breaks (by decide +kernel)
  rw [hg, List.head?_cons, Option.map_some, Option.some.injEq] at hr
  refine ⟨a, g, ha, hg, hr, (hreads.mpr hquiet).resolve_left ?_⟩
  rintro hnone
  rw [hnone] at hr
  cases hr

/-- An algorithm with a semicolon and brackets makes three pieces of the two chains, and its
brackets are read as labels. -/
theorem mappedFilm_broken :
    ∃ a g, (mappedFilm "hable;[0:0]null[x]").assembled = .ok a ∧ a.pipeline.graphs = [g] ∧
      g.chains.map Chain.labels = [["1:0", "a"], ["0:0", "v"]] ∧
      (pieces ';' g.text).map groups = [["1:0", "a"], ["0:0"], ["0:0", "x", "v"]] ∧
      ¬g.ReadsBack := by
  have hr : ((mappedFilm "hable;[0:0]null[x]").assembled.toOption.bind fun a =>
      a.pipeline.graphs.head?.map fun g =>
        (g.chains.map Chain.labels, (pieces ';' g.text).map groups)) =
      some ([["1:0", "a"], ["0:0", "v"]], [["1:0", "a"], ["0:0"], ["0:0", "x", "v"]]) := by
    decide +kernel
  obtain ⟨a, ha, hr⟩ := exists_assembled hr
  obtain ⟨g, w⟩ := exists_wires ha
  rw [w.graphs, List.head?_cons, Option.map_some, Option.some.injEq] at hr
  obtain ⟨hlabels, hgroups⟩ := Prod.mk.inj hr
  refine ⟨a, g, ha, w.graphs, hlabels, hgroups, fun hreads => ?_⟩
  have hchains := congrArg List.length hlabels
  have hpieces := congrArg List.length hgroups
  rw [List.length_map] at hchains hpieces
  rw [hreads.chains, List.length_map, hchains] at hpieces
  cases hpieces

end Compilation

end Playout
