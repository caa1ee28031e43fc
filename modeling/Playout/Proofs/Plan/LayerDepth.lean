import Playout.Proofs.Plan.Depth
import Playout.Proofs.Plan.Meeting

/-!
# The depth of composited frames

On the host the compositing filter works with eight bits, unless it is told a format of ten.  Of
the three makers of layers only the one for graphics tells it.

* `Call.CompositesTenBit`: an overlay on the host that is told a format of ten bits.
* `Layer.DeepForGraphics.compositesTenBit_iff`: of the three makers' overlays, that for graphics.
* `Compilation.composites_tenBit_iff`: frames of ten bits are composited with ten bits exactly if
  nothing but graphics is laid over them.
-/

namespace Playout

open VideoFilter Playout.Graph

/-- An overlay on the host that is told a format of ten bits.  Told nothing, it composites with
eight. -/
def Call.CompositesTenBit (x : Call) : Prop :=
  x.name = "overlay" ∧ keyed "format" "yuv420p10" ∈ x.arguments

namespace Layer

variable {l : Layer}

/-- Of the layers over frames of ten bits on the host, graphics alone are composited with as
many. -/
structure DeepForGraphics (l : Layer) : Prop where
  name : l.overlay.name = "overlay"
  format : keyed "format" "yuv420p10" ∈ l.overlay.arguments ↔ l.kind = .graphics

theorem deepForGraphics_pictureSubtitle (input : StreamRef) (source padded : Size) :
    (pictureSubtitle input .software source padded).DeepForGraphics where
  name := rfl
  format := by simp +decide [pictureSubtitle]

theorem deepForGraphics_graphics (g : Graphics) (input : StreamRef) :
    (graphics g input .software true).DeepForGraphics where
  name := rfl
  format := by simp [graphics, Backend.isHardware]

/-- A place has no format. -/
theorem format_not_mem_position {a : Anchor} {frame : Size} {h v : Float} {offset : Offset}
    {args : List Argument} (hp : a.position frame h v offset = .ok args) (value : String) :
    keyed "format" value ∉ args := by
  unfold Anchor.position at hp
  obtain ⟨x, -, hp⟩ := bind_eq_ok_iff.mp hp
  obtain ⟨y, -, hp⟩ := bind_eq_ok_iff.mp hp
  rw [← Except.ok.inj hp]
  cases a <;> simp [keyed, keyedNat]

theorem deepForGraphics_watermark {w : Watermark} {input : StreamRef} {scaled padded : Size}
    (h : watermark w input .software scaled padded = .ok l) : l.DeepForGraphics := by
  unfold watermark at h
  obtain ⟨position, hposition, h⟩ := bind_eq_ok_iff.mp h
  cases h
  refine ⟨rfl, iff_of_false (format_not_mem_position hposition _) nofun⟩

theorem DeepForGraphics.compositesTenBit_iff (h : l.DeepForGraphics) :
    l.overlay.CompositesTenBit ↔ l.kind = .graphics := by
  rw [Call.CompositesTenBit, and_iff_right h.name, h.format]

end Layer

/-- All layers are graphics if there is neither a subtitle of pictures nor a watermark. -/
theorem Request.forall_graphics_iff (r : Request) :
    (∀ k ∈ r.layerOrder.map Prod.fst, k = .graphics) ↔
      r.burnedPicture? = none ∧ r.watermark = none := by
  rw [r.layerOrder_eq]
  cases r.burnedPicture? <;> cases r.watermark <;> cases r.graphics <;> simp

namespace Compilation

variable {c : Compilation} {a : Assembly}

namespace Transcoding

variable (t : c.Transcoding a)

/-- Frames of ten bits have come down to the host for their layers. -/
theorem compositor_of_tenBit (hne : t.graph.layers ≠ []) (h : t.carrying.bitDepth = 10) :
    t.compositor = .software := by
  have hhost : t.carrying.isHardware = false := by
    by_contra hc
    have hm := Frame.isHardware_iff.mp ((Bool.not_eq_false _).mp hc)
    have hdepth : t.carrying.bitDepth = 8 :=
      PathPlan.bitDepth_of_hardware (t.isHardware_backend hm) (t.hasLayers hne) hm
    rw [h] at hdepth
    cases hdepth
  rw [compositor, hhost]
  rfl

theorem deepForGraphics_layers (h : t.carrying.bitDepth = 10) :
    ∀ l ∈ t.graph.layers, l.DeepForGraphics := by
  intro l hl
  have hlaid := t.laid
  rw [t.compositor_eq, t.compositor_of_tenBit (List.ne_nil_of_mem hl) h, t.frame_mainPath] at hlaid
  refine forall_of_layers (fun _ _ _ => Layer.deepForGraphics_pictureSubtitle _ _ _)
    (fun _ _ _ _ _ hw => Layer.deepForGraphics_watermark hw) (fun g input => ?_) hlaid l
    (t.mem_layers.mp hl)
  rw [h]
  exact Layer.deepForGraphics_graphics g input

theorem forall_kind_iff {P : LayerKind → Prop} :
    (∀ l ∈ t.graph.layers, P l.kind) ↔ ∀ k ∈ c.request.layerOrder.map Prod.fst, P k := by
  have horder : t.layers.map Layer.rank = c.request.layerOrder := (laid_of_layers t.laid).order
  rw [← horder, List.map_map, List.forall_mem_map]
  exact forall_congr' fun l => imp_congr_left t.mem_layers

/-- The composites begin with the overlays of the layers. -/
theorem forall_composites_iff {P : Call → Prop} :
    (∀ x ∈ t.graph.composites, ∃ y, x.calls.head? = some y ∧ P y) ↔
      ∀ l ∈ t.graph.layers, P l.overlay := by
  have hheads : t.graph.composites.map (fun x => x.calls.head?) =
      t.graph.layers.map fun l => some l.overlay := by
    simpa only [List.map_map, Function.comp_def] using
      congrArg (List.map fun x => x.2.1) t.composited_graph.composites
  have hall : (∀ o ∈ t.graph.composites.map (fun x => x.calls.head?), ∃ y, o = some y ∧ P y) ↔
      ∀ l ∈ t.graph.layers, P l.overlay := by
    rw [hheads]
    simp
  rwa [List.forall_mem_map] at hall

end Transcoding

/-- **Frames of ten bits are composited with ten bits under graphics only.**  Where the main chain
of a transcoding leaves frames of ten bits, all layers are composited on the host; and all of them
by an overlay that is told a format of ten bits exactly if there is neither a subtitle of pictures
nor a watermark. -/
theorem composites_tenBit_iff (h : c.assembled = .ok a) {d : Decoder}
    (hd : a.pipeline.decoder? = some d) :
    ∃ g, a.pipeline.graphs = [g] ∧
      ((nextAll g.videoFilters a.pipeline.entering).bitDepth = 10 →
        (∀ x ∈ g.composites, ∃ y, x.calls.head? = some y ∧ y.name = "overlay") ∧
        ((∀ x ∈ g.composites, ∃ y, x.calls.head? = some y ∧ y.CompositesTenBit) ↔
          c.request.burnedPicture? = none ∧ c.request.watermark = none)) := by
  obtain ⟨t⟩ := transcoding_of_decoder h hd
  refine ⟨t.graph, t.graphs_eq, fun hdepth => ?_⟩
  rw [Frame.bitDepth_congr t.picture_carrying] at hdepth
  have hdeep := t.deepForGraphics_layers hdepth
  refine ⟨t.forall_composites_iff.mpr fun l hl => (hdeep l hl).name, ?_⟩
  rw [t.forall_composites_iff, ← Request.forall_graphics_iff, ← t.forall_kind_iff]
  exact forall₂_congr fun l hl => (hdeep l hl).compositesTenBit_iff

/-- The clock is composited over the film with ten bits. -/
theorem clockedFilm_composites :
    ∃ a g, clockedFilm.assembled = .ok a ∧ a.pipeline.graphs = [g] ∧ g.composites.length = 1 ∧
      ∀ x ∈ g.composites, ∃ y, x.calls.head? = some y ∧ y.CompositesTenBit := by
  have hr : (clockedFilm.assembled.toOption.bind fun a =>
      a.pipeline.decoder?.bind fun d => a.pipeline.graphs.head?.map fun g =>
        (d, g.composites.length, (nextAll g.videoFilters a.pipeline.entering).bitDepth)) =
      some (.vaapi, 1, 10) := by decide +kernel
  obtain ⟨a, ha, hr⟩ := exists_assembled hr
  obtain ⟨d, hd, hr⟩ := Option.bind_eq_some_iff.mp hr
  obtain ⟨g, hg, hdepth⟩ := composites_tenBit_iff ha hd
  rw [hg, List.head?_cons, Option.map_some, Option.some.injEq] at hr
  simp only [Prod.mk.injEq] at hr
  obtain ⟨-, hlength, hten⟩ := hr
  exact ⟨a, g, ha, hg, hlength, (hdepth hten).2.mpr ⟨rfl, rfl⟩⟩

/-- A ten-bit film with a subtitle of pictures, for a ten-bit target. -/
def signedDeepFilm : Compilation where
  request := {
    video := ⟨"film.mkv", {
      codec := "hevc"
      pixelFormatName := some "yuv420p10le"
      frameSize := ⟨1920, 1080⟩ }⟩
    subtitle := some { path := "film.mkv", stream := ⟨3, "hdmv_pgs_subtitle", none⟩ }
    target := { videoFormat := .hevc, bitDepth := 10 } }
  capabilities := {}
  config := {}

/-- The subtitle is laid over frames of ten bits by an overlay that is told a place only. -/
theorem signedDeepFilm_composites :
    ∃ a g, signedDeepFilm.assembled = .ok a ∧ a.pipeline.decoder? = some (.software .hevc) ∧
      a.pipeline.graphs = [g] ∧ (nextAll g.videoFilters a.pipeline.entering).bitDepth = 10 ∧
      g.composites.map (fun x => x.calls.head?) =
        [some ⟨"overlay", [keyed "x" "(W-w)/2", keyed "y" "(H-h)/2"]⟩] ∧
      ¬∀ x ∈ g.composites, ∃ y, x.calls.head? = some y ∧ y.CompositesTenBit := by
  have hr : (signedDeepFilm.assembled.toOption.bind fun a =>
      a.pipeline.decoder?.bind fun d => a.pipeline.graphs.head?.map fun g =>
        (d, (nextAll g.videoFilters a.pipeline.entering).bitDepth,
          g.composites.map fun x => x.calls.head?)) =
      some (.software .hevc, 10,
        [some ⟨"overlay", [keyed "x" "(W-w)/2", keyed "y" "(H-h)/2"]⟩]) := by
    decide +kernel
  obtain ⟨a, ha, hr⟩ := exists_assembled hr
  obtain ⟨d, hd, hr⟩ := Option.bind_eq_some_iff.mp hr
  obtain ⟨g, w⟩ := exists_wires ha
  rw [w.graphs, List.head?_cons, Option.map_some, Option.some.injEq] at hr
  simp only [Prod.mk.injEq] at hr
  obtain ⟨rfl, hten, hheads⟩ := hr
  refine ⟨a, g, ha, hd, w.graphs, hten, hheads, fun hall => ?_⟩
  obtain ⟨x, rest, hx, hhead, -⟩ := List.map_eq_cons_iff.mp hheads
  obtain ⟨y, hy, hcomposites⟩ := hall x (hx ▸ List.mem_cons_self)
  rw [hhead, Option.some.injEq] at hy
  rw [← hy] at hcomposites
  exact absurd hcomposites.2 (by decide)

end Compilation

end Playout
