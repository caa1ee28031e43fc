import Playout.Proofs.Graph.SideChain
import Playout.Proofs.Path.Device
import Playout.Proofs.Plan.Rendering
import Playout.Proofs.Plan.Wiring

/-!
# Where layers and frames meet

Layers are composited where the main frames lie after their filters, and each layer is brought there
by its side chain.

* `PathPlan.overlaysInSoftware_eq_false`: frames that the stages leave on an accelerator are such
  as may be composited there.
* `Compilation.preparedFor_of_layers`: all layers are prepared for the family that composites them.
* `MeetOnDevice`, `MeetOnHost`: both inputs of every composite lie on the device, or on the host.
* `layers_meet`: one or the other holds of every transcoding with layers.
-/

namespace Playout

open VideoFilter Playout.Graph

theorem Frame.bitDepth_cases (f : Frame) : f.bitDepth = 8 ∨ f.bitDepth = 10 := by
  rw [f.bitDepth_eq_getD]
  exact PixelFormat.bitDepth_cases _

theorem Frame.bitDepth_congr {f g : Frame} (h : f.picture = g.picture) :
    f.bitDepth = g.bitDepth := by
  have hp : f.pixelFormat = g.pixelFormat := congrArg Picture.pixelFormat h
  rw [bitDepth, bitDepth, hp]

namespace PathPlan

open Stage

variable {p : PathPlan} {f : Frame}

/-- Frames that lie on an accelerator after the stages have been left there for the layers. -/
theorem overlaysInSoftware_eq_false (h : (advanceAll p.stages f).memory = .hardware) :
    p.overlaysInSoftware (advanceAll p.stages f) = false := by
  obtain ⟨k, hk⟩ : ∃ k, advanceAll p.stages f = advance p.subtitles? (advance p.toOverlays? k) :=
    ⟨_, rfl⟩
  obtain ⟨q, hq⟩ := p.advance_toOverlays k
  rw [hk] at h ⊢
  cases ho : p.overlaysInSoftware k with
  | true =>
    have hdown : (advance p.toOverlays? k).memory = .software := by
      rw [hq, ho]
      cases hm : k.isHardware with
      | true => rfl
      | false => exact Frame.isHardware_eq_false_iff.mp hm
    have hstay : (advance p.subtitles? (advance p.toOverlays? k)).memory = .software := by
      rcases p.toward_subtitles (advance p.toOverlays? k) with hs | hs
      · exact hs.trans hdown
      · exact hs
    rw [h] at hstay
    cases hstay
  | false =>
    have hburned : ¬p.burned.isSome = true := by
      intro hb
      rw [overlaysInSoftware, hb] at ho
      cases ho
    rw [hq, if_neg (by simp [ho]), advance_subtitles, if_neg hburned, ho]

/-- Layers are not composited on an accelerator over frames of ten bits. -/
theorem bitDepth_of_hardware (hb : p.backend.isHardware = true) (hl : p.hasLayers = true)
    (h : (advanceAll p.stages f).memory = .hardware) : (advanceAll p.stages f).bitDepth = 8 := by
  have ho := overlaysInSoftware_eq_false h
  rcases (advanceAll p.stages f).bitDepth_cases with h8 | h10
  · exact h8
  · rw [overlaysInSoftware, hl, hb, h10] at ho
    simp at ho

end PathPlan

def deviceOverlays : List (Backend × String) :=
  [(.cuda, "overlay_cuda"), (.qsv, "overlay_qsv"), (.vaapi, "overlay_vaapi")]

theorem overlayName_mem {b : Backend} (h : b.isHardware = true) :
    (b, Layer.overlayName b) ∈ deviceOverlays := by
  cases b with
  | software => cases h
  | cuda | qsv | vaapi => decide

/-- Both inputs of every composite lie on the device of a family: the main frames, with eight bits,
after their filters, and every layer after one upload in its side chain. -/
structure MeetOnDevice (b : Backend) (g : Graph) (f : Frame) : Prop where
  device : b.isHardware = true
  overlays : ∃ name, (b, name) ∈ deviceOverlays ∧
    ∀ x ∈ g.composites, x.calls.head?.map Call.name = some name
  memory : (nextAll g.videoFilters f).memory = .hardware
  bitDepth : (nextAll g.videoFilters f).bitDepth = 8
  sides : ∀ l ∈ g.layers, ∃ x ∈ g.chains, sideChains l = [x] ∧ Lifted b x.calls

/-- Both inputs of every composite lie on the host: no side chain moves its layer, or works on a
device. -/
structure MeetOnHost (g : Graph) (f : Frame) : Prop where
  overlays : ∀ x ∈ g.composites, x.calls.head?.map Call.name = some "overlay"
  memory : (nextAll g.videoFilters f).memory = .software
  sides : ∀ l ∈ g.layers, ∀ x ∈ sideChains l, ∀ y ∈ x.calls, y.isUpload = false ∧ y.OnHost

namespace Compilation

variable {c : Compilation} {a : Assembly}

/-- What holds of all that the three makers of layers can make holds of all layers.  Only graphics
are made with a look at the depth of the frames. -/
theorem forall_of_layers {P : Layer → Prop} {b : Backend} {frame : Frame} {files : List InputFile}
    {result : List InputFile × List Layer}
    (hpicture : ∀ input source padded, P (.pictureSubtitle input b source padded))
    (hmark : ∀ w input scaled padded l, Layer.watermark w input b scaled padded = .ok l → P l)
    (hgraphics : ∀ g input, P (.graphics g input b (frame.bitDepth == 10)))
    (h : c.layers b frame files = .ok result) : ∀ l ∈ result.2, P l := by
  unfold layers at h
  obtain ⟨⟨files', marks⟩, hw, h⟩ := bind_eq_ok_iff.mp h
  cases h
  refine List.forall_mem_append.mpr ⟨List.forall_mem_append.mpr ⟨?_, ?_⟩, ?_⟩
  · split
    · exact List.forall_mem_nil _
    · exact List.forall_mem_singleton.mpr (hpicture _ _ _)
  · unfold watermarkLayer at hw
    split at hw
    · cases hw
      exact List.forall_mem_nil _
    · obtain ⟨l, hl, hw⟩ := bind_eq_ok_iff.mp hw
      cases hw
      exact List.forall_mem_singleton.mpr (hmark _ _ _ _ l hl)
  · split
    · exact List.forall_mem_nil _
    · exact List.forall_mem_singleton.mpr (hgraphics _ _)

/-- **All layers** are prepared for the family that composites them. -/
theorem preparedFor_of_layers {b : Backend} {frame : Frame} {files : List InputFile}
    {result : List InputFile × List Layer} (h : c.layers b frame files = .ok result) :
    ∀ l ∈ result.2, l.PreparedFor b :=
  forall_of_layers (fun _ _ _ => Layer.preparedFor_pictureSubtitle _ _ _ _)
    (fun _ _ _ _ _ hl => Layer.preparedFor_watermark hl)
    (fun _ _ => Layer.preparedFor_graphics _ _ _ _) h

namespace Transcoding

variable (t : c.Transcoding a)

/-- The frames that the layers are laid over. -/
def carrying : Frame := Stage.advanceAll t.plan.stages t.decoded

def compositor : Backend := if t.carrying.isHardware then t.machinery.backend else .software

theorem frame_mainPath : (c.mainPath c.desired t.machinery).frame = t.carrying :=
  congrArg MainPath.frame (MainPath.compose_eq t.plan t.decoded)

theorem videoFilters_graph : t.graph.videoFilters = Stage.emitted t.plan.stages t.decoded :=
  congrArg MainPath.filters (MainPath.compose_eq t.plan t.decoded)

theorem picture_carrying :
    (nextAll t.graph.videoFilters a.pipeline.entering).picture = t.carrying.picture := by
  rw [picture_nextAll_congr t.picture_entering, videoFilters_graph, Stage.nextAll_emitted]
  rfl

theorem compositor_eq :
    (c.mainPath c.desired t.machinery).overlayBackend t.machinery.backend = t.compositor := by
  rw [MainPath.overlayBackend, frame_mainPath]
  rfl

theorem mem_layers {l : Layer} : l ∈ t.graph.layers ↔ l ∈ t.layers :=
  (perm_sortLayers t.layers).mem_iff

theorem preparedFor : ∀ l ∈ t.graph.layers, l.PreparedFor t.compositor := by
  intro l hl
  have hlaid := t.laid
  rw [t.compositor_eq] at hlaid
  exact preparedFor_of_layers hlaid l (t.mem_layers.mp hl)

theorem hasLayers (h : t.graph.layers ≠ []) : t.plan.hasLayers = true := by
  have horder : t.layers.map Layer.rank = c.request.layerOrder := (laid_of_layers t.laid).order
  show c.request.hasLayers = true
  cases hl : c.request.hasLayers with
  | true => rfl
  | false =>
    rw [Request.layerOrder_eq_nil_iff.mpr hl, List.map_eq_nil_iff] at horder
    refine absurd ?_ h
    show sortLayers t.layers = []
    rw [horder]
    rfl

/-- Frames reach an accelerator only where its filters are used. -/
theorem isHardware_backend (h : t.carrying.memory = .hardware) :
    t.machinery.backend.isHardware = true := by
  cases hd : t.decoded.memory with
  | hardware => exact Backend.memory_eq_hardware_iff.mp (t.memory_backend_of_decoded hd)
  | software =>
    by_contra hb
    have hsoft : t.plan.backend = .software := Backend.eq_software (Bool.eq_false_iff.mpr hb)
    have hstages : ∀ s ∈ t.plan.stages, Stage.Toward s .software := fun s hs =>
      PathPlan.toward_software hsoft s (List.mem_append_left _ hs)
    have hstay : t.carrying.memory = .software := Stage.memory_advanceAll hstages hd
    rw [h] at hstay
    cases hstay

theorem composited_graph : t.graph.Composited c.sources.video t.layers :=
  Graph.composited rfl rfl

theorem head_composites {x : Chain} (hx : x ∈ t.graph.composites) :
    x.calls.head?.map Call.name = some (Layer.overlayName t.compositor) := by
  obtain ⟨l, hl, hhead⟩ := Graph.head_of_mem_composites t.composited_graph hx
  rw [hhead, Option.map_some, (t.preparedFor l hl).overlay]

theorem meetOnDevice (hne : t.graph.layers ≠ []) (h : t.carrying.isHardware = true) :
    MeetOnDevice t.machinery.backend t.graph a.pipeline.entering := by
  have hm := Frame.isHardware_iff.mp h
  have hb := t.isHardware_backend hm
  have hcomp : t.compositor = t.machinery.backend := if_pos h
  have hpicture := t.picture_carrying
  refine ⟨hb, ⟨_, overlayName_mem hb, fun x hx => hcomp ▸ t.head_composites hx⟩,
    (congrArg Picture.memory hpicture).trans hm, ?_, fun l hl => ?_⟩
  · have hdepth : t.carrying.bitDepth = 8 := PathPlan.bitDepth_of_hardware hb (t.hasLayers hne) hm
    exact (Frame.bitDepth_congr hpicture).trans hdepth
  · have hprepared := t.preparedFor l hl
    rw [hcomp] at hprepared
    have hlifted := hprepared.lifted hb
    have hprepare : l.prepare ≠ [] := by
      obtain ⟨host, upload, device, he, -⟩ := hlifted
      rw [he]
      exact List.append_ne_nil_of_right_ne_nil _ (List.cons_ne_nil _ _)
    obtain ⟨x, hx, hside, hcalls⟩ := Graph.exists_sideChain rfl hl hprepare
    exact ⟨x, hx, hside, hcalls ▸ hlifted⟩

theorem meetOnHost (h : t.carrying.isHardware = false) :
    MeetOnHost t.graph a.pipeline.entering := by
  have hcomp : t.compositor = .software := by
    rw [compositor, h]
    rfl
  refine ⟨fun x hx => ?_, ?_, fun l hl x hx y hy => ?_⟩
  · rw [t.head_composites hx, hcomp]
    rfl
  · exact (congrArg Picture.memory t.picture_carrying).trans (Frame.isHardware_eq_false_iff.mp h)
  · have hprepared := t.preparedFor l hl
    rw [hcomp] at hprepared
    rw [Graph.calls_of_mem_sideChains hx] at hy
    have hn := (hprepared.works y (List.mem_cons_of_mem _ hy)).1.onHost
    exact ⟨Call.isUpload_eq_false hn.2, hn⟩

end Transcoding

/-- **Layers and frames meet in one memory.**  Where anything is laid over the frames of a
transcoding, all of it is composited on the device of the pipeline's family, or all of it on the
host; and the main frames and the side chains bring their frames there. -/
theorem layers_meet (h : c.assembled = .ok a) {d : Decoder}
    (hd : a.pipeline.decoder? = some d) :
    ∃ g, a.pipeline.graphs = [g] ∧ (g.layers ≠ [] →
      MeetOnDevice (.ofPipeline c.request.target.accelerator d.isHardware a.video.isHardware) g
        a.pipeline.entering ∨
      MeetOnHost g a.pipeline.entering) := by
  obtain ⟨t⟩ := transcoding_of_decoder h hd
  have hdec : d = t.machinery.decoder := Option.some.inj (hd.symm.trans t.decoder?_eq)
  obtain ⟨-, -, hb⟩ := machinery_eq_ok t.made
  rw [hdec, t.video_eq, ← hb]
  refine ⟨t.graph, t.graphs_eq, fun hne => ?_⟩
  cases hc : t.carrying.isHardware with
  | true => exact .inl (t.meetOnDevice hne hc)
  | false => exact .inr (t.meetOnHost hc)

/-- The film with its subtitle and its clock, for an accelerator that decodes and encodes it. -/
def acceleratedFilm : Compilation where
  request := { signedFilm.request with target := { accelerator := .vaapi } }
  capabilities := {
    decoders := [⟨.h264, [8]⟩]
    encoders := [⟨.h264, [8]⟩] }
  config := {}

/-- Its two layers are composited where the film is filtered. -/
theorem acceleratedFilm_meets :
    ∃ a g, acceleratedFilm.assembled = .ok a ∧ a.pipeline.graphs = [g] ∧ g.layers.length = 2 ∧
      MeetOnDevice .vaapi g a.pipeline.entering := by
  have hr : (acceleratedFilm.assembled.toOption.bind fun a =>
      a.pipeline.decoder?.bind fun d => a.pipeline.graphs.head?.map fun g =>
        (d, a.video.isHardware, g.layers.length, g.composites.map fun x => x.calls.map Call.name)) =
      some (.vaapi, true, 2, [["overlay_vaapi"], ["overlay_vaapi"]]) := by decide +kernel
  obtain ⟨a, ha, hr⟩ := exists_assembled hr
  obtain ⟨d, hd, hr⟩ := Option.bind_eq_some_iff.mp hr
  obtain ⟨g, hg, hmeet⟩ := layers_meet ha hd
  rw [hg, List.head?_cons, Option.map_some, Option.some.injEq] at hr
  simp only [Prod.mk.injEq] at hr
  obtain ⟨rfl, hv, hlength, hnames⟩ := hr
  refine ⟨a, g, ha, hg, hlength, ?_⟩
  rw [hv] at hmeet
  have hne : g.layers ≠ [] := by
    intro he
    rw [he] at hlength
    cases hlength
  refine (hmeet hne).resolve_right fun hhost => ?_
  obtain ⟨x, rest, hx, hcalls, -⟩ := List.map_eq_cons_iff.mp hnames
  have hname := hhost.overlays x (hx ▸ List.mem_cons_self)
  rw [← List.head?_map, hcalls, List.head?_cons, Option.some.injEq] at hname
  revert hname
  decide

end Compilation

end Playout
