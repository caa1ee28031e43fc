import Playout.Plan.Compile
import Playout.Proofs.Command.Registration
import Playout.Proofs.Item.Request
import Playout.Proofs.Plan.Machinery

/-!
# Sources and layers

A compilation registers the files of its streams one after the other, and keeps a reference to
each stream.

* `Resolves`: a reference that names the stream which the request gives for a role.
* `resolves_register`, `Resolves.mono`: a registration makes one, and later ones keep it.
* `Compilation.sources_files`, `Compilation.resolves_video`, `Compilation.resolves_audio`,
  `Compilation.resolves_carried`: the streams that are read in any case.
* `Layer.compositors`: the filters that lay frames over others.
* `Compilation.laid_of_layers`: the streams that are laid over the frames.
-/

namespace Playout

/-- The reference names the stream that the request gives for the role. -/
def Resolves (r : Request) (files : List InputFile) (role : Role) (ref : StreamRef) : Prop :=
  ∃ h : ref.input < files.length, r.stream? role = some (files[ref.input].path, ref.stream)

section

variable {r : Request} {files more : List InputFile} {role : Role} {ref : StreamRef}

theorem resolves_iff :
    Resolves r files role ref ↔
      ∃ f, files[ref.input]? = some f ∧ r.stream? role = some (f.path, ref.stream) := by
  constructor
  · rintro ⟨h, hs⟩
    exact ⟨_, List.getElem?_eq_getElem h, hs⟩
  · rintro ⟨f, hf, hs⟩
    obtain ⟨h, rfl⟩ := List.getElem?_eq_some_iff.mp hf
    exact ⟨h, hs⟩

theorem Resolves.mono (h : Resolves r files role ref) (hp : files <+: more) :
    Resolves r more role ref := by
  obtain ⟨f, hf, hs⟩ := resolves_iff.mp h
  exact resolves_iff.mpr ⟨f, InputFile.getElem?_mono hp hf, hs⟩

theorem resolves_register {file : InputFile} {index : UInt32}
    (h : r.stream? role = some (file.path, index)) (files : List InputFile) :
    Resolves r (InputFile.register file files).1 role
      ⟨(InputFile.register file files).2, index⟩ := by
  obtain ⟨f, hf, hp⟩ := InputFile.exists_at_register file files
  rw [← hp] at h
  exact resolves_iff.mpr ⟨f, hf, h⟩

end

/-- The compositing filters: that of the host, and those of the families. -/
def Layer.compositors : List String := ["overlay", "overlay_cuda", "overlay_qsv", "overlay_vaapi"]

theorem Layer.overlayName_mem_compositors (b : Backend) : overlayName b ∈ compositors := by
  cases b <;> decide

/-- Layers that were added after files were registered, in a given order. -/
structure Laid (r : Request) (added : List InputFile) (order : List (LayerKind × Int))
    (files : List InputFile) (result : List InputFile × List Layer) : Prop where
  files : result.1 = InputFile.registerAll added files
  order : result.2.map Layer.rank = order
  resolves : ∀ l ∈ result.2, Resolves r result.1 l.kind.role l.input
  composited : ∀ l ∈ result.2, l.overlay.name ∈ Layer.compositors

section

variable {r : Request} {files : List InputFile}

theorem laid_nil (r : Request) (files : List InputFile) : Laid r [] [] files (files, []) where
  files := rfl
  order := rfl
  resolves := List.forall_mem_nil _
  composited := List.forall_mem_nil _

theorem laid_singleton {file : InputFile} {l : Layer} {index : UInt32} {z : Int} (k : LayerKind)
    (hs : r.stream? k.role = some (file.path, index)) (hr : l.rank = (k, z))
    (hi : l.input = ⟨(InputFile.register file files).2, index⟩)
    (hn : l.overlay.name ∈ Layer.compositors) :
    Laid r [file] [(k, z)] files ((InputFile.register file files).1, [l]) where
  files := rfl
  order := congrArg (· :: []) hr
  resolves := by
    intro x hx
    have hk : l.kind = k := congrArg Prod.fst hr
    rw [List.mem_singleton.mp hx, hk, hi]
    exact resolves_register hs files
  composited := List.forall_mem_singleton.mpr hn

theorem Laid.append {a b : List InputFile} {o p : List (LayerKind × Int)}
    {x y : List InputFile × List Layer} (hx : Laid r a o files x) (hy : Laid r b p x.1 y) :
    Laid r (a ++ b) (o ++ p) files (y.1, x.2 ++ y.2) where
  files := by
    rw [InputFile.registerAll_append, ← hx.files]
    exact hy.files
  order := by
    rw [List.map_append, hx.order, hy.order]
  resolves := by
    intro l hl
    rcases List.mem_append.mp hl with hl | hl
    · refine (hx.resolves l hl).mono ?_
      rw [hy.files]
      exact InputFile.prefix_registerAll b x.1
    · exact hy.resolves l hl
  composited := List.forall_mem_append.mpr ⟨hx.composited, hy.composited⟩

end

namespace Compilation

variable {c : Compilation}

def subtitleFile (s : Subtitle) : InputFile := ⟨s.path, .subtitle s.stream, []⟩

/-! ## The streams that are read in any case -/

def sourceFiles (c : Compilation) : List InputFile :=
  [c.videoFile, c.audioFile.1] ++ (c.request.carried?.map subtitleFile).toList

theorem stream?_video :
    c.request.stream? .video = some (c.videoFile.path, c.request.video.stream.index) := by
  rw [videoFile, InputFile.path_withOptions]
  rfl

theorem stream?_audio :
    c.request.stream? .audio = some (c.audioFile.1.path, c.audioFile.2) := by
  simp only [Request.stream?, audioFile]
  cases c.request.audio with
  | none => simp
  | some source => simp

theorem stream?_subtitle {s : Subtitle} (h : c.request.streamedSubtitle? = some s) :
    c.request.stream? .subtitle = some ((subtitleFile s).path, s.stream.index) := by
  rw [Request.stream?, h]
  rfl

def mainFiles (c : Compilation) : List InputFile :=
  InputFile.registerAll [c.videoFile, c.audioFile.1] []

theorem sources_of_none (h : c.request.carried? = none) :
    c.sources = ⟨c.mainFiles, ⟨(InputFile.register c.videoFile []).2, c.request.video.stream.index⟩,
      ⟨(InputFile.register c.audioFile.1 (InputFile.register c.videoFile []).1).2, c.audioFile.2⟩,
      none⟩ := by
  rw [sources, h]
  rfl

theorem sources_of_carried {s : Subtitle} (h : c.request.carried? = some s) :
    c.sources = ⟨(InputFile.register (subtitleFile s) c.mainFiles).1,
      ⟨(InputFile.register c.videoFile []).2, c.request.video.stream.index⟩,
      ⟨(InputFile.register c.audioFile.1 (InputFile.register c.videoFile []).1).2, c.audioFile.2⟩,
      some (⟨(InputFile.register (subtitleFile s) c.mainFiles).2, s.stream.index⟩, s.method)⟩ := by
  rw [sources, h]
  rfl

theorem sources_files (c : Compilation) :
    c.sources.files = InputFile.registerAll c.sourceFiles [] := by
  cases h : c.request.carried? with
  | none =>
    rw [sources_of_none h, sourceFiles, h]
    rfl
  | some s =>
    rw [sources_of_carried h, sourceFiles, h]
    rfl

theorem mainFiles_extended (c : Compilation) : c.mainFiles <+: c.sources.files := by
  rw [sources_files, sourceFiles, InputFile.registerAll_append]
  exact InputFile.prefix_registerAll _ _

theorem sources_main (c : Compilation) :
    c.sources.video = ⟨(InputFile.register c.videoFile []).2, c.request.video.stream.index⟩ ∧
    c.sources.audio =
      ⟨(InputFile.register c.audioFile.1 (InputFile.register c.videoFile []).1).2,
        c.audioFile.2⟩ := by
  cases h : c.request.carried? with
  | none =>
    rw [sources_of_none h]
    exact ⟨rfl, rfl⟩
  | some s =>
    rw [sources_of_carried h]
    exact ⟨rfl, rfl⟩

theorem resolves_video (c : Compilation) :
    Resolves c.request c.sources.files .video c.sources.video := by
  have hvideo := resolves_register (stream?_video (c := c)) []
  have hmain : (InputFile.register c.videoFile []).1 <+: c.mainFiles :=
    InputFile.prefix_register _ _
  rw [c.sources_main.1]
  exact (hvideo.mono hmain).mono c.mainFiles_extended

theorem resolves_audio (c : Compilation) :
    Resolves c.request c.sources.files .audio c.sources.audio := by
  have haudio := resolves_register (stream?_audio (c := c)) (InputFile.register c.videoFile []).1
  rw [c.sources_main.2]
  exact haudio.mono c.mainFiles_extended

/-- A subtitle is mapped exactly if the request has one that stays a stream. -/
theorem subtitle_sources :
    c.sources.subtitle.map Prod.snd = c.request.carried?.map Subtitle.method := by
  cases h : c.request.carried? with
  | none =>
    rw [sources_of_none h]
    rfl
  | some s =>
    rw [sources_of_carried h]
    rfl

theorem resolves_carried {ref : StreamRef} {m : SubtitleMethod}
    (h : c.sources.subtitle = some (ref, m)) :
    Resolves c.request c.sources.files .subtitle ref := by
  cases hs : c.request.carried? with
  | none =>
    rw [sources_of_none hs] at h
    cases h
  | some s =>
    rw [sources_of_carried hs] at h ⊢
    cases h
    exact resolves_register (stream?_subtitle (Request.streamedSubtitle?_of_carried hs)) _

/-! ## The streams that are laid over the frames -/

def layerFiles (c : Compilation) : List InputFile :=
  (c.request.burnedPicture?.map subtitleFile).toList
    ++ (c.request.watermark.map watermarkFile).toList
    ++ (c.request.graphics.map graphicsFile).toList

theorem layerFiles_eq_nil (h : c.request.hasOverlays = false) : c.layerFiles = [] := by
  obtain ⟨-, hw, hg⟩ := Request.eq_none_of_hasOverlays h
  rw [layerFiles, Request.burnedPicture?_eq_none h, hw, hg]
  rfl

variable {b : Backend} {frame : Frame} {files : List InputFile}

theorem laid_subtitleLayer :
    Laid c.request (c.request.burnedPicture?.map subtitleFile).toList
      (c.request.burnedPicture?.map fun _ => (LayerKind.subtitle, Layer.lowest)).toList files
      (c.subtitleLayer b frame files) := by
  unfold subtitleLayer
  split
  · next h =>
    rw [h]
    exact laid_nil c.request files
  · next s h =>
    rw [h]
    exact laid_singleton .subtitle
      (stream?_subtitle (Request.streamedSubtitle?_of_picture h)) rfl rfl
      (Layer.overlayName_mem_compositors b)

theorem watermark_eq_ok {w : Watermark} {ref : StreamRef} {scaled padded : Size} {l : Layer}
    (h : Layer.watermark w ref b scaled padded = .ok l) :
    l.rank = (.watermark, w.zIndex.toInt) ∧ l.input = ref ∧
      l.overlay.name ∈ Layer.compositors := by
  unfold Layer.watermark at h
  obtain ⟨position, -, h⟩ := bind_eq_ok_iff.mp h
  cases h
  exact ⟨rfl, rfl, Layer.overlayName_mem_compositors b⟩

theorem laid_watermarkLayer {result : List InputFile × List Layer}
    (h : c.watermarkLayer b frame files = .ok result) :
    Laid c.request (c.request.watermark.map watermarkFile).toList
      (c.request.watermark.map fun w => (LayerKind.watermark, w.zIndex.toInt)).toList files
      result := by
  unfold watermarkLayer at h
  split at h
  · next hw =>
    cases h
    rw [hw]
    exact laid_nil c.request files
  · next w hw =>
    obtain ⟨l, hl, h⟩ := bind_eq_ok_iff.mp h
    cases h
    obtain ⟨hrank, hinput, hname⟩ := watermark_eq_ok hl
    have hs : c.request.stream? .watermark = some ((watermarkFile w).path, w.stream.index) := by
      rw [Request.stream?, hw, watermarkFile, InputFile.path_withOptions]
      rfl
    rw [hw]
    exact laid_singleton .watermark hs hrank hinput hname

theorem laid_graphicsLayer :
    Laid c.request (c.request.graphics.map graphicsFile).toList
      (c.request.graphics.map fun g => (LayerKind.graphics, g.zIndex.toInt)).toList files
      (c.graphicsLayer b frame files) := by
  unfold graphicsLayer
  split
  · next h =>
    rw [h]
    exact laid_nil c.request files
  · next g h =>
    have hs : c.request.stream? .graphics = some ((graphicsFile g).path, 0) := by
      rw [Request.stream?, h, graphicsFile, InputFile.path_withOptions]
      rfl
    rw [h]
    exact laid_singleton .graphics hs rfl rfl (Layer.overlayName_mem_compositors b)

/-- **The layers** are those that the request asks for, each on its own stream. -/
theorem laid_of_layers {result : List InputFile × List Layer}
    (h : c.layers b frame files = .ok result) :
    Laid c.request c.layerFiles c.request.layerOrder files result := by
  rw [c.request.layerOrder_eq]
  unfold layers at h
  obtain ⟨watermark, hw, h⟩ := bind_eq_ok_iff.mp h
  cases h
  exact (laid_subtitleLayer.append (laid_watermarkLayer hw)).append laid_graphicsLayer

end Compilation

end Playout
