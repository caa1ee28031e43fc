import Playout.Proofs.Filter.Reading
import Playout.Proofs.Graph.Roles
import Playout.Proofs.Item.Oblong
import Playout.Proofs.Plan.Wiring

/-!
# References to streams

The references in a command name the streams that the request gives, and the files they are in are
listed once, in the order of their first use.

* `Compilation.paths_files`: the files of a compilation have the paths of the request's streams.
* `Compilation.Wires.exists_inputs_eq`: the video's file comes first, and no other is read as a
  video.
* `StreamRef.splitOnce_text`: a reference is read back from its text.
* `Compilation.references_resolve`: every reference of a graph and its maps resolves.
-/

namespace Playout

/-! ## Texts of references -/

/-- The text of a reference is the number of its input and that of its stream, around a colon. -/
theorem StreamRef.splitOnce_text (r : StreamRef) :
    splitOnce ':' r.text.toList =
      some ((toString r.input).toList, (toString r.stream.toNat).toList) := by
  refine splitOnce_eq_some_iff.mpr ⟨?_, not_mem_toString (by decide) r.input⟩
  rw [text, String.toList_append, String.toList_append, List.append_assoc]
  rfl

namespace Compilation

variable {c : Compilation} {a : Assembly} {g : Graph}

/-! ## The files -/

theorem map_path_subtitleFile (o : Option Subtitle) :
    (o.map subtitleFile).toList.map InputFile.path = (o.map Subtitle.path).toList := by
  cases o <;> rfl

theorem path_watermarkFile (w : Watermark) : (watermarkFile w).path = w.path :=
  InputFile.path_withOptions _ _ _

theorem path_graphicsFile (g : Graphics) : (graphicsFile g).path = g.path :=
  InputFile.path_withOptions _ _ _

/-- A subtitle is a stream beside the video or a layer over it, but not both. -/
theorem path_streamedSubtitle (r : Request) :
    (r.carried?.map Subtitle.path).toList ++ (r.burnedPicture?.map Subtitle.path).toList =
      (r.streamedSubtitle?.map Subtitle.path).toList := by
  unfold Request.streamedSubtitle?
  cases h : r.carried? with
  | none => rfl
  | some s =>
    have hb : r.burnedPicture? = none := by
      rw [Request.burnedPicture?, Request.burned?_eq_none_of_carried h]
      rfl
    rw [hb]
    rfl

/-- **The paths** of the files are those of the request's streams, in the order of their roles. -/
theorem paths_files (c : Compilation) :
    (c.sourceFiles ++ c.layerFiles).map InputFile.path = c.request.paths := by
  have hw : (c.request.watermark.map watermarkFile).toList.map InputFile.path =
      (c.request.watermark.map Watermark.path).toList := by
    cases c.request.watermark with
    | none => rfl
    | some w => exact congrArg (· :: []) (path_watermarkFile w)
  have hg : (c.request.graphics.map graphicsFile).toList.map InputFile.path =
      (c.request.graphics.map Graphics.path).toList := by
    cases c.request.graphics with
    | none => rfl
    | some g => exact congrArg (· :: []) (path_graphicsFile g)
  rw [Request.paths_eq stream?_video stream?_audio, ← path_streamedSubtitle, sourceFiles,
    layerFiles]
  simp only [List.map_append, map_path_subtitleFile, hw, hg, List.append_assoc, List.map_cons,
    List.map_nil]

theorem isVideo_of_mem {f : InputFile}
    (hf : f ∈ c.audioFile.1 :: (c.request.carried?.map subtitleFile).toList ++ c.layerFiles) :
    f.kind.isVideo = false := by
  simp only [layerFiles, List.cons_append, List.mem_cons, List.mem_append, Option.mem_toList,
    Option.map_eq_some_iff] at hf
  rcases hf with rfl | ⟨s, -, rfl⟩ | (⟨s, -, rfl⟩ | ⟨w, -, rfl⟩) | ⟨g, -, rfl⟩
  · unfold audioFile
    cases c.request.audio with
    | none => exact congrArg InputKind.isVideo (InputFile.kind_add _ _)
    | some source => exact congrArg InputKind.isVideo (InputFile.kind_withOptions _ _ _)
  · rfl
  · rfl
  · exact congrArg InputKind.isVideo (InputFile.kind_withOptions _ _ _)
  · exact congrArg InputKind.isVideo (InputFile.kind_withOptions _ _ _)

/-! ## The references of a graph -/

namespace Wires

variable (w : c.Wires a g)

include w

theorem paths_inputs : a.pipeline.inputs.map InputFile.path = c.request.paths.eraseDups := by
  rw [w.inputs, InputFile.paths_registerAll, paths_files]

theorem nodup_inputs : (a.pipeline.inputs.map InputFile.path).Nodup := by
  have hnone : (([] : List InputFile).map InputFile.path).Nodup := List.nodup_nil
  rw [w.inputs]
  exact InputFile.nodup_paths_registerAll hnone _

theorem exists_inputs_eq :
    ∃ rest, a.pipeline.inputs = c.videoFile :: rest ∧ ∀ f ∈ rest, f.kind.isVideo = false := by
  obtain ⟨rest, he, hr⟩ := InputFile.exists_registerAll_eq
    (c.audioFile.1 :: (c.request.carried?.map subtitleFile).toList ++ c.layerFiles) [c.videoFile]
  refine ⟨rest, ?_, fun f hf => isVideo_of_mem (hr f hf)⟩
  rw [w.inputs]
  exact he

theorem isVideo_iff (i : Nat) (hi : i < a.pipeline.inputs.length) :
    a.pipeline.inputs[i].kind.isVideo = true ↔ i = 0 := by
  obtain ⟨rest, he, hr⟩ := w.exists_inputs_eq
  have hv : c.videoFile.kind.isVideo = true := by
    rw [videoFile, InputFile.kind_withOptions]
    rfl
  simp only [he]
  cases i with
  | zero => simpa using hv
  | succ n =>
    rw [he, List.length_cons] at hi
    have hn := hr rest[n] (List.getElem_mem (by omega))
    simp [hn]

theorem reads_chains : ∀ x ∈ g.chains, x.Reads (Resolves c.request a.pipeline.inputs) := by
  refine Graph.reads_chains ?_ ?_ fun l hl => (w.forall_layers l hl).2
  · intro ref hr
    rw [w.video, Option.some.injEq] at hr
    exact hr ▸ c.resolves_video.mono w.sources_extended
  · intro ref hr
    rw [w.audio, Option.some.injEq] at hr
    exact hr ▸ c.resolves_audio.mono w.sources_extended

theorem reads_targets :
    List.Forall₂ (LinkSource.Reads (Resolves c.request a.pipeline.inputs))
      (Role.mapped.take g.targets.length) g.targets :=
  Graph.reads_targets w.video w.audio (c.resolves_video.mono w.sources_extended)
    (c.resolves_audio.mono w.sources_extended) fun _ hr => w.resolves_subtitle hr

end Wires

/-- **References resolve.**  The inputs have the paths of the request's streams, each once and in
the order of their first use; the video's file comes first, and no other input is read as a video.
Whatever a chain or a map reads from an input is the stream that the request gives for its role; it
is written as the numbers of the input and of the stream, around a colon.
For inputs in general: a place keeps naming one file, and it has the path that was asked for. -/
theorem references_resolve (h : c.assembled = .ok a) :
    a.pipeline.inputs.map InputFile.path = c.request.paths.eraseDups ∧
    (a.pipeline.inputs.map InputFile.path).Nodup ∧
    a.pipeline.inputs[0]? = some c.videoFile ∧
    (∀ (i : Nat) (hi : i < a.pipeline.inputs.length),
      a.pipeline.inputs[i].kind.isVideo = true ↔ i = 0) ∧
    (∃ g, a.pipeline.graphs = [g] ∧
      (∀ x ∈ g.chains, x.Reads (Resolves c.request a.pipeline.inputs)) ∧
      g.maps = g.targets.map LinkSource.mapText ∧
      List.Forall₂ (LinkSource.Reads (Resolves c.request a.pipeline.inputs))
        (Role.mapped.take g.targets.length) g.targets) ∧
    (∀ ref : StreamRef, splitOnce ':' ref.text.toList =
      some ((toString ref.input).toList, (toString ref.stream.toNat).toList)) ∧
    (∀ (file : InputFile) (files : List InputFile), ∃ f, f.path = file.path ∧
      ∀ later, (InputFile.registerAll later
        (InputFile.register file files).1)[(InputFile.register file files).2]? = some f) := by
  obtain ⟨g, w⟩ := exists_wires h
  obtain ⟨rest, he, -⟩ := w.exists_inputs_eq
  have hfirst : a.pipeline.inputs[0]? = some c.videoFile := by rw [he, List.getElem?_cons_zero]
  exact ⟨w.paths_inputs, w.nodup_inputs, hfirst, w.isVideo_iff,
    ⟨g, w.graphs, w.reads_chains, Graph.maps_eq w.effective, w.reads_targets⟩,
    StreamRef.splitOnce_text, InputFile.place_stays⟩

/-- The film is listed once, for its video and for its subtitle. -/
theorem signedFilm_resolves :
    ∃ a, signedFilm.assembled = .ok a ∧
      a.pipeline.inputs.map InputFile.path =
        ["film.mkv", "anullsrc=channel_layout=stereo:sample_rate=48000", "clock.raw"] ∧
      Resolves signedFilm.request a.pipeline.inputs .subtitle ⟨0, 3⟩ := by
  have hr : (signedFilm.assembled.toOption.bind fun a => a.pipeline.graphs.head?.bind fun g =>
      g.chains[2]?.map fun x => (x.output, x.inputs)) = some ("st", [.stream ⟨0, 3⟩]) := by
    decide +kernel
  obtain ⟨a, ha, hr⟩ := exists_assembled hr
  obtain ⟨hpaths, -, -, -, ⟨g, hg, hchains, -⟩, -⟩ := references_resolve ha
  rw [hg, List.head?_cons, Option.bind_some] at hr
  obtain ⟨x, hx, hr⟩ := Option.map_eq_some_iff.mp hr
  obtain ⟨houtput, hinputs⟩ := Prod.mk.inj hr
  have hreads := hchains x (List.mem_of_getElem? hx)
  rw [Chain.Reads, Chain.roles, houtput, hinputs] at hreads
  cases hreads with
  | cons hsubtitle =>
    refine ⟨a, ha, ?_, hsubtitle⟩
    rw [hpaths]
    decide +kernel

end Compilation

end Playout
