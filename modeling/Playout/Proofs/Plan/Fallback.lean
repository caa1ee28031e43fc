import Playout.Proofs.Graph.Margins
import Playout.Proofs.Plan.HostChoice

/-!
# Falling back to the host

An accelerator that takes no part in a pipeline leaves no trace in it: the compilation is the one
of the same request without accelerator.

* `Compilation.StaysOnHost`: a compilation that comes to choose its machinery chooses none on the
  accelerator.  Then `Compilation.run_onHost`: the accelerator makes no difference.
* `Compilation.transcoded_eq_error_iff`: of a transcoding only the watermark can be given up.
* `compile_onHost`: what is refused, what uses no hardware, and what the accelerator cannot serve
  is compiled as if there were no accelerator.
-/

namespace Playout

/-- Whether work was given up, and not refused for what was asked. -/
def Failure.isFault : Failure → Bool
  | fault _ => true
  | _ => false

/-! ## A compilation without its accelerator -/

namespace Compilation

variable {c : Compilation}

/-- A compilation that comes to choose its machinery chooses none on the accelerator. -/
def StaysOnHost (c : Compilation) : Prop :=
  ∀ d k m, c.request.target.desired c.request.video.stream c.request.settings = .ok d →
    c.container = .ok k → c.reasons d ≠ [] → c.machinery = .ok m → m.usesHardware = false

theorem subtitleLayer_onHost (b : Backend) (f : Frame) (files : List InputFile) :
    c.onHost.subtitleLayer b f files = c.subtitleLayer b f files := rfl

theorem watermarkLayer_onHost (b : Backend) (f : Frame) (files : List InputFile) :
    c.onHost.watermarkLayer b f files = c.watermarkLayer b f files := rfl

theorem layers_onHost (b : Backend) (f : Frame) (files : List InputFile) :
    c.onHost.layers b f files = c.layers b f files := by
  simp only [layers, subtitleLayer_onHost, watermarkLayer_onHost]
  rfl

theorem sources_onHost (c : Compilation) : c.onHost.sources = c.sources := rfl

theorem graph_onHost (m : Machinery) (path : MainPath) (layers : List Layer) :
    c.onHost.graph m path layers = c.graph m path layers := by
  rw [graph, graph, sources_onHost]
  rfl

theorem copied_onHost (k : Container) : c.onHost.copied k = c.copied k := by
  rw [copied, copied, copiedSteps, copiedSteps, copiedGraph, copiedGraph, sources_onHost]
  rfl

theorem mainPath_onHost (d : Frame) (m : Machinery) :
    c.onHost.mainPath { d with accelerator := .none } m = c.mainPath d m := rfl

theorem transcodeSteps_onHost {m : Machinery} (hm : m.usesHardware = false) (k : Container)
    (g : Graph) : c.onHost.transcodeSteps k m g = c.transcodeSteps k m g := by
  rw [transcodeSteps, transcodeSteps, hm, sources_onHost]
  rfl

theorem transcoded_onHost {m : Machinery} (hm : m.usesHardware = false) (d : Frame)
    (k : Container) :
    c.onHost.transcoded { d with accelerator := .none } k m = c.transcoded d k m := by
  rw [transcoded, transcoded, mainPath_onHost, sources_onHost]
  simp only [layers_onHost, graph_onHost, transcodeSteps_onHost hm]
  rfl

theorem desired_onHost (t : Target) (stream : VideoStream) (settings : Settings) :
    t.onHost.desired stream settings =
      (t.desired stream settings).map fun d => { d with accelerator := .none } := by
  have hp : t.onHost.problem? = t.problem? := rfl
  rw [Target.desired, Target.desired, hp]
  cases t.problem? with
  | some p => rfl
  | none => rfl

theorem transcodedAssembly_onHost {d : Frame} {k : Container}
    (h : ∀ m, c.machinery = .ok m → m.usesHardware = false) :
    c.onHost.transcodedAssembly { d with accelerator := .none } k = c.transcodedAssembly d k := by
  rw [transcodedAssembly, transcodedAssembly, machinery_onHost h]
  cases hm : c.machinery with
  | error x =>
    have herr : ∀ f : Machinery → Except Failure Assembly, (Except.error x >>= f) = .error x :=
      fun _ => rfl
    rw [herr, herr]
  | ok m =>
    show (c.onHost.transcoded _ k m >>= _) = (c.transcoded d k m >>= _)
    rw [transcoded_onHost (h m hm)]
    rfl

/-- **An accelerator that is not used makes no difference.** -/
theorem run_onHost (h : c.StaysOnHost) : c.onHost.run = c.run := by
  have hassembled : c.onHost.assembled = c.assembled := by
    have hdes : c.onHost.request.target.desired c.onHost.request.video.stream
        c.onHost.request.settings =
        (c.request.target.desired c.request.video.stream c.request.settings).map
          fun d => { d with accelerator := .none } := desired_onHost _ _ _
    cases hd : c.request.target.desired c.request.video.stream c.request.settings with
    | error x =>
      rw [hd] at hdes
      rw [assembled_of_refused hd, assembled_of_refused (c := c.onHost) hdes]
    | ok d =>
      rw [hd] at hdes
      cases hk : c.container with
      | error x =>
        rw [assembled_of_uncontained hd hk, assembled_of_uncontained (c := c.onHost) hdes hk]
      | ok k =>
        by_cases hr : c.reasons d = []
        · rw [assembled_of_copied hd hk hr, assembled_of_copied (c := c.onHost) hdes hk hr,
            copied_onHost]
          rfl
        · rw [assembled_of_transcoded hd hk hr,
            assembled_of_transcoded (c := c.onHost) hdes hk hr,
            transcodedAssembly_onHost fun m hm => h d k m hd hk hr hm]
  rw [run, run, hassembled]

/-! ## When the accelerator is not used -/

theorem watermarkLayer_eq_error_iff {b : Backend} {frame : Frame} {files : List InputFile}
    {x : Failure} :
    c.watermarkLayer b frame files = .error x ↔
      x = .fault .marginTooLarge ∧
        ∃ w, c.request.watermark = some w ∧ ¬w.MarginsFit frame.scaledSize frame.paddedSize := by
  unfold watermarkLayer
  cases c.request.watermark with
  | none => simp
  | some w =>
    dsimp only
    rw [bind_eq_error_iff_of_ne nofun, Layer.watermark_eq_error_iff]
    simp

theorem layers_eq_error_iff {b : Backend} {frame : Frame} {files : List InputFile} {x : Failure} :
    c.layers b frame files = .error x ↔
      x = .fault .marginTooLarge ∧
        ∃ w, c.request.watermark = some w ∧ ¬w.MarginsFit frame.scaledSize frame.paddedSize := by
  unfold layers
  rw [bind_eq_error_iff_of_ne nofun, watermarkLayer_eq_error_iff]

/-- **Of the steps of a transcoding only the watermark can be given up**, and only for its
margins. -/
theorem transcoded_eq_error_iff {d : Frame} {k : Container} {m : Machinery} {x : Failure} :
    c.transcoded d k m = .error x ↔
      x = .fault .marginTooLarge ∧ ∃ w, c.request.watermark = some w ∧
        ¬w.MarginsFit (c.mainPath d m).frame.scaledSize (c.mainPath d m).frame.paddedSize := by
  unfold transcoded
  rw [bind_eq_error_iff_of_ne nofun, layers_eq_error_iff]

theorem transcodedAssembly_eq_error_iff {d : Frame} {k : Container} {m : Machinery} {x : Failure}
    (h : c.machinery = .ok m) :
    c.transcodedAssembly d k = .error x ↔ c.transcoded d k m = .error x := by
  have hassembled : c.transcodedAssembly d k =
      c.transcoded d k m >>= fun p => .ok ⟨p, m.encoder, c.transcodedAudioEncoder⟩ := by
    rw [transcodedAssembly, h]
    rfl
  have hok : ∀ p, (.ok ⟨p, m.encoder, c.transcodedAudioEncoder⟩ : Except Failure Assembly) ≠
      .error x := by
    simp
  rw [hassembled, bind_eq_error_iff_of_ne hok]

theorem marginTooLarge_of_transcoded {d : Frame} {k : Container} {m : Machinery} {x : Failure}
    (h : c.transcoded d k m = .error x) :
    x = .fault .marginTooLarge ∧ c.request.watermark.isSome = true := by
  obtain ⟨hx, w, hw, -⟩ := transcoded_eq_error_iff.mp h
  exact ⟨hx, by rw [hw]; rfl⟩

theorem disagreement_of_checked {a : Assembly} {x : Failure} (h : checked a = .error x) :
    ∃ parts, x = .fault (.disagreement parts) := by
  unfold checked at h
  split at h
  · cases h
  · exact ⟨_, (Except.error.inj h).symm⟩

/-- What a compilation refuses, it refuses before it has chosen its machinery. -/
theorem staysOnHost_of_refused {x : Failure} (h : c.run = .error x) (hx : x.isFault = false) :
    c.StaysOnHost := by
  intro d k m hd hk hr hm
  have hrun : (c.transcodedAssembly d k >>= checked) = .error x := by
    rw [← assembled_of_transcoded hd hk hr]
    exact h
  have hfault : x.isFault = true := by
    rcases bind_eq_error_iff.mp hrun with ha | ⟨a, -, hc⟩
    · rw [(marginTooLarge_of_transcoded ((transcodedAssembly_eq_error_iff hm).mp ha)).1]
      rfl
    · obtain ⟨parts, rfl⟩ := disagreement_of_checked hc
      rfl
  rw [hx] at hfault
  cases hfault

theorem staysOnHost_of_host {p : Pipeline} (h : c.run = .ok p) (hp : p.usesHardware = false) :
    c.StaysOnHost := by
  intro d k m hd hk hr hm
  obtain ⟨a, ha, rfl⟩ := assembled_of_run h
  have hdes : d = c.desired := (Target.desired_eq_ok_iff.mp hd).2
  rcases assembled_eq_ok ha with ⟨k, hn, -⟩ | ⟨⟨t⟩⟩
  · rw [hdes] at hr
    exact absurd hn hr
  · have hmt : m = t.machinery := Except.ok.inj (hm.symm.trans t.made)
    rw [hmt]
    exact t.usesHardware_eq.symm.trans hp

/-- The accelerator can do nothing for the request: it does not decode the source, and it does not
encode the output. -/
structure Unserved (c : Compilation) : Prop where
  decoding : ∀ format, VideoFormat.ofCodec? c.request.video.stream.codec = some format →
    c.request.video.stream.stillImage = true ∨ c.request.target.accelerator = .amf ∨
      c.capabilities.decodes format c.request.video.stream.pixelFormat = false
  encoding : c.capabilities.encodes c.videoFormat (some c.request.target.pixelFormat) = false ∨
    c.request.target.accelerator.encoderName? c.videoFormat = none

theorem Unserved.decoder (h : c.Unserved) {d : Decoder} (hd : c.decoderSelection = .ok d) :
    d.isHardware = false := by
  cases hf : VideoFormat.ofCodec? c.request.video.stream.codec with
  | none =>
    rw [decoderSelection, decodingAccelerator_eq_none hf] at hd
    exact Decoder.isHardware_select_none hd
  | some format =>
    by_cases hs : c.request.video.stream.stillImage = true
    · exact Decoder.isHardware_select_still hs hd
    · have hno : c.decodingAccelerator = .none := by
        unfold decodingAccelerator
        dsimp only
        rw [hf]
        refine if_neg ?_
        rcases (h.decoding format hf).resolve_left hs with ha | hc
        · rw [ha]
          simp
        · rw [hc, Bool.and_false]
          decide
      rw [decoderSelection, hno] at hd
      exact Decoder.isHardware_select_none hd

theorem Unserved.encoder (h : c.Unserved) {e : VideoEncoder}
    (he : VideoEncoder.select c.encoderChoice = .ok e) : e.isHardware = false := by
  have hno : c.encodingAccelerator = .none := by
    unfold encodingAccelerator
    refine if_neg ?_
    rcases h.encoding with hc | hn
    · rw [hc, Bool.and_false, Bool.false_and]
      decide
    · rw [hn, Option.isSome_none, Bool.and_false]
      decide
  exact VideoEncoder.isHardware_select_none (c := c.encoderChoice) hno he

theorem staysOnHost_of_unserved (h : c.Unserved) : c.StaysOnHost := by
  intro d k m hd hk hr hm
  obtain ⟨hdec, henc, -⟩ := machinery_eq_ok hm
  exact Bool.or_eq_false_iff.mpr ⟨h.decoder hdec, h.encoder henc⟩

end Compilation

/-- Ways in which a request ends on the host: it is refused, it becomes a pipeline that uses no
hardware, or its accelerator can do nothing for it. -/
inductive FallsBack (r : Request) (facts : Capabilities) (config : Config) : Prop
  | refused (x : Failure) : compile r facts config = .error x → x.isFault = false →
      FallsBack r facts config
  | host (p : Pipeline) : compile r facts config = .ok p → p.usesHardware = false →
      FallsBack r facts config
  | unserved : (Compilation.mk r facts config).Unserved → FallsBack r facts config

/-- **Falling back leaves no trace of the accelerator.**  The request without it is refused with
the same failure, or becomes the same pipeline. -/
theorem compile_onHost {r : Request} {facts : Capabilities} {config : Config}
    (h : FallsBack r facts config) : compile r.onHost facts config = compile r facts config := by
  have hstays : (Compilation.mk r facts config).StaysOnHost := by
    cases h with
    | refused x hx hf => exact Compilation.staysOnHost_of_refused hx hf
    | host p hp hu => exact Compilation.staysOnHost_of_host hp hu
    | unserved hu => exact Compilation.staysOnHost_of_unserved hu
  have hrun := Compilation.run_onHost hstays
  exact hrun

def failure? {α : Type} : Except Failure α → Option Failure
  | .error x => some x
  | .ok _ => none

theorem failure?_eq_some_iff {α : Type} {y : Except Failure α} {x : Failure} :
    failure? y = some x ↔ y = .error x := by
  cases y <;> simp [failure?]

def unservedFilm : Request where
  video := ⟨"film.mkv", {
    codec := "vp9"
    pixelFormatName := some "yuv420p"
    frameSize := ⟨1920, 800⟩ }⟩
  target := { accelerator := .vaapi }

/-- The same film in a format that nothing encodes. -/
def unencodableFilm : Request :=
  { unservedFilm with target := { accelerator := .vaapi, videoFormat := .vc1 } }

/-- The film is encoded by the host as without accelerator, and without accelerator it is refused
in the other format as well. -/
theorem unservedFilm_onHost :
    (Compilation.mk unservedFilm {} {}).Unserved ∧
    (∃ p, compile unservedFilm {} {} = .ok p ∧ p.usesHardware = false ∧
      compile unservedFilm.onHost {} {} = .ok p) ∧
    compile unencodableFilm {} {} = .error (.unsupported .encoder "vc1" .none) ∧
    compile unencodableFilm.onHost {} {} = .error (.unsupported .encoder "vc1" .none) := by
  have hunserved : (Compilation.mk unservedFilm {} {}).Unserved :=
    ⟨fun _ _ => .inr (.inr rfl), .inl rfl⟩
  have hr : ((compile unservedFilm {} {}).toOption.map Pipeline.usesHardware) = some false := by
    decide +kernel
  obtain ⟨p, hp, hu⟩ := Option.map_eq_some_iff.mp hr
  have hp := toOption_eq_some_iff.mp hp
  have hx : failure? (compile unencodableFilm {} {}) =
      some (.unsupported .encoder "vc1" .none) := by
    decide +kernel
  have hx := failure?_eq_some_iff.mp hx
  refine ⟨hunserved, ⟨p, hp, hu, ?_⟩, hx, ?_⟩
  · rw [compile_onHost (.host p hp hu), hp]
  · rw [compile_onHost (.refused _ hx rfl), hx]

end Playout
