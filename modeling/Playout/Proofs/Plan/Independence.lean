import Playout.Proofs.Plan.CopiedVideo
import Playout.Proofs.Plan.Wiring

/-!
# Independence of the accelerator

Which accelerator serves a request, and what is known of it, is a matter of the way of its video.
What a pipeline holds beside that way is the same on all of them.

* `Service`: an accelerator that a request may be served by.
* `Accompaniment`, `Pipeline.accompaniment`: what a pipeline holds beside the way of its video.
* `Compilation.accompaniment_of_assembled`: what is read off the compilation for it.
* `Compilation.accompaniment_servedBy`: none of that is read off the service.
* `accompaniment_eq_of_served`: the pipelines of one request, served in two ways.
-/

namespace Playout

/-- An accelerator with its device and its driver, and what is known of it. -/
structure Service where
  accelerator : Accelerator := .none
  device : Option String := none
  driver : Option String := none
  facts : Capabilities := {}

def Target.servedBy (t : Target) (s : Service) : Target :=
  { t with accelerator := s.accelerator, device := s.device, driver := s.driver }

def Request.servedBy (r : Request) (s : Service) : Request :=
  { r with target := r.target.servedBy s }

def Compilation.servedBy (c : Compilation) (s : Service) : Compilation :=
  { c with request := c.request.servedBy s, capabilities := s.facts }

/-- What a pipeline holds beside the way of its video. -/
structure Accompaniment where
  /-- Whether the video is decoded. -/
  decodes : Bool
  /-- Whether its encoder copies. -/
  copies : Bool
  inputs : List InputFile
  /-- For each filter graph, as the maps are. -/
  audioChains : List (List Chain)
  audioMaps : List (Option String)
  subtitleMaps : List (Option String)
  /-- The steps from the audio encoder to the container. -/
  ending : List Step

def Pipeline.ending (p : Pipeline) : List Step := p.steps.filter fun s => s.group.ends

def Pipeline.accompaniment (p : Pipeline) : Accompaniment where
  decodes := p.decoder?.isSome
  copies := decide (.videoEncoder .copy ∈ p.steps)
  inputs := p.inputs
  audioChains := p.graphs.map Graph.audioChains
  audioMaps := p.graphs.map Graph.audioMap
  subtitleMaps := p.graphs.map Graph.subtitleMap
  ending := p.ending

namespace Compilation

variable {c : Compilation} {a : Assembly}

/-! ## One compilation -/

/-- A graph on the streams of the request that leaves the video out. -/
def plainGraph (c : Compilation) : Graph where
  audio := some c.sources.audio
  audioFilters := c.audioFilters c.audioEncoder
  subtitle := c.sources.subtitle.map Prod.fst

/-- What accompanies the video, without a look at its machinery. -/
def accompaniment (c : Compilation) (k : Container) : Accompaniment where
  decodes := decide (c.reasons c.desired ≠ [])
  copies := decide (c.reasons c.desired = [] ∨ c.videoFormat = .copy)
  inputs := InputFile.registerAll (c.sourceFiles ++ c.layerFiles) []
  audioChains := [c.plainGraph.audioChains]
  audioMaps := [c.plainGraph.audioMap]
  subtitleMaps := [c.plainGraph.subtitleMap]
  ending := c.endingSteps c.audioEncoder k

/-- Both ways of a compilation have the audio and the subtitle of the plain graph. -/
theorem exists_graph_beside (h : c.assembled = .ok a) :
    ∃ g, c.Wires a g ∧ g.audioChains = c.plainGraph.audioChains ∧
      g.audioMap = c.plainGraph.audioMap ∧ g.subtitleMap = c.plainGraph.subtitleMap := by
  by_cases hr : c.reasons c.desired = []
  · obtain ⟨k, rfl⟩ := copied_of_assembled h hr
    have he : c.audioEncoder = c.copiedAudioEncoder := if_pos hr
    refine ⟨c.copiedGraph, wires_copied hr k, ?_⟩
    rw [plainGraph, he]
    exact ⟨rfl, rfl, rfl⟩
  · obtain ⟨t⟩ := transcoding_of_assembled h hr
    have he : c.audioEncoder = c.transcodedAudioEncoder := if_neg hr
    refine ⟨t.graph, t.wires, ?_⟩
    rw [plainGraph, he]
    exact ⟨rfl, rfl, rfl⟩

theorem isSome_decoder (h : c.assembled = .ok a) :
    a.pipeline.decoder?.isSome = decide (c.reasons c.desired ≠ []) := by
  by_cases hr : c.reasons c.desired = []
  · obtain ⟨k, rfl⟩ := copied_of_assembled h hr
    rw [decoder?_copied, decide_eq_false (not_not_intro hr)]
    rfl
  · obtain ⟨t⟩ := transcoding_of_assembled h hr
    rw [t.decoder?_eq, decide_eq_true hr]
    rfl

theorem encoder_copies_iff (h : c.assembled = .ok a) :
    .videoEncoder .copy ∈ a.pipeline.steps ↔
      c.reasons c.desired = [] ∨ c.videoFormat = .copy := by
  by_cases hr : c.reasons c.desired = []
  · obtain ⟨k, rfl⟩ := copied_of_assembled h hr
    exact iff_of_true (c.encoder_mem_copied k) (.inl hr)
  · obtain ⟨t⟩ := transcoding_of_assembled h hr
    rw [t.videoEncoder_mem_iff, eq_comm, t.encoder_eq_copy_iff, or_iff_right hr]

theorem exists_ending_eq (h : c.assembled = .ok a) :
    ∃ k, c.container = .ok k ∧ a.pipeline.ending = c.endingSteps c.audioEncoder k := by
  obtain ⟨lead, k, hk, hsteps, hlead⟩ := exists_ending h
  refine ⟨k, hk, ?_⟩
  have hnone : lead.filter (fun s => s.group.ends) = [] :=
    List.filter_eq_nil_iff.mpr fun s hs => by simp [hlead s hs]
  rw [Pipeline.ending, hsteps, List.filter_append, hnone, List.nil_append]
  exact List.filter_eq_self.mpr (ends_endingSteps _ k)

/-- **What accompanies the video** of an assembly. -/
theorem accompaniment_of_assembled (h : c.assembled = .ok a) :
    ∃ k, c.container = .ok k ∧ a.pipeline.accompaniment = c.accompaniment k := by
  obtain ⟨k, hk, hending⟩ := exists_ending_eq h
  obtain ⟨g, w, hchains, haudio, hsubtitle⟩ := exists_graph_beside h
  refine ⟨k, hk, ?_⟩
  rw [Pipeline.accompaniment, accompaniment, isSome_decoder h, w.inputs, w.graphs, hending,
    List.map_singleton, List.map_singleton, List.map_singleton, hchains, haudio, hsubtitle,
    decide_eq_decide.mpr (encoder_copies_iff h)]

/-! ## Two services -/

section

variable (c) (s : Service)

theorem sources_servedBy : (c.servedBy s).sources = c.sources := rfl

theorem reasons_servedBy :
    (c.servedBy s).reasons (c.servedBy s).desired = c.reasons c.desired := rfl

theorem container_servedBy : (c.servedBy s).container = c.container := rfl

theorem audioEncoder_servedBy : (c.servedBy s).audioEncoder = c.audioEncoder := by
  rw [audioEncoder, audioEncoder, reasons_servedBy]
  rfl

theorem plainGraph_servedBy : (c.servedBy s).plainGraph = c.plainGraph := by
  rw [plainGraph, plainGraph, sources_servedBy, audioEncoder_servedBy]
  rfl

theorem endingSteps_servedBy (e : Option AudioEncoder) (k : Container) :
    (c.servedBy s).endingSteps e k = c.endingSteps e k := by
  rw [endingSteps, endingSteps, sources_servedBy]
  rfl

/-- **Nothing beside the video** depends on the service. -/
theorem accompaniment_servedBy (k : Container) :
    (c.servedBy s).accompaniment k = c.accompaniment k := by
  rw [accompaniment, accompaniment, reasons_servedBy, plainGraph_servedBy, audioEncoder_servedBy,
    endingSteps_servedBy]
  rfl

end

theorem accompaniment_of_run {p : Pipeline} (h : c.run = .ok p) :
    ∃ k, c.container = .ok k ∧ p.accompaniment = c.accompaniment k := by
  obtain ⟨a, ha, rfl⟩ := assembled_of_run h
  exact accompaniment_of_assembled ha

end Compilation

/-- **The accelerator leaves the rest alone.**  Two pipelines of one request, each for an
accelerator of its own, agree on everything beside the way of the video. -/
theorem accompaniment_eq_of_served {r : Request} {config : Config} {s t : Service} {p q : Pipeline}
    (hp : compile (r.servedBy s) s.facts config = .ok p)
    (hq : compile (r.servedBy t) t.facts config = .ok q) : p.accompaniment = q.accompaniment := by
  -- both are compilations of the request without a service
  let c : Compilation := ⟨r, {}, config⟩
  obtain ⟨j, hj, hsp⟩ := Compilation.accompaniment_of_run (c := c.servedBy s) hp
  obtain ⟨k, hk, hsq⟩ := Compilation.accompaniment_of_run (c := c.servedBy t) hq
  rw [Compilation.container_servedBy] at hj hk
  obtain rfl : j = k := Except.ok.inj (hj.symm.trans hk)
  rw [hsp, hsq, c.accompaniment_servedBy s, c.accompaniment_servedBy t]

/-- The film with its subtitle, its clock and surround sound. -/
def surroundFilm : Request :=
  { Compilation.signedFilm.request with
    audio := some ⟨"film.mkv", ⟨1, "ac3", 6, none⟩⟩ }

def vaapiService : Service where
  accelerator := .vaapi
  device := some "/dev/dri/renderD129"
  facts := {
    decoders := [⟨.h264, [8]⟩]
    encoders := [⟨.h264, [8]⟩] }

/-- On the host and on the accelerator the film is read from the same files, and its sound ends up
the same. -/
theorem surroundFilm_served :
    ∃ p q, compile (surroundFilm.servedBy {}) {} {} = .ok p ∧
      compile (surroundFilm.servedBy vaapiService) vaapiService.facts {} = .ok q ∧
      p.usesHardware = false ∧ q.usesHardware = true ∧
      p.inputs.map InputFile.path = ["film.mkv", "clock.raw"] ∧
      p.accompaniment = q.accompaniment := by
  have hhost : (compile (surroundFilm.servedBy {}) {} {}).toOption.map (fun p =>
      (p.usesHardware, p.inputs.map InputFile.path)) = some (false, ["film.mkv", "clock.raw"]) := by
    decide +kernel
  have hvaapi : (compile (surroundFilm.servedBy vaapiService) vaapiService.facts {}).toOption.map
      Pipeline.usesHardware = some true := by decide +kernel
  obtain ⟨p, hp, hread⟩ := Option.map_eq_some_iff.mp hhost
  obtain ⟨q, hq, hused⟩ := Option.map_eq_some_iff.mp hvaapi
  obtain ⟨hunused, hpaths⟩ := Prod.mk.inj hread
  have hp := toOption_eq_some_iff.mp hp
  have hq := toOption_eq_some_iff.mp hq
  exact ⟨p, q, hp, hq, hunused, hused, hpaths, accompaniment_eq_of_served (s := {}) hp hq⟩

end Playout
