import Playout.Proofs.Command.Amounts
import Playout.Proofs.Plan.CopiedVideo
import Playout.Proofs.Plan.Listed
import Playout.Proofs.Plan.Meeting

/-!
# Setting up the accelerator

A pipeline sets up its accelerator exactly if it decodes or encodes on it, and what it then calls
runs on that accelerator's device and no other.

* `Step.device?`, `Step.threads?`: the set-up and the number of threads, where a step gives them.
* `Compilation.Opening`: the steps start with the set-up, if there is one, and the options for the
  whole command; `opening_copied` and `Transcoding.opening` say so of both ways.
* `Opening.tells_threads_iff`: the number of threads that the words of the command give.
* `Transcoding.forall_calls_fit`, `Transcoding.forall_calls_work`: the calls of the filter graph
  fit the pipeline's family, and without one they work on the host.
* `SetUp`, `NotSetUp`: a pipeline that uses the accelerator of its target, and one that uses none.
* `setUp_iff_used`: every pipeline is one or the other.
-/

namespace Playout

open VideoFilter

/-! ## Steps -/

/-- The variables that tell drivers of a device. -/
def deviceKeys : List String := ["CUDA_VISIBLE_DEVICES", "LIBVA_DRIVER_NAME"]

theorem DeviceSetup.key_mem_deviceKeys (s : DeviceSetup) :
    ∀ v ∈ s.environment, v.key ∈ deviceKeys := by
  unfold environment
  split <;> simp [deviceKeys]

theorem Decoder.beside_next (d : Decoder) (f : Frame) : (d.next f).beside = f.beside := by
  unfold next
  split <;> rfl

namespace Step

def device? : Step → Option DeviceSetup
  | global (.device s) => some s
  | _ => none

def threads? : Step → Option UInt32
  | global (.threads n) => some n
  | _ => none

variable {s : Step} {steps : List Step}

theorem device?_eq_none (h : s.group ≠ .device) : s.device? = none := by
  cases s with
  | global o =>
    cases o with
    | device setup => exact absurd rfl h
    | _ => rfl
  | _ => rfl

theorem threads_mem_iff {n : UInt32} :
    global (.threads n) ∈ steps ↔ n ∈ steps.filterMap threads? := by
  rw [List.mem_filterMap]
  constructor
  · intro h
    exact ⟨_, h, rfl⟩
  · rintro ⟨s, hs, hn⟩
    cases s with
    | global o =>
      cases o with
      | threads m =>
        cases hn
        exact hs
      | _ => cases hn
    | _ => cases hn

theorem threads?_eq_none (h : s.group.opens = false) : s.threads? = none := by
  cases s with
  | global o => cases o <;> cases h
  | _ => rfl

theorem group_ne_device (h : s.group.opens = false) : s.group ≠ .device := by
  intro hd
  rw [hd] at h
  cases h

theorem key_not_mem_deviceKeys (h : s.group ≠ .device) :
    ∀ v ∈ s.environment, v.key ∉ deviceKeys := by
  cases s with
  | global o =>
    cases o with
    | device setup => exact absurd rfl h
    | report folder =>
      refine List.forall_mem_singleton.mpr ?_
      show "FFREPORT" ∉ deviceKeys
      decide
    | _ => exact List.forall_mem_nil _
  | _ => exact List.forall_mem_nil _

/-- **Only the set-up of a device changes the accelerator of the frames.** -/
theorem accelerator_next (h : s.group ≠ .device) (f : Frame) :
    (s.next f).accelerator = f.accelerator := by
  cases s with
  | global o =>
    cases o with
    | device setup => exact absurd rfl h
    | _ => rfl
  | decoder d =>
    have hd := congrArg Frame.accelerator (d.beside_next f)
    exact hd
  | filter g =>
    have hg := congrArg Frame.accelerator (beside_nextAll (g.videoFilters ++ g.tail) f)
    exact hg
  | output o => cases o <;> rfl
  | videoEncoder e =>
    show (e.next f).accelerator = f.accelerator
    unfold VideoEncoder.next
    split <;> rfl
  | audioEncoder e => rfl
  | container k => cases k <;> rfl

theorem accelerator_nextAll (h : ∀ s ∈ steps, s.group ≠ .device) (f : Frame) :
    (nextAll steps f).accelerator = f.accelerator := by
  induction steps generalizing f with
  | nil => rfl
  | cons s rest ih =>
    rw [nextAll_cons, ih (fun t ht => h t (List.mem_cons_of_mem s ht)),
      accelerator_next (h s List.mem_cons_self)]

end Step

namespace Compilation

variable {c : Compilation} {a : Assembly}

theorem filterMap_threads_globalSteps (usesHardware : Bool) :
    (c.globalSteps usesHardware).filterMap Step.threads? =
      (if usesHardware then some 1 else c.request.target.threads).toList := by
  have hreport : (if c.request.settings.saveReport then
      [Step.global (.report c.config.reportsFolder)] else []).filterMap Step.threads? = [] := by
    split <;> rfl
  rw [globalSteps, List.filterMap_append, List.filterMap_append, hreport]
  cases (if usesHardware then some 1 else c.request.target.threads) <;> rfl

/-- Steps that start with the set-up of a device, if there is one, and with the options for the
whole command. -/
structure Opening (c : Compilation) (p : Pipeline) (setup : Option DeviceSetup) (rest : List Step) :
    Prop where
  steps : p.steps = (setup.map fun s => Step.global (.device s)).toList
    ++ c.globalSteps setup.isSome ++ rest
  initial : p.initial = c.initial
  others : ∀ s ∈ rest, s.group.opens = false

namespace Opening

variable {p : Pipeline} {setup : Option DeviceSetup} {rest : List Step}

theorem group_after (h : c.Opening p setup rest) :
    ∀ s ∈ c.globalSteps setup.isSome ++ rest, s.group ≠ .device := by
  refine List.forall_mem_append.mpr ⟨fun s hs => ?_, fun s hs =>
    Step.group_ne_device (h.others s hs)⟩
  rw [group_globalSteps _ s hs]
  decide

theorem filterMap_device (h : c.Opening p setup rest) :
    p.steps.filterMap Step.device? = setup.toList := by
  have hrest : (c.globalSteps setup.isSome ++ rest).filterMap Step.device? = [] :=
    List.filterMap_eq_nil_iff.mpr fun s hs => Step.device?_eq_none (h.group_after s hs)
  rw [h.steps, List.append_assoc, List.filterMap_append, hrest]
  cases setup <;> rfl

theorem filterMap_threads (h : c.Opening p setup rest) :
    p.steps.filterMap Step.threads? =
      (if setup.isSome then some 1 else c.request.target.threads).toList := by
  have hrest : rest.filterMap Step.threads? = [] :=
    List.filterMap_eq_nil_iff.mpr fun s hs => Step.threads?_eq_none (h.others s hs)
  have hsetup : (setup.map fun s => Step.global (.device s)).toList.filterMap Step.threads? =
      [] := by
    cases setup <;> rfl
  rw [h.steps, List.filterMap_append, List.filterMap_append, hsetup, hrest,
    filterMap_threads_globalSteps, List.nil_append, List.append_nil]

/-- **The number of threads** is told to the whole command: one where a device is set up, else that
of the target. -/
theorem tells_threads_iff (h : c.Opening p setup rest)
    (hfile : ∀ path, .container (.file path) ∉ p.steps) {words : List String}
    (hwords : p.arguments = .ok words) {value : String} :
    Tells words "-threads" value ↔
      ∃ n, (if setup.isSome then some 1 else c.request.target.threads) = some n ∧
        value = toString n.toNat := by
  rw [Pipeline.tells_threads_iff hfile hwords]
  refine exists_congr fun n => and_congr_left fun _ => ?_
  rw [Step.threads_mem_iff, h.filterMap_threads, Option.mem_toList]

theorem accelerator_final (h : c.Opening p setup rest) :
    p.final.accelerator = (setup.map DeviceSetup.accelerator).getD .none := by
  rw [Pipeline.final, h.steps, List.append_assoc, Step.nextAll_append,
    Step.accelerator_nextAll h.group_after, h.initial]
  cases setup <;> rfl

theorem starts_iff (h : c.Opening p setup rest) :
    (∃ s rest, p.steps = .global (.device s) :: rest) ↔ setup.isSome = true := by
  cases hs : setup with
  | some s =>
    refine iff_of_true ⟨s, c.globalSteps true ++ rest, ?_⟩ rfl
    rw [h.steps, hs]
    rfl
  | none =>
    refine iff_of_false ?_ (by decide)
    rintro ⟨s, tail, he⟩
    have hd := h.filterMap_device
    rw [he, hs] at hd
    cases hd

theorem environment_of_none (h : c.Opening p none rest) :
    ∀ v ∈ p.environment, v.key ∉ deviceKeys := by
  intro v hv
  obtain ⟨s, hs, hv⟩ := List.mem_flatMap.mp hv
  rw [h.steps] at hs
  exact Step.key_not_mem_deviceKeys (h.group_after s hs) v hv

end Opening

theorem opening_copied (k : Container) : ∃ rest, c.Opening (c.copied k) none rest := by
  refine ⟨_, c.copied_layout k, rfl, fun s hs => ?_⟩
  simp only [List.mem_append, List.mem_cons] at hs
  rcases hs with rfl | hs | rfl | hs
  · rfl
  · rw [group_containerSteps _ _ _ s hs]
    rfl
  · rfl
  · exact StepGroup.opens_of_ends (ends_endingSteps _ k s hs)

namespace Transcoding

variable (t : c.Transcoding a)

def setup : Option DeviceSetup :=
  if t.machinery.usesHardware then some (c.deviceSetup t.machinery) else none

theorem isSome_setup : t.setup.isSome = t.machinery.usesHardware := by
  unfold setup
  cases t.machinery.usesHardware <;> rfl

theorem leadingSteps_eq : t.leadingSteps =
    (t.setup.map fun s => Step.global (.device s)).toList ++ c.globalSteps t.setup.isSome := by
  rw [leadingSteps, isSome_setup, setup]
  cases t.machinery.usesHardware <;> rfl

theorem opening : ∃ rest, c.Opening a.pipeline t.setup rest := by
  have hsteps := t.steps_layout
  rw [leadingSteps_eq] at hsteps
  refine ⟨_, hsteps, t.initial_eq, fun s hs => ?_⟩
  simp only [List.mem_append, List.mem_cons] at hs
  rcases hs with rfl | rfl | hs | rfl | hs | hs
  · rfl
  · rfl
  · rcases t.group_middleSteps s hs with h | h <;> rw [h] <;> rfl
  · rfl
  · rw [group_pixelFormatSteps _ _ s hs]
    rfl
  · exact StepGroup.opens_of_ends (ends_endingSteps _ _ s hs)

/-! ## The calls of the graph -/

theorem backend_eq : t.machinery.backend =
    if t.machinery.usesHardware then .ofAccelerator c.request.target.accelerator
    else .software :=
  (machinery_eq_ok t.made).2.2

theorem compositor_cases : t.compositor = t.machinery.backend ∨ t.compositor = .software := by
  unfold compositor
  split
  · exact .inl rfl
  · exact .inr rfl

/-- **The calls of the graph fit the pipeline's family.** -/
theorem forall_calls_fit :
    ∀ x ∈ t.graph.chains, ∀ y ∈ x.calls, y.Fits t.machinery.backend := by
  refine Graph.forall_calls rfl (fun f _ => (f.works_call _).1) ?_ fun l hl x hx => ?_
  · rw [t.filters_graph]
    exact t.plan.fits_emitted t.decoded
  · exact ((t.preparedFor l hl).works x hx).1.of_cases t.compositor_cases

/-- **Without an accelerator** they work on the host. -/
theorem forall_calls_work (hu : t.machinery.usesHardware = false) :
    ∀ x ∈ t.graph.chains, ∀ y ∈ x.calls, y.Works .software := by
  have hb : t.machinery.backend = .software := by rw [t.backend_eq, hu, if_neg (by decide)]
  have hd : t.machinery.decoder.isHardware = false := (Bool.or_eq_false_iff.mp hu).1
  have hm : t.decoded.memory = .software :=
    t.memory_decoded.trans (Decoder.memory_eq_software hd)
  have hcomp : t.compositor = .software := by
    rcases t.compositor_cases with h | h
    · exact h.trans hb
    · exact h
  refine Graph.forall_calls rfl (fun f _ => f.works_call _) ?_ fun l hl x hx => ?_
  · rw [t.filters_graph]
    exact PathPlan.works_emitted (p := t.plan) hb hm
  · have hprepared := t.preparedFor l hl
    rw [hcomp] at hprepared
    exact hprepared.works x hx

end Transcoding

theorem forall_calls_copied : ∀ x ∈ c.copiedGraph.chains, ∀ y ∈ x.calls, y.Works .software :=
  Graph.forall_calls rfl (fun f _ => f.works_call _) (List.forall_mem_nil _) (List.forall_mem_nil _)

end Compilation

/-! ## Both sides together -/

/-- A pipeline that sets up the accelerator of its target, first of all and once, for what it
decodes there, takes one thread, and calls nothing that needs another family's device. -/
structure SetUp (t : Target) (p : Pipeline) : Prop where
  device : ∃ s rest d, p.steps = .global (.device s) :: rest ∧
    p.steps.filterMap Step.device? = [s] ∧ s.accelerator = t.accelerator ∧
    p.decoder? = some d ∧ s.decodes = d.isHardware
  threads : p.steps.filterMap Step.threads? = [1]
  told : ∀ words, p.arguments = .ok words → ∀ value, Tells words "-threads" value ↔ value = "1"
  final : p.final.accelerator = t.accelerator
  calls : ∀ g ∈ p.graphs, ∀ x ∈ g.chains, ∀ y ∈ x.calls, y.OnHost ∨
    (Backend.ofAccelerator t.accelerator).isHardware = true ∧
      y.family? = some (.ofAccelerator t.accelerator)

/-- A pipeline that sets up nothing, tells no driver of a device, takes the threads of its target,
and calls nothing that needs a device or moves frames to or from one. -/
structure NotSetUp (t : Target) (p : Pipeline) : Prop where
  device : p.steps.filterMap Step.device? = []
  threads : p.steps.filterMap Step.threads? = t.threads.toList
  told : ∀ words, p.arguments = .ok words → ∀ value, Tells words "-threads" value ↔
    ∃ n, t.threads = some n ∧ value = toString n.toNat
  final : p.final.accelerator = .none
  environment : ∀ v ∈ p.environment, v.key ∉ deviceKeys
  calls : ∀ g ∈ p.graphs, ∀ x ∈ g.chains, ∀ y ∈ x.calls,
    y.OnHost ∧ y.isUpload = false ∧ y.isDownload = false

theorem Call.Works.onHost {x : Call} (h : x.Works .software) :
    x.OnHost ∧ x.isUpload = false ∧ x.isDownload = false :=
  ⟨h.1.onHost, isUpload_eq_false h.1.onHost.2, h.2⟩

namespace Compilation

variable {c : Compilation} {a : Assembly}

theorem Opening.notSetUp {p : Pipeline} {rest : List Step} (h : c.Opening p none rest)
    (hfile : ∀ path, .container (.file path) ∉ p.steps)
    (hcalls : ∀ g ∈ p.graphs, ∀ x ∈ g.chains, ∀ y ∈ x.calls, y.Works .software) :
    NotSetUp c.request.target p where
  device := h.filterMap_device
  threads := h.filterMap_threads
  told := fun _ hwords _ => h.tells_threads_iff hfile hwords
  final := h.accelerator_final
  environment := h.environment_of_none
  calls g hg x hx y hy := (hcalls g hg x hx y hy).onHost

namespace Transcoding

variable (t : c.Transcoding a)

theorem setUp (hu : t.machinery.usesHardware = true)
    (hfile : ∀ path, .container (.file path) ∉ a.pipeline.steps) :
    SetUp c.request.target a.pipeline := by
  obtain ⟨rest, ho⟩ := t.opening
  have hsetup : t.setup = some (c.deviceSetup t.machinery) := if_pos hu
  rw [hsetup] at ho
  refine ⟨⟨c.deviceSetup t.machinery, c.globalSteps true ++ rest, t.machinery.decoder, ho.steps,
    ho.filterMap_device, rfl, t.decoder?_eq, rfl⟩, ho.filterMap_threads,
    fun words hwords value => ?_, ho.accelerator_final, ?_⟩
  · have hone : ∀ n : UInt32, (if (some (c.deviceSetup t.machinery)).isSome then some 1
        else c.request.target.threads) = some n ↔ n = 1 := fun n => by simp [eq_comm]
    simp only [ho.tells_threads_iff hfile hwords, hone, exists_eq_left]
    exact Iff.rfl
  · rw [t.graphs_eq]
    refine List.forall_mem_singleton.mpr fun x hx y hy => ?_
    have hfits := t.forall_calls_fit x hx y hy
    rw [t.backend_eq, hu, if_pos rfl] at hfits
    exact hfits.imp_right fun hfamily => ⟨Call.isHardware_of_family? hfamily, hfamily⟩

theorem notSetUp (hu : t.machinery.usesHardware = false)
    (hfile : ∀ path, .container (.file path) ∉ a.pipeline.steps) :
    NotSetUp c.request.target a.pipeline := by
  obtain ⟨rest, ho⟩ := t.opening
  have hsetup : t.setup = none := by rw [setup, hu, if_neg (by decide)]
  rw [hsetup] at ho
  refine ho.notSetUp hfile ?_
  rw [t.graphs_eq]
  exact List.forall_mem_singleton.mpr (t.forall_calls_work hu)

end Transcoding

/-- **The accelerator is set up where it is used.**  A pipeline that decodes or encodes on an
accelerator starts with its set-up, and no other pipeline does. -/
theorem setUp_iff_used (h : c.assembled = .ok a) :
    (a.pipeline.usesHardware = true ↔
      ∃ s rest, a.pipeline.steps = .global (.device s) :: rest) ∧
    (a.pipeline.usesHardware = true → SetUp c.request.target a.pipeline) ∧
    (a.pipeline.usesHardware = false → NotSetUp c.request.target a.pipeline) := by
  have hfile := file_not_mem h
  rcases assembled_eq_ok h with ⟨k, hr, rfl⟩ | ⟨⟨t⟩⟩
  · obtain ⟨rest, ho⟩ := c.opening_copied k
    have hu : (c.copied k).usesHardware = false := c.usesHardware_copied k
    have hgraphs : (c.copied k).graphs = [c.copiedGraph] := (wires_copied hr k).graphs
    refine ⟨?_, fun hused => ?_, fun _ => ho.notSetUp hfile ?_⟩
    · rw [ho.starts_iff, hu]
      simp
    · rw [hu] at hused
      cases hused
    · rw [hgraphs]
      exact List.forall_mem_singleton.mpr forall_calls_copied
  · obtain ⟨rest, ho⟩ := t.opening
    have hu := t.usesHardware_eq
    refine ⟨?_, fun hused => t.setUp (hu.symm.trans hused) hfile,
      fun hnot => t.notSetUp (hu.symm.trans hnot) hfile⟩
    rw [ho.starts_iff, t.isSome_setup, hu]

/-- The film with its subtitle and its clock calls filters of one accelerator on three chains. -/
theorem acceleratedFilm_setUp :
    ∃ a, acceleratedFilm.assembled = .ok a ∧ SetUp acceleratedFilm.request.target a.pipeline := by
  have hr : (acceleratedFilm.assembled.toOption.bind fun a => some a.pipeline.usesHardware) =
      some true := by decide +kernel
  obtain ⟨a, ha, hr⟩ := exists_assembled hr
  exact ⟨a, ha, (setUp_iff_used ha).2.1 (Option.some.inj hr)⟩

end Compilation

end Playout
