import Playout.Proofs.Plan.StepGroup

/-!
# The states along a pipeline

The frames on their way through the steps of a pipeline, and within a graph of filters through its
filters.  What every step keeps holds of them all.

* `Pipeline.states`: the frames before the first step, after every filter of the main frames and
  after every step.
* `nextAll_mem_states`, `nextAll_mem_states_of_filter`: none of them is left out.
* `forall_mem_states`: what all steps keep holds all along.
-/

namespace Playout

namespace VideoFilter

/-- The frames before each of the filters and after the last one. -/
def states : List VideoFilter → Frame → List Frame
  | [], f => [f]
  | v :: rest, f => f :: states rest (v.next f)

/-- A filter that leaves frames with a property as such. -/
def Keeps (P : Frame → Prop) (v : VideoFilter) : Prop := ∀ f, P f → P (v.next f)

variable {P : Frame → Prop} {vs : List VideoFilter} {f : Frame}

theorem nextAll_mem_states (vs ws : List VideoFilter) (f : Frame) :
    nextAll vs f ∈ states (vs ++ ws) f := by
  induction vs generalizing f with
  | nil => cases ws <;> exact List.mem_cons_self
  | cons v rest ih => exact List.mem_cons_of_mem _ (ih (v.next f))

theorem forall_mem_states (h : ∀ v ∈ vs, v.Keeps P) (hf : P f) : ∀ g ∈ states vs f, P g := by
  induction vs generalizing f with
  | nil => exact List.forall_mem_singleton.mpr hf
  | cons v rest ih =>
    have hv : P (v.next f) := h v List.mem_cons_self f hf
    exact List.forall_mem_cons.mpr
      ⟨hf, ih (fun w hw => h w (List.mem_cons_of_mem v hw)) hv⟩

theorem nextAll_of_keeps (h : ∀ v ∈ vs, v.Keeps P) (hf : P f) : P (nextAll vs f) :=
  forall_mem_states h hf _ (by simpa using nextAll_mem_states vs [] f)

end VideoFilter

namespace Step

/-- The frames that a step gets, and those between the filters of a graph. -/
def states (s : Step) (f : Frame) : List Frame := VideoFilter.states s.mainFilters f

def statesAll : List Step → Frame → List Frame
  | [], f => [f]
  | s :: rest, f => s.states f ++ statesAll rest (s.next f)

/-- A step that leaves frames with a property as such, with each of its filters. -/
structure Keeps (P : Frame → Prop) (s : Step) : Prop where
  filters : ∀ v ∈ s.mainFilters, v.Keeps P
  next : ∀ f, P f → P (s.next f)

variable {P : Frame → Prop} {s : Step} {steps : List Step} {f : Frame}

theorem mem_states (s : Step) (f : Frame) : f ∈ s.states f := by
  unfold states
  cases s.mainFilters <;> exact List.mem_cons_self

theorem mem_statesAll (steps : List Step) (f : Frame) : f ∈ statesAll steps f := by
  cases steps with
  | nil => exact List.mem_cons_self
  | cons s rest => exact List.mem_append_left _ (s.mem_states f)

theorem statesAll_subset (lead trail : List Step) (f : Frame) :
    statesAll trail (nextAll lead f) ⊆ statesAll (lead ++ trail) f := by
  induction lead generalizing f with
  | nil => exact fun _ h => h
  | cons s rest ih => exact fun _ h => List.mem_append_right _ (ih (s.next f) h)

/-- **The step lemma.**  A graph keeps what its filters keep. -/
theorem keeps_filter {g : Graph} (h : ∀ v ∈ g.videoFilters ++ g.tail, v.Keeps P) :
    (filter g).Keeps P where
  filters := h
  next _ hf := VideoFilter.nextAll_of_keeps h hf

theorem keeps_of_keepsPicture (hP : ∀ f g : Frame, f.picture = g.picture → P f → P g)
    (h : s.keepsPicture = true) : s.Keeps P where
  filters := by
    rw [mainFilters_of_keepsPicture h]
    exact List.forall_mem_nil _
  next f hf := hP f _ (picture_next h f).symm hf

/-- **The run lemma.** -/
theorem forall_mem_statesAll (h : ∀ s ∈ steps, s.Keeps P) (hf : P f) :
    ∀ g ∈ statesAll steps f, P g := by
  induction steps generalizing f with
  | nil => exact List.forall_mem_singleton.mpr hf
  | cons s rest ih =>
    have hs := h s List.mem_cons_self
    intro g hg
    rcases List.mem_append.mp hg with hg | hg
    · exact VideoFilter.forall_mem_states hs.filters hf g hg
    · exact ih (fun t ht => h t (List.mem_cons_of_mem s ht)) (hs.next f hf) g hg

end Step

namespace Pipeline

variable {p : Pipeline} {lead trail : List Step}

/-- The frames from the first step to the last, with those between the filters. -/
def states (p : Pipeline) : List Frame := Step.statesAll p.steps p.initial

/-- The frames after any of the first steps are among them. -/
theorem nextAll_mem_states (h : p.steps = lead ++ trail) :
    Step.nextAll lead p.initial ∈ p.states := by
  rw [states, h]
  exact Step.statesAll_subset lead trail _ (Step.mem_statesAll _ _)

theorem final_mem_states (p : Pipeline) : p.final ∈ p.states :=
  nextAll_mem_states (List.append_nil _).symm

theorem nextAll_mem_states_of_filter {g : Graph} {vs ws : List VideoFilter}
    (h : p.steps = lead ++ .filter g :: trail) (hg : g.videoFilters ++ g.tail = vs ++ ws) :
    VideoFilter.nextAll vs (Step.nextAll lead p.initial) ∈ p.states := by
  rw [states, h]
  refine Step.statesAll_subset lead _ _ (List.mem_append_left _ ?_)
  show _ ∈ VideoFilter.states (g.videoFilters ++ g.tail) _
  rw [hg]
  exact VideoFilter.nextAll_mem_states vs ws _

/-- **What all steps keep holds all along.** -/
theorem forall_mem_states {P : Frame → Prop} (h : ∀ s ∈ p.steps, s.Keeps P) (hf : P p.initial) :
    ∀ g ∈ p.states, P g :=
  Step.forall_mem_statesAll h hf

end Pipeline

end Playout
