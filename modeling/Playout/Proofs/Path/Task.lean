import Playout.Proofs.Filter.LastFormat
import Playout.Proofs.Path.Stage

/-!
# Tasks

What the filters of the main path are there for, stage by stage.

* `FilterWork.task`, `VideoFilter.task`: the task of a filter.
* `PathPlan.task_of_deinterlace` and its siblings: a stage adds a filter for its own tasks only.
* `PathPlan.calls_ne_nil_emitted`: no filter of a path is without a call.
* `PathPlan.filterMap_burned_emitted`: text is burned in once, where there is one.
-/

namespace Playout

open Transfer VideoFilter

inductive Task where
  | deinterlace
  | tonemap
  | scale
  | convert
  | pad
  | crop
  | subtitles
  | move
deriving DecidableEq

def FilterWork.task : FilterWork → Task
  | deinterlace => .deinterlace
  | tonemap _ _ => .tonemap
  | scale _ _ _ => .scale
  | convert _ => .convert
  | pad _ => .pad
  | crop _ => .crop
  | subtitles _ _ _ => .subtitles

namespace VideoFilter

def task : VideoFilter → Task
  | work _ _ w => w.task
  | move _ => .move

def burned? : VideoFilter → Option BurnedText
  | work _ _ (.subtitles path index fonts) => some ⟨path, index, fonts⟩
  | _ => none

theorem burned?_eq_none {v : VideoFilter} (h : v.task ≠ .subtitles) : v.burned? = none := by
  cases v with
  | work b lead w =>
    cases w with
    | subtitles path index fonts => exact absurd rfl h
    | _ => rfl
  | move t => rfl

def leadCalls (lead : Option Transfer) : List Call := (lead.map Transfer.calls).getD []

theorem calls_work (b : Backend) (lead : Option Transfer) (w : FilterWork) :
    (work b lead w).calls = leadCalls lead ++ w.calls b := by
  cases lead with
  | none => rfl
  | some t => rfl

/-- **A filter calls for subtitles** just for the text that it burns in. -/
theorem filter_subtitles (v : VideoFilter) :
    v.calls.filter (fun x => x.name == "subtitles") =
      v.burned?.toList.map fun b => FilterWork.subtitlesCall b.path b.index b.fonts := by
  have hmove : ∀ t : Transfer, t.calls.filter (fun x => x.name == "subtitles") = [] := by
    intro t
    cases t with
    | upload b requested => cases b <;> cases requested <;> rfl
    | download source target =>
      dsimp only [Transfer.calls, downloadCalls]
      split
      · split <;> rfl
      · rfl
  cases v with
  | work b lead w =>
    have hlead : (leadCalls lead).filter (fun x => x.name == "subtitles") = [] := by
      cases lead with
      | none => rfl
      | some t => exact hmove t
    rw [calls_work, List.filter_append, hlead, List.nil_append]
    cases w with
    | scale r p square => cases square <;> cases b <;> rfl
    | _ => cases b <;> rfl
  | move t => exact hmove t

theorem filter_subtitles_flatMap (vs : List VideoFilter) :
    (vs.flatMap calls).filter (fun x => x.name == "subtitles") =
      (vs.filterMap burned?).map fun b => FilterWork.subtitlesCall b.path b.index b.fonts := by
  induction vs with
  | nil => rfl
  | cons v vs ih =>
    rw [List.flatMap_cons, List.filter_append, ih, filter_subtitles, List.filterMap_cons]
    cases v.burned? <;> rfl

theorem calls_ne_nil_of_task {v : VideoFilter} (h : v.task ≠ .move) : v.calls ≠ [] := by
  cases v with
  | work b lead w =>
    exact List.append_ne_nil_of_right_ne_nil _ (w.calls_ne_nil b)
  | move t => exact absurd rfl h

theorem calls_download (f : Frame) (target : Option PixelFormat) :
    (download f target).calls ≠ [] :=
  List.cons_ne_nil _ _

theorem calls_upload {b : Backend} (hb : b.isHardware = true) (p : Option PixelFormat) :
    (VideoFilter.upload b p).calls ≠ [] := by
  cases b with
  | software => cases hb
  | cuda => cases p <;> exact List.cons_ne_nil _ _
  | qsv | vaapi => exact List.cons_ne_nil _ _

end VideoFilter

namespace Stage

/-- Where stages keep something of the frames, what holds of every filter that is added for such
frames holds of all that are emitted. -/
theorem forall_mem_emitted_of {P : Frame → Prop} {Q : VideoFilter → Prop} {stages : List Stage}
    (h : ∀ s ∈ stages, ∀ f v, P f → s f = some v → Q v ∧ P (v.next f)) {f : Frame} (hf : P f) :
    ∀ v ∈ emitted stages f, Q v := by
  induction stages generalizing f with
  | nil => exact List.forall_mem_nil _
  | cons s rest ih =>
    have hrest := fun t ht => h t (List.mem_cons_of_mem s ht)
    cases hv : s f with
    | none =>
      rw [emitted, hv, advance_none hv]
      exact ih hrest hf
    | some v =>
      obtain ⟨hq, hp⟩ := h s List.mem_cons_self f v hf hv
      rw [emitted, hv, advance_some hv]
      exact List.forall_mem_cons.mpr ⟨hq, ih hrest hp⟩

/-- What holds of every filter that some stage adds holds of all that are emitted. -/
theorem forall_mem_emitted {P : VideoFilter → Prop} {stages : List Stage}
    (h : ∀ s ∈ stages, ∀ f v, s f = some v → P v) (f : Frame) :
    ∀ v ∈ emitted stages f, P v :=
  forall_mem_emitted_of (P := fun _ => True) (fun s hs f v _ hv => ⟨h s hs f v hv, trivial⟩) trivial

end Stage

namespace PathPlan

open Stage

variable {p : PathPlan} {f : Frame} {v : VideoFilter}

/-! ## The tasks of a stage -/

theorem task_of_deinterlace (h : p.deinterlace? f = some v) : v.task = .deinterlace := by
  unfold deinterlace? at h
  split at h
  · cases h
    rfl
  · cases h

theorem task_of_tonemap (h : p.tonemap? f = some v) : v.task = .tonemap := by
  rw [tonemap?_eq] at h
  split at h
  · cases h
    rfl
  · cases h

theorem task_of_scale (h : p.scale? f = some v) : v.task = .scale ∨ v.task = .convert := by
  by_cases hr : p.Rescales f
  · rw [scale?_of_rescales hr] at h
    cases h
    exact .inl rfl
  · rw [scale?_of_not_rescales hr] at h
    split at h
    · split at h
      · cases h
        exact .inr rfl
      · cases h
    · cases h

theorem task_of_frame (h : p.frame? f = some v) : v.task = .pad ∨ v.task = .crop := by
  unfold frame? at h
  split at h
  · split at h
    · cases h
      exact .inr rfl
    · cases h
  · split at h
    · cases h
      exact .inl rfl
    · cases h

theorem download_of_toEncoder (h : p.toEncoder? f = some v) : ∃ t, v = download f t := by
  unfold toEncoder? at h
  split at h
  · cases h
    exact ⟨_, rfl⟩
  · cases h

theorem download_of_toOverlays (h : p.toOverlays? f = some v) : ∃ t, v = download f t := by
  unfold toOverlays? at h
  split at h
  · cases h
    exact ⟨_, rfl⟩
  · cases h

theorem task_of_subtitles (h : p.subtitles? f = some v) : v.task = .subtitles := by
  obtain ⟨b, -, rfl⟩ := Option.map_eq_some_iff.mp h
  rfl

theorem upload_of_finalUpload {b : Backend} {e : VideoEncoder}
    (h : finalUpload? b e f = some v) :
    b.isHardware = true ∧ ∃ q, v = VideoFilter.upload b q := by
  unfold finalUpload? at h
  split at h
  · split at h
    · cases h
    · next hb =>
      cases h
      rw [Bool.or_eq_true, not_or, Bool.not_eq_true', Bool.not_eq_false] at hb
      exact ⟨hb.2, _, rfl⟩
  · cases h

/-! ## All stages -/

/-- The stages, each with the tasks of its filters. -/
def stageTasks (p : PathPlan) : List (Stage × List Task) :=
  [(p.deinterlace?, [.deinterlace]), (p.tonemap?, [.tonemap]), (p.scale?, [.scale, .convert]),
    (p.frame?, [.pad, .crop]), (p.toEncoder?, [.move]), (p.toOverlays?, [.move]),
    (p.subtitles?, [.subtitles]), (finalUpload? p.backend p.encoder, [.move])]

theorem task_mem {x : Stage × List Task} (hx : x ∈ p.stageTasks) (h : x.1 f = some v) :
    v.task ∈ x.2 := by
  simp only [stageTasks, List.mem_cons, List.not_mem_nil, or_false] at hx
  rcases hx with rfl | rfl | rfl | rfl | rfl | rfl | rfl | rfl
  · simp [task_of_deinterlace h]
  · simp [task_of_tonemap h]
  · simp [task_of_scale h]
  · simp [task_of_frame h]
  · obtain ⟨t, rfl⟩ := download_of_toEncoder h
    exact List.mem_singleton_self _
  · obtain ⟨t, rfl⟩ := download_of_toOverlays h
    exact List.mem_singleton_self _
  · simp [task_of_subtitles h]
  · obtain ⟨-, q, rfl⟩ := upload_of_finalUpload h
    exact List.mem_singleton_self _

theorem task_ne {tasks : List (Stage × List Task)} (hsub : tasks ⊆ p.stageTasks) {t : Task}
    (ht : ∀ x ∈ tasks, t ∉ x.2) {s : Stage} (hs : s ∈ tasks.map Prod.fst) (h : s f = some v) :
    v.task ≠ t := by
  obtain ⟨x, hx, rfl⟩ := List.mem_map.mp hs
  rintro rfl
  exact ht x hx (task_mem (hsub hx) h)

/-- What only one task gives cannot be found among stages that do not have it. -/
theorem filterMap_emitted_eq_nil {α : Type} {f? : VideoFilter → Option α} {t : Task}
    (hf : ∀ v : VideoFilter, v.task ≠ t → f? v = none) (tasks : List (Stage × List Task))
    (hsub : tasks ⊆ p.stageTasks) (ht : ∀ x ∈ tasks, t ∉ x.2) (f : Frame) :
    (emitted (tasks.map Prod.fst) f).filterMap f? = [] :=
  List.filterMap_eq_nil_iff.mpr (forall_mem_emitted (P := fun v => f? v = none)
    (fun _ hs _ v hv => hf v (task_ne hsub ht hs hv)) f)

theorem mem_wholeStages {s : Stage} :
    s ∈ p.wholeStages ↔
      s = p.deinterlace? ∨ s = p.tonemap? ∨ s = p.scale? ∨ s = p.frame? ∨ s = p.toEncoder? ∨
        s = p.toOverlays? ∨ s = p.subtitles? ∨ s = finalUpload? p.backend p.encoder := by
  simp [wholeStages, stages]

/-- **No filter of a path is without a call.** -/
theorem calls_ne_nil_emitted (p : PathPlan) (f : Frame) :
    ∀ v ∈ emitted p.wholeStages f, v.calls ≠ [] := by
  refine forall_mem_emitted ?_ f
  intro s hs f v hv
  rcases mem_wholeStages.mp hs with rfl | rfl | rfl | rfl | rfl | rfl | rfl | rfl
  · exact calls_ne_nil_of_task (by simp [task_of_deinterlace hv])
  · exact calls_ne_nil_of_task (by simp [task_of_tonemap hv])
  · refine calls_ne_nil_of_task ?_
    rcases task_of_scale hv with ht | ht <;> simp [ht]
  · refine calls_ne_nil_of_task ?_
    rcases task_of_frame hv with ht | ht <;> simp [ht]
  · obtain ⟨t, rfl⟩ := download_of_toEncoder hv
    exact calls_download f t
  · obtain ⟨t, rfl⟩ := download_of_toOverlays hv
    exact calls_download f t
  · exact calls_ne_nil_of_task (by simp [task_of_subtitles hv])
  · obtain ⟨hb, q, rfl⟩ := upload_of_finalUpload hv
    exact calls_upload hb q

def unburned (p : PathPlan) : List Stage :=
  [p.deinterlace?, p.tonemap?, p.scale?, p.frame?, p.toEncoder?, p.toOverlays?]

theorem burned?_of_mem_unburned {s : Stage} (hs : s ∈ p.unburned) (f : Frame) (v : VideoFilter)
    (hv : s f = some v) : v.burned? = none :=
  burned?_eq_none (task_ne (List.take_subset 6 p.stageTasks) (by simp [stageTasks]) hs hv)

/-- **Text is burned in once**, where there is one. -/
theorem filterMap_burned_emitted (p : PathPlan) (f : Frame) :
    (emitted p.stages f).filterMap burned? = p.burned.toList := by
  have hsplit : p.stages = p.unburned ++ [p.subtitles?] := rfl
  have hbefore : (emitted p.unburned f).filterMap burned? = [] :=
    List.filterMap_eq_nil_iff.mpr
      (forall_mem_emitted (P := fun v => v.burned? = none)
        (fun s hs => burned?_of_mem_unburned hs) f)
  rw [hsplit, emitted_append, List.filterMap_append, hbefore, List.nil_append]
  simp only [emitted, subtitles?, List.append_nil]
  cases p.burned with
  | none => rfl
  | some b => rfl

theorem filterMap_burned_finalUpload (b : Backend) (e : VideoEncoder) (f : Frame) :
    (finalUpload? b e f).toList.filterMap burned? = [] := by
  cases h : finalUpload? b e f with
  | none => rfl
  | some v =>
    obtain ⟨-, q, rfl⟩ := upload_of_finalUpload h
    rfl

end PathPlan

end Playout
