import Playout.Proofs.Filter.Device
import Playout.Proofs.Path.Rendering
import Playout.Proofs.Path.Task

/-!
# The device of the main path

No filter of a main path needs another device than that of the path's family, and a path of the
host neither needs one nor brings frames down from one.

* `fits_emitted`: the calls of all filters fit the path's family.
* `toward_software`: without an accelerator's filters frames stay on the host.
* `works_emitted`: the calls of a path of the host.
-/

namespace Playout

open Transfer VideoFilter

namespace PathPlan

open Stage

variable {p : PathPlan} {f : Frame} {v : VideoFilter}

theorem exists_on_of_frame (h : p.frame? f = some v) :
    ∃ b w, (b = p.backend ∨ b = .software) ∧ v = on b f w := by
  unfold frame? at h
  split at h
  · split at h
    · cases h
      exact ⟨_, _, .inr rfl, rfl⟩
    · cases h
  · split at h
    · cases h
      exact ⟨_, _, padBackend_cases _, rfl⟩
    · cases h

theorem exists_on_of_subtitles (h : p.subtitles? f = some v) : ∃ w, v = on .software f w := by
  obtain ⟨t, -, rfl⟩ := Option.map_eq_some_iff.mp h
  exact ⟨_, rfl⟩

theorem fits_of_mem {s : Stage} (hs : s ∈ p.wholeStages) (h : s f = some v) :
    ∀ x ∈ v.calls, x.Fits p.backend := by
  rw [wholeStages_eq] at hs
  rcases List.mem_append.mp hs with hs | hs
  · obtain ⟨w, -, rfl⟩ := exists_on_of_rising hs h
    exact fits_on (.inl rfl) f w
  simp only [falling, List.cons_append, List.nil_append, List.mem_cons, List.not_mem_nil,
    or_false] at hs
  rcases hs with rfl | rfl | rfl | rfl | rfl
  · obtain ⟨b, w, hb, rfl⟩ := exists_on_of_frame h
    exact fits_on hb f w
  · obtain ⟨target, rfl⟩ := download_of_toEncoder h
    exact fits_downloadCalls _ _ _
  · obtain ⟨target, rfl⟩ := download_of_toOverlays h
    exact fits_downloadCalls _ _ _
  · obtain ⟨w, rfl⟩ := exists_on_of_subtitles h
    exact fits_on (.inr rfl) f w
  · obtain ⟨-, q, rfl⟩ := upload_of_finalUpload h
    exact fun x hx => (works_uploadCalls p.backend q x hx).1

/-- **The calls of a path fit its family.** -/
theorem fits_emitted (p : PathPlan) (f : Frame) :
    ∀ v ∈ emitted p.wholeStages f, ∀ x ∈ v.calls, x.Fits p.backend :=
  forall_mem_emitted (fun _ hs _ _ hv => fits_of_mem hs hv) f

/-! ## Paths of the host -/

theorem toward_software (hb : p.backend = .software) :
    ∀ s ∈ p.wholeStages, Toward s .software := by
  have hm : p.backend.memory = .software := by
    rw [hb]
    rfl
  intro s hs
  rw [wholeStages_eq] at hs
  rcases List.mem_append.mp hs with hs | hs
  · rw [← hm]
    exact p.toward_rising s hs
  rcases List.mem_cons.mp hs with rfl | hs
  · intro g
    rcases p.memory_frame g with h | h | h
    · exact .inl h
    · exact .inr h
    · exact .inr (h.trans hm)
  rcases List.mem_append.mp hs with hs | hs
  · exact p.toward_falling s hs
  · intro g
    rw [List.mem_singleton.mp hs, advance_finalUpload, hb]
    refine .inl ?_
    split
    · rw [show Backend.software.isHardware = false from rfl, Bool.not_false, Bool.or_true]
      rfl
    · rfl

theorem exists_on_of_software (hb : p.backend = .software) (hf : f.memory = .software)
    {s : Stage} (hs : s ∈ p.wholeStages) (h : s f = some v) : ∃ w, v = on .software f w := by
  have hnot : f.isHardware = false := Frame.isHardware_eq_false_iff.mpr hf
  rw [wholeStages_eq] at hs
  rcases List.mem_append.mp hs with hs | hs
  · obtain ⟨w, -, rfl⟩ := exists_on_of_rising hs h
    exact ⟨w, by rw [hb]⟩
  simp only [falling, List.cons_append, List.nil_append, List.mem_cons, List.not_mem_nil,
    or_false] at hs
  rcases hs with rfl | rfl | rfl | rfl | rfl
  · obtain ⟨b, w, rfl | rfl, rfl⟩ := exists_on_of_frame h
    · exact ⟨w, by rw [hb]⟩
    · exact ⟨w, rfl⟩
  · rw [toEncoder?, hnot] at h
    cases h
  · rw [toOverlays?, hnot, Bool.and_false] at h
    cases h
  · exact exists_on_of_subtitles h
  · obtain ⟨hhard, -⟩ := upload_of_finalUpload h
    rw [hb] at hhard
    cases hhard

/-- **The calls of a path of the host work on the host.** -/
theorem works_emitted (hb : p.backend = .software) (hf : f.memory = .software) :
    ∀ v ∈ emitted p.wholeStages f, ∀ x ∈ v.calls, x.Works .software := by
  refine forall_mem_emitted_of (P := fun f => f.memory = .software) ?_ hf
  intro s hs g v hg hv
  obtain ⟨w, hw⟩ := exists_on_of_software hb hg hs hv
  rw [hw]
  exact ⟨works_on_software hg w, next_work_memory _ _ _ _⟩

end PathPlan

end Playout
