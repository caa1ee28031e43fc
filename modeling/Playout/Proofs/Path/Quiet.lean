import Playout.Proofs.Filter.Quiet
import Playout.Proofs.Path.Task

/-!
# Quiet filters

The one text that a filter writes as it is, and that comes from outside, is the algorithm of tone
mapping.  All else is fixed, a number, or escaped.

* `Transfer.isSettled_calls`, `FilterWork.isSettled_calls`: moves, and work but tone mapping.
* `VideoFilter.quiet_calls_iff`: what decides whether a filter is quiet.
* `PathPlan.filterMap_rawAlgorithm_emitted`: the algorithm in the filters of a path.
-/

namespace Playout

open Transfer FilterWork VideoFilter

namespace Transfer

theorem isSettled_formatCall (p : PixelFormat) : (formatCall p).IsSettled := by
  simp +decide [formatCall]

theorem isSettled_calls (t : Transfer) : ∀ x ∈ t.calls, x.IsSettled := by
  cases t with
  | upload b requested =>
    have hsurface : ∀ p : PixelFormat, Settled (p.text ++ "|vaapi").toList :=
      fun p => (Settled.pixelFormat p).concat (by decide)
    cases b <;> cases requested <;>
      simp +decide [calls, uploadCalls, isSettled_formatCall, hsurface, -String.toList_append]
  | download source target =>
    cases target with
    | none => simp +decide [calls, downloadCalls, isSettled_formatCall]
    | some q =>
      by_cases hq : q.sameWire source = true
      · simp +decide [calls, downloadCalls, isSettled_formatCall, hq]
      · simp +decide [calls, downloadCalls, isSettled_formatCall, hq]

end Transfer

namespace FilterWork

theorem settled_scaler (b : Backend) : Settled (scaler b).toList := by
  cases b <;> decide

theorem isSettled_resizeCall (r : Resize) (p : Option PixelFormat) (b : Backend) :
    (resizeCall r p b).IsSettled := by
  refine ⟨settled_scaler b, forall_arguments_resizeCall Argument.isSettled_placeNat ?_ ?_ ?_ ?_ ?_
    r b⟩
  · simp +decide
  · simp +decide
  · simp +decide
  · intro x
    cases x <;> simp +decide [KeepAspect.text]
  · intro q _
    simp +decide

/-- Calls for tone mapping are quiet if the algorithm is, where it is written. -/
theorem quiet_tonemapCalls_iff (algorithm : String) (p : PixelFormat) (b : Backend) :
    (∀ x ∈ tonemapCalls algorithm p b, Quiet x.text.toList) ↔
      (b ≠ .qsv → Quiet algorithm.toList) := by
  cases b <;>
    simp +decide [tonemapCalls, Call.quiet_text_iff, formatCall, (Settled.pixelFormat p).quiet]

theorem endSettled_tonemapCalls (algorithm : String) (p : PixelFormat) (b : Backend) :
    Call.EndSettled (tonemapCalls algorithm p b) := by
  cases b <;> simp +decide [Call.EndSettled, tonemapCalls, isSettled_formatCall]

theorem exists_of_task_tonemap {w : FilterWork} (h : w.task = .tonemap) :
    ∃ algorithm p, w = .tonemap algorithm p := by
  cases w with
  | tonemap algorithm p => exact ⟨algorithm, p, rfl⟩
  | _ => cases h

theorem isSettled_calls {b : Backend} {w : FilterWork} (h : w.task ≠ .tonemap) :
    ∀ x ∈ w.calls b, x.IsSettled := by
  cases w with
  | deinterlace => cases b <;> simp +decide [calls, deinterlaceCall]
  | tonemap algorithm p => exact absurd rfl h
  | scale r p square =>
    cases square with
    | none => simp [calls, isSettled_resizeCall]
    | some byHeight =>
      cases byHeight <;> simp +decide [calls, squareCalls, isSettled_resizeCall, settled_scaler]
  | convert p => cases b <;> simp +decide [calls, convertCall, isSettled_formatCall]
  | pad size => cases b <;> simp +decide [calls, padCall]
  | crop size => simp +decide [calls]
  | subtitles path index fonts => cases fonts <;> simp +decide [calls, subtitlesCall]

end FilterWork

namespace VideoFilter

/-- The algorithm of tone mapping, where the filter writes it as it is. -/
def rawAlgorithm? : VideoFilter → Option String
  | work b _ (.tonemap algorithm _) => if b = .qsv then none else some algorithm
  | _ => none

theorem rawAlgorithm?_eq_none {v : VideoFilter} (h : v.task ≠ .tonemap) :
    v.rawAlgorithm? = none := by
  cases v with
  | work b lead w =>
    cases w with
    | tonemap algorithm p => exact absurd rfl h
    | _ => rfl
  | move t => rfl

theorem isSettled_lead (lead : Option Transfer) : ∀ x ∈ leadCalls lead, x.IsSettled := by
  cases lead with
  | none => exact List.forall_mem_nil _
  | some t => exact t.isSettled_calls

/-- **A filter is quiet** if the algorithm is that it writes as it is. -/
theorem quiet_calls_iff (v : VideoFilter) :
    (∀ x ∈ v.calls, Quiet x.text.toList) ↔ ∀ s ∈ v.rawAlgorithm?, Quiet s.toList := by
  cases v with
  | move t =>
    exact iff_of_true (fun x hx => (Call.settled_text (t.isSettled_calls x hx)).quiet) nofun
  | work b lead w =>
    have hlead : ∀ x ∈ leadCalls lead, Quiet x.text.toList :=
      fun x hx => (Call.settled_text (isSettled_lead lead x hx)).quiet
    rw [calls_work, List.forall_mem_append, and_iff_right hlead]
    by_cases hw : w.task = .tonemap
    · obtain ⟨algorithm, p, rfl⟩ := exists_of_task_tonemap hw
      refine (quiet_tonemapCalls_iff algorithm p b).trans ?_
      by_cases hb : b = .qsv
      · simp [rawAlgorithm?, hb]
      · simp [rawAlgorithm?, hb]
    · rw [rawAlgorithm?_eq_none (v := work b lead w) hw]
      exact iff_of_true (fun x hx => (Call.settled_text (isSettled_calls hw x hx)).quiet) nofun

theorem endSettled_calls (v : VideoFilter) : Call.EndSettled v.calls := by
  cases v with
  | move t => exact .of_forall t.isSettled_calls
  | work b lead w =>
    have hwork : Call.EndSettled (w.calls b) := by
      by_cases hw : w.task = .tonemap
      · obtain ⟨algorithm, p, rfl⟩ := exists_of_task_tonemap hw
        exact endSettled_tonemapCalls algorithm p b
      · exact .of_forall (isSettled_calls hw)
    rw [calls_work]
    exact (Call.EndSettled.of_forall (isSettled_lead lead)).append hwork

end VideoFilter

theorem AudioFilter.isSettled_call (f : AudioFilter) : f.call.IsSettled := by
  cases f with
  | pad length =>
    rw [call, Call.isSettled_mk, List.forall_mem_singleton, Argument.isSettled_keyed]
    exact ⟨by decide, by decide, (Settled.number _).concat (by decide)⟩
  | _ => simp +decide [call]

namespace PathPlan

open Stage

variable (p : PathPlan) (f : Frame)

theorem filterMap_rawAlgorithm_tonemap :
    (p.tonemap? f).toList.filterMap rawAlgorithm? =
      if (f.hdr && !p.desired.hdr) = true ∧ p.backend ≠ .qsv then [p.tonemapAlgorithm]
      else [] := by
  rw [tonemap?_eq]
  by_cases hh : (f.hdr && !p.desired.hdr) = true
  · by_cases hb : p.backend = .qsv
    · simp [hh, hb, on, rawAlgorithm?]
    · simp [hh, hb, on, rawAlgorithm?]
  · rw [if_neg hh, if_neg fun h => hh h.1]
    rfl

/-- **The algorithm is written once**, if frames are tone mapped by a family that is told it. -/
theorem filterMap_rawAlgorithm_emitted :
    (emitted p.stages f).filterMap rawAlgorithm? =
      if (f.hdr && !p.desired.hdr) = true ∧ p.backend ≠ .qsv then [p.tonemapAlgorithm]
      else [] := by
  have hnone := filterMap_emitted_eq_nil (p := p) @rawAlgorithm?_eq_none
  have hbefore : (emitted [p.deinterlace?] f).filterMap rawAlgorithm? = [] :=
    hnone (p.stageTasks.take 1) (List.take_subset 1 _) (by simp [stageTasks]) f
  have hafter : ∀ g, (emitted (p.stages.drop 2) g).filterMap rawAlgorithm? = [] :=
    hnone ((p.stageTasks.drop 2).take 5)
      (fun x hx => List.drop_subset 2 _ (List.take_subset 5 _ hx)) (by simp [stageTasks])
  have hsplit : p.stages = [p.deinterlace?] ++ p.tonemap? :: p.stages.drop 2 := rfl
  have htonemap := p.filterMap_rawAlgorithm_tonemap (advance p.deinterlace? f)
  rw [hdr_deinterlace] at htonemap
  rw [hsplit, emitted_append, List.filterMap_append, hbefore, List.nil_append, emitted,
    List.filterMap_append, hafter, List.append_nil]
  exact htonemap

theorem rawAlgorithm?_finalUpload (b : Backend) (e : VideoEncoder) :
    ∀ v ∈ (finalUpload? b e f).toList, v.rawAlgorithm? = none := by
  intro v hv
  obtain ⟨-, q, rfl⟩ := upload_of_finalUpload (Option.mem_toList.mp hv)
  rfl

end PathPlan

end Playout
