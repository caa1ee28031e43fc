import Playout.Proofs.Filter.Family
import Playout.Proofs.Path.Task

/-!
# Square pixels

A path makes pixels square in front of the one filter that scales, and only if they are not square
when they come from the decoder.

* `VideoFilter.SquaresBy`: the calls that do it, in either of two forms.
* `VideoFilter.squaresBy_of_squaring`, `VideoFilter.squaring?_eq_none_iff`: they are read off the
  filter's work; a filter without them has no `setsar`.
* `PathPlan.filterMap_squaring_emitted`: the filters of a path that square.
-/

namespace Playout

open Transfer VideoFilter

/-- The stretch in front of `setsar=1`: of the height, or else of the width. -/
def squareText (byHeight : Bool) : String := if byHeight then "iw:sar*ih" else "iw*sar:ih"

theorem FilterWork.chars_squareCalls (byHeight : Bool) (b : Backend) :
    Call.chars (squareCalls byHeight b) =
      (scaler b ++ "=" ++ squareText byHeight ++ ",setsar=1").toList := by
  cases byHeight <;> cases b <;> decide

namespace FilterWork

def squaring? : FilterWork → Option Bool
  | scale _ _ square => square
  | _ => none

theorem setsar_mem_names_iff {b : Backend} {w : FilterWork} :
    "setsar" ∈ w.names b ↔ w.squaring? ≠ none := by
  cases w with
  | scale r p square => cases square <;> cases b <;> simp [names, squaring?, scaler]
  | _ => cases b <;> simp [names, squaring?, scaler, deinterlaceCall]

end FilterWork

theorem Transfer.setsar_not_mem (t : Transfer) : ∀ c ∈ t.calls, c.name ≠ "setsar" := by
  cases t with
  | upload b requested => cases b <;> cases requested <;> simp [calls, uploadCalls, formatCall]
  | download source target =>
    cases target with
    | none => simp [calls, downloadCalls, formatCall]
    | some q =>
      by_cases hq : q.sameWire source = true
      · simp [calls, downloadCalls, formatCall, hq]
      · simp [calls, downloadCalls, formatCall, hq]

namespace VideoFilter

/-- The form in which a filter squares the pixels before it scales. -/
def squaring? : VideoFilter → Option Bool
  | work _ _ w => w.squaring?
  | move _ => none

/-- The filter scales.  Behind its move, and before the scaling, stand the stretch and `setsar`. -/
def SquaresBy (v : VideoFilter) (byHeight : Bool) : Prop :=
  v.task = .scale ∧ ∃ lead b scaling,
    v.calls = lead ++ FilterWork.squareCalls byHeight b ++ [scaling] ∧
    (∃ start, v.text = start ++ FilterWork.scaler b ++ "=" ++ squareText byHeight ++ ",setsar=1,"
      ++ scaling.text) ∧
    ∀ c ∈ scaling :: lead, c.name ≠ "setsar"

variable {v : VideoFilter}

theorem setsar_not_mem_lead {lead : Option Transfer} :
    ∀ c ∈ leadCalls lead, c.name ≠ "setsar" := by
  cases lead with
  | none => exact List.forall_mem_nil _
  | some t => exact t.setsar_not_mem

theorem squaring?_eq_none_iff : v.squaring? = none ↔ ∀ c ∈ v.calls, c.name ≠ "setsar" := by
  cases v with
  | move t => exact iff_of_true rfl t.setsar_not_mem
  | work b lead w =>
    have hw : (∀ c ∈ w.calls b, c.name ≠ "setsar") ↔ "setsar" ∉ w.names b := by
      rw [← FilterWork.map_name_calls, List.mem_map, not_exists]
      exact forall_congr' fun c => not_and.symm
    rw [calls_work, List.forall_mem_append, and_iff_right setsar_not_mem_lead, hw,
      FilterWork.setsar_mem_names_iff, Decidable.not_not]
    rfl

theorem exists_text_of_calls {lead : List Call} {b : Backend} {scaling : Call} {byHeight : Bool}
    (h : v.calls = lead ++ FilterWork.squareCalls byHeight b ++ [scaling]) :
    ∃ start, v.text = start ++ FilterWork.scaler b ++ "=" ++ squareText byHeight ++ ",setsar=1,"
      ++ scaling.text := by
  have hne : FilterWork.squareCalls byHeight b ≠ [] := List.cons_ne_nil _ _
  have hend : Call.chainText (FilterWork.squareCalls byHeight b ++ [scaling]) =
      FilterWork.scaler b ++ "=" ++ squareText byHeight ++ ",setsar=1," ++ scaling.text := by
    refine String.toList_injective ?_
    show Call.chars (FilterWork.squareCalls byHeight b ++ [scaling]) = _
    rw [Call.chars_append hne (List.cons_ne_nil _ _), FilterWork.chars_squareCalls,
      Call.chars_singleton]
    simp
  obtain ⟨start, hstart⟩ := Call.exists_chainText_append lead
    (List.append_ne_nil_of_left_ne_nil hne [scaling])
  refine ⟨start, ?_⟩
  rw [text, h, List.append_assoc, hstart, hend]
  simp only [String.append_assoc]

theorem squaresBy_of_squaring {byHeight : Bool} (h : v.squaring? = some byHeight) :
    v.SquaresBy byHeight := by
  cases v with
  | move t => cases h
  | work b lead w =>
    cases w with
    | scale r p square =>
      have hs : square = some byHeight := h
      have hcalls : (work b lead (.scale r p square)).calls =
          leadCalls lead ++ FilterWork.squareCalls byHeight b ++ [FilterWork.resizeCall r p b] := by
        rw [hs, calls_work, List.append_assoc]
        rfl
      refine ⟨rfl, _, b, _, hcalls, exists_text_of_calls hcalls, List.forall_mem_cons.mpr
        ⟨?_, setsar_not_mem_lead⟩⟩
      cases b <;> simp [FilterWork.resizeCall, FilterWork.scaler]
    | _ => cases h

theorem SquaresBy.exists_setsar {byHeight : Bool} (h : v.SquaresBy byHeight) :
    ∃ c ∈ v.calls, c.name = "setsar" := by
  obtain ⟨-, lead, b, scaling, hcalls, -, -⟩ := h
  rw [hcalls]
  exact ⟨⟨"setsar", [place "1"]⟩, by simp [FilterWork.squareCalls], rfl⟩

theorem squaring?_eq_none {v : VideoFilter} (h : v.task ≠ .scale) : v.squaring? = none := by
  cases v with
  | work b lead w =>
    cases w with
    | scale r p square => exact absurd rfl h
    | _ => rfl
  | move t => rfl

end VideoFilter

/-- One filter squares the pixels, in the form asked for, and no other sets their ratio. -/
def SquaredOnce (filters : List VideoFilter) (byHeight : Bool) : Prop :=
  ∃ before v after, filters = before ++ v :: after ∧ v.SquaresBy byHeight ∧
    ∀ w ∈ before ++ after, ∀ c ∈ w.calls, c.name ≠ "setsar"

theorem squaredOnce_of_filterMap {filters : List VideoFilter} {byHeight : Bool}
    (h : filters.filterMap squaring? = [byHeight]) : SquaredOnce filters byHeight := by
  obtain ⟨before, v, after, rfl, hbefore, hv, hafter⟩ := List.filterMap_eq_cons_iff.mp h
  refine ⟨before, v, after, rfl, squaresBy_of_squaring hv, List.forall_mem_append.mpr ⟨?_, ?_⟩⟩
  · exact fun w hw => squaring?_eq_none_iff.mp (hbefore w hw)
  · exact fun w hw => squaring?_eq_none_iff.mp (List.filterMap_eq_nil_iff.mp hafter w hw)

namespace PathPlan

open Stage

variable (p : PathPlan) (f : Frame)

def unscaled : List Stage := [p.deinterlace?, p.tonemap?]

def scaled : List Stage := [p.frame?, p.toEncoder?, p.toOverlays?, p.subtitles?]

theorem anamorphic_unscaled : (advanceAll p.unscaled f).anamorphic = f.anamorphic := by
  have hd : (advance p.deinterlace? f).anamorphic = f.anamorphic := by
    rw [advance_deinterlace]
    split
    · simp
    · rfl
  rw [← hd]
  show (advance p.tonemap? (advance p.deinterlace? f)).anamorphic = _
  rw [advance_tonemap]
  split
  · simp
  · rfl

theorem filterMap_squaring_scale :
    (p.scale? f).toList.filterMap squaring? = if f.anamorphic then [p.squareByHeight] else [] := by
  by_cases hr : p.Rescales f
  · rw [scale?_of_rescales hr]
    cases ha : f.anamorphic with
    | true => rfl
    | false => rfl
  · have ha : f.anamorphic = false := by
      simp only [Rescales, not_or, Bool.not_eq_true] at hr
      exact hr.2
    rw [ha, scale?_of_not_rescales hr]
    split
    · split
      · rfl
      · rfl
    · rfl

/-- **Pixels are made square once**, if they are not square before, and in the form of the plan. -/
theorem filterMap_squaring_emitted :
    (emitted p.stages f).filterMap squaring? =
      if f.anamorphic then [p.squareByHeight] else [] := by
  have hsplit : p.stages = p.unscaled ++ p.scale? :: p.scaled := rfl
  have hnone := filterMap_emitted_eq_nil (p := p) @squaring?_eq_none
  have hbefore : (emitted p.unscaled f).filterMap squaring? = [] :=
    hnone (p.stageTasks.take 2) (List.take_subset 2 _) (by simp [stageTasks]) f
  have hafter : ∀ g, (emitted p.scaled g).filterMap squaring? = [] :=
    hnone ((p.stageTasks.drop 3).take 4)
      (fun x hx => List.drop_subset 3 _ (List.take_subset 4 _ hx)) (by simp [stageTasks])
  rw [hsplit, emitted_append, List.filterMap_append, emitted, List.filterMap_append,
    filterMap_squaring_scale, anamorphic_unscaled, hbefore, hafter, List.nil_append,
    List.append_nil]

theorem squaring?_finalUpload (b : Backend) (e : VideoEncoder) :
    ∀ v ∈ (finalUpload? b e f).toList, v.squaring? = none := by
  intro v hv
  obtain ⟨-, q, rfl⟩ := upload_of_finalUpload (Option.mem_toList.mp hv)
  rfl

end PathPlan

end Playout
