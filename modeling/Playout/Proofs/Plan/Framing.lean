import Playout.Proofs.Item.Fitting
import Playout.Proofs.Plan.Completion

/-!
# Padding and cutting

ffmpeg pads a picture only to a size around it, and cuts it only to a size within it.  The main
path pads or cuts once, after scaling, so its frames are right if the scaled size suits the
resolution.

* `VideoFilter.Frames`: what a filter may be asked for frames of a size.
* `PathPlan.frames_emitted_iff`: the filters of a path, by the sizes of its plan.
* `Compilation.mainFilters_frame_iff`: the filters of a compilation, by its request.
-/

namespace Playout

open VideoFilter

/-- A pad grows the picture and a crop shrinks it. -/
def VideoFilter.Frames (v : VideoFilter) (f : Frame) : Prop :=
  match v with
  | work _ _ (.pad size) => f.scaledSize.Within size
  | work _ _ (.crop size) => size.Within f.scaledSize
  | _ => True

instance : (v : VideoFilter) → (f : Frame) → Decidable (v.Frames f)
  | work _ _ (.pad size), f => inferInstanceAs (Decidable (f.scaledSize.Within size))
  | work _ _ (.crop size), f => inferInstanceAs (Decidable (size.Within f.scaledSize))
  | work _ _ .deinterlace, _ | work _ _ (.tonemap _ _), _ | work _ _ (.scale _ _ _), _
  | work _ _ (.convert _), _ | work _ _ (.subtitles _ _ _), _ | move _, _ => isTrue trivial

namespace VideoFilter

variable {v : VideoFilter}

theorem frames_of_task (hp : v.task ≠ .pad) (hc : v.task ≠ .crop) (f : Frame) : v.Frames f := by
  cases v with
  | work b lead w =>
    cases w with
    | pad size => exact absurd rfl hp
    | crop size => exact absurd rfl hc
    | _ => exact trivial
  | move t => exact trivial

theorem Frames.congr {f g : Frame} (h : f.picture = g.picture) (hv : v.Frames f) : v.Frames g := by
  have hs : f.scaledSize = g.scaledSize := congrArg Picture.scaledSize h
  unfold Frames at hv ⊢
  rwa [← hs]

end VideoFilter

namespace PathPlan

open Stage

variable {p : PathPlan} {f : Frame}

def unframed (p : PathPlan) : List Stage := [p.deinterlace?, p.tonemap?, p.scale?]

def framed (p : PathPlan) : List Stage :=
  [p.toEncoder?, p.toOverlays?, p.subtitles?, finalUpload? p.backend p.encoder]

theorem wholeStages_eq_framed (p : PathPlan) :
    p.wholeStages = p.unframed ++ p.frame? :: p.framed := rfl

theorem frames_of_mem {s : Stage} (hs : s ∈ p.unframed ∨ s ∈ p.framed) (f : Frame)
    (v : VideoFilter) (hv : s f = some v) : v.Frames f := by
  rcases hs with hs | hs
  · have hsub := List.take_subset 3 p.stageTasks
    exact frames_of_task (task_ne hsub (by simp [stageTasks]) hs hv)
      (task_ne hsub (by simp [stageTasks]) hs hv) f
  · have hsub := List.drop_subset 4 p.stageTasks
    exact frames_of_task (task_ne hsub (by simp [stageTasks]) hs hv)
      (task_ne hsub (by simp [stageTasks]) hs hv) f

/-- A picture of the size wanted is not framed, and that size suits itself. -/
theorem frames_frame_iff (hs : f.scaledSize = p.desired.scaledSize)
    (hp : f.paddedSize = p.desired.scaledSize) :
    (∀ v, p.frame? f = some v → v.Frames f) ↔
      SizesSuit p.desired.scaledSize p.desired.croppedSize p.desired.paddedSize := by
  unfold frame? SizesSuit
  rw [hp]
  cases p.desired.croppedSize with
  | some cut =>
    dsimp only
    by_cases he : p.desired.scaledSize = cut
    · rw [if_neg (Decidable.not_not.mpr he), he]
      exact iff_of_true (fun _ hv => absurd hv.symm (Option.some_ne_none _)) (Size.Within.refl _)
    · rw [if_pos he, ← hs]
      exact ⟨fun h => h _ rfl, fun h v hv => Option.some.inj hv ▸ h⟩
  | none =>
    dsimp only
    by_cases he : p.desired.scaledSize = p.desired.paddedSize
    · rw [if_neg (Decidable.not_not.mpr he), he]
      exact iff_of_true (fun _ hv => absurd hv.symm (Option.some_ne_none _)) (Size.Within.refl _)
    · rw [if_pos he, ← hs]
      exact ⟨fun h => h _ rfl, fun h v hv => Option.some.inj hv ▸ h⟩

/-- **The filters of a path pad and cut as they may if the sizes of its plan suit.** -/
theorem frames_emitted_iff (h : p.Fresh f) :
    (∀ x ∈ passages (emitted p.wholeStages f) f, x.2.Frames x.1) ↔
      SizesSuit p.desired.scaledSize p.desired.croppedSize p.desired.paddedSize := by
  obtain ⟨hs, hp, -⟩ := shape_scale (shape_tonemap (shape_deinterlace h).1).1
  rw [wholeStages_eq_framed,
    forall_passages_emitted_append (P := fun f v => v.Frames f),
    forall_passages_emitted_cons (P := fun f v => v.Frames f),
    and_iff_right (forall_passages_emitted (fun s hs => frames_of_mem (.inl hs)) f),
    and_iff_left (forall_passages_emitted (fun s hs => frames_of_mem (.inr hs)) _)]
  exact frames_frame_iff hs hp

end PathPlan

namespace Compilation

variable {c : Compilation} {a : Assembly}

theorem suits_of_reasons (h : c.reasons c.desired = []) :
    SizesSuit c.desired.scaledSize c.desired.croppedSize c.request.target.resolution := by
  obtain ⟨-, hs, -⟩ := source_of_reasons h
  unfold SizesSuit
  rw [hs]
  cases hc : c.desired.croppedSize with
  | none => exact Size.Within.refl _
  | some cut =>
    rw [c.desired_croppedSize cut hc]
    exact Size.Within.refl _

theorem Transcoding.frames_iff (t : c.Transcoding a) :
    (∀ x ∈ passages a.pipeline.mainFilters a.pipeline.entering, x.2.Frames x.1) ↔
      SizesSuit c.desired.scaledSize c.desired.croppedSize c.request.target.resolution := by
  have hcongr : ∀ f g v, f.picture = g.picture → VideoFilter.Frames v f → v.Frames g :=
    fun _ _ _ h hv => hv.congr h
  rw [t.mainFilters_eq]
  refine Iff.trans ⟨?_, ?_⟩ (PathPlan.frames_emitted_iff t.fresh)
  · exact forall_passages_congr hcongr t.picture_entering _
  · exact forall_passages_congr hcongr t.picture_entering.symm _

theorem mainFilters_copied (k : Container) : (c.copied k).mainFilters = [] := by
  obtain ⟨lead, trail, he, hl, ht⟩ := c.exists_copied_steps_eq k
  have hg : (Step.filter c.copiedGraph).mainFilters = [] := rfl
  rw [Pipeline.mainFilters, he, List.flatMap_append, List.flatMap_cons, hg,
    Step.flatMap_mainFilters hl, Step.flatMap_mainFilters ht]
  rfl

/-- **Pads grow and crops shrink the picture unless it misfits.**  For every assembly, each filter
of the main frames that pads is given a size around that of the picture, and each that cuts a size
within it, unless the side that is computed for the scaled picture has one pixel in the resolution,
or exceeds 32 bits and is kept at a remainder below the resolution's. -/
theorem mainFilters_frame_iff (h : c.assembled = .ok a) :
    (∀ x ∈ passages a.pipeline.mainFilters a.pipeline.entering, x.2.Frames x.1) ↔
      ¬c.request.target.scaling.Misfits c.request.video.stream.squareSize
        c.request.target.resolution := by
  have hvalid := (Target.desired_eq_ok_iff.mp (prepared_of_assembled h).1).1
  have hsuits := c.request.target.scaling.suits_iff c.request.video.stream.squareSize
    (Target.isEmpty_resolution hvalid)
  refine Iff.trans ?_ hsuits
  by_cases hr : c.reasons c.desired = []
  · obtain ⟨k, rfl⟩ := copied_of_assembled h hr
    refine iff_of_true ?_ (suits_of_reasons hr)
    rw [mainFilters_copied]
    exact List.forall_mem_nil _
  · obtain ⟨t⟩ := transcoding_of_assembled h hr
    exact t.frames_iff

/-- The film is scaled to 4:3 and padded to the resolution. -/
theorem subtitledFilm_frames :
    ∃ a, subtitledFilm.assembled = .ok a ∧
      (⟨1440, 1080⟩, Task.pad) ∈ (passages a.pipeline.mainFilters a.pipeline.entering).map
        (fun x => (x.1.scaledSize, x.2.task)) ∧
      ∀ x ∈ passages a.pipeline.mainFilters a.pipeline.entering, x.2.Frames x.1 := by
  have hr : (subtitledFilm.assembled.toOption.bind fun a =>
      some (decide ((⟨1440, 1080⟩, Task.pad) ∈
        (passages a.pipeline.mainFilters a.pipeline.entering).map
          fun x => (x.1.scaledSize, x.2.task)))) = some true := by
    decide +kernel
  obtain ⟨a, ha, hpad⟩ := exists_assembled hr
  refine ⟨a, ha, of_decide_eq_true (Option.some.inj hpad), (mainFilters_frame_iff ha).mpr ?_⟩
  decide +kernel

/-- A film for an accelerator that scales it and encodes it. -/
def scaledFilm (s : Scaling) (picture resolution : Size) : Compilation where
  request := {
    video := ⟨"film.mkv", {
      codec := "h264"
      pixelFormatName := some "yuv420p"
      frameSize := picture }⟩
    target := { accelerator := .qsv, scaling := s, resolution := resolution } }
  capabilities := { encoders := [⟨.h264, [8]⟩] }
  config := {}

/-- A width of 464 more than fits in 32 bits is kept at 464 and cut to 1920, and the two pixels
that a computed side has at least are padded to one. -/
theorem scaledFilm_misfits :
    (∃ p, (scaledFilm .crop ⟨3976822, 1⟩ ⟨1920, 1080⟩).run = .ok p ∧
      ∃ x ∈ passages p.mainFilters p.entering,
        x.1.scaledSize = ⟨464, 1080⟩ ∧ x.2.task = .crop ∧ ¬x.2.Frames x.1) ∧
    ∃ p, (scaledFilm .scaleAndPad ⟨100, 100⟩ ⟨1, 1⟩).run = .ok p ∧
      ∃ x ∈ passages p.mainFilters p.entering,
        x.1.scaledSize = ⟨2, 1⟩ ∧ x.2.task = .pad ∧ ¬x.2.Frames x.1 := by
  have hcrop : (scaledFilm .crop ⟨3976822, 1⟩ ⟨1920, 1080⟩).run.toOption.map (fun p : Pipeline =>
      decide (∃ x ∈ passages p.mainFilters p.entering,
        x.1.scaledSize = ⟨464, 1080⟩ ∧ x.2.task = .crop ∧ ¬x.2.Frames x.1)) = some true := by
    decide +kernel
  have hpad : (scaledFilm .scaleAndPad ⟨100, 100⟩ ⟨1, 1⟩).run.toOption.map (fun p : Pipeline =>
      decide (∃ x ∈ passages p.mainFilters p.entering,
        x.1.scaledSize = ⟨2, 1⟩ ∧ x.2.task = .pad ∧ ¬x.2.Frames x.1)) = some true := by
    decide +kernel
  obtain ⟨p, hp, hcrop⟩ := Option.map_eq_some_iff.mp hcrop
  obtain ⟨q, hq, hpad⟩ := Option.map_eq_some_iff.mp hpad
  exact ⟨⟨p, toOption_eq_some_iff.mp hp, of_decide_eq_true hcrop⟩,
    q, toOption_eq_some_iff.mp hq, of_decide_eq_true hpad⟩

end Compilation

end Playout
