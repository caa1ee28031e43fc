import Playout.Proofs.Path.Memory
import Playout.Proofs.Path.Task
import Playout.Proofs.Plan.Reasons

/-!
# The work on the picture

The reasons against a copy are read off the sizes before the first filter, and each filter of the
main path looks at the frames that the filters before it leave.  On the host they agree.

* `PathPlan.map_task_emitted`: the tasks of the filters, and their order, are decided by the frames
  before the first one.
* `compose_settles`: there is a filter for each reason that filters can settle, and there are no
  others.
-/

namespace Playout

open Transfer VideoFilter

/-- Whether the size of the picture changes, or the shape of its pixels. -/
def Task.reshapes : Task → Bool
  | scale | pad | crop => true
  | _ => false

namespace PathPlan

open Stage

/-! ## The task of each stage -/

section

variable (p : PathPlan) (f : Frame)

theorem task_deinterlace :
    (p.deinterlace? f).map task =
      if p.desired.deinterlaced && !f.deinterlaced then some .deinterlace else none := by
  unfold deinterlace?
  cases p.desired.deinterlaced && !f.deinterlaced
  · rfl
  · rfl

theorem task_tonemap :
    (p.tonemap? f).map task = if f.hdr && !p.desired.hdr then some .tonemap else none := by
  rw [tonemap?_eq]
  cases f.hdr && !p.desired.hdr
  · rfl
  · rfl

theorem task_scale (hb : p.backend = .software) :
    (p.scale? f).map task = if p.Rescales f then some .scale else none := by
  have hh : p.backend.isHardware = false := by rw [hb]; rfl
  by_cases hr : p.Rescales f
  · rw [if_pos hr, scale?_of_rescales hr]
    rfl
  · rw [if_neg hr, scale?_of_not_rescales hr, hh]
    cases p.encoder.surfaceFormat? with
    | none => rfl
    | some q => rfl

def finalSize : Size := p.desired.croppedSize.getD p.desired.paddedSize

def framing : Task := if p.desired.croppedSize.isSome then .crop else .pad

theorem task_frame :
    (p.frame? f).map task = if f.paddedSize ≠ p.finalSize then some p.framing else none := by
  unfold frame? finalSize framing
  cases p.desired.croppedSize with
  | none =>
    by_cases h : f.paddedSize = p.desired.paddedSize
    · simp [h]
    · simp only [h, ne_eq, not_false_eq_true, if_true, Option.getD_none]
      rfl
  | some c =>
    by_cases h : f.paddedSize = c
    · simp [h]
    · simp only [h, ne_eq, not_false_eq_true, if_true, Option.getD_some]
      rfl

theorem toEncoder?_eq_none {f : Frame} (hf : f.memory = .software) : p.toEncoder? f = none := by
  have hh : f.isHardware = false := Frame.isHardware_eq_false_iff.mpr hf
  unfold toEncoder?
  rw [hh, Bool.false_and, if_neg (by decide)]

theorem toOverlays?_eq_none {f : Frame} (hf : f.memory = .software) : p.toOverlays? f = none := by
  have hh : f.isHardware = false := Frame.isHardware_eq_false_iff.mpr hf
  unfold toOverlays?
  rw [hh, Bool.and_false, if_neg (by decide)]

end

/-! ## What the later stages look at -/

structure SameShape (f g : Frame) : Prop where
  scaledSize : g.scaledSize = f.scaledSize
  paddedSize : g.paddedSize = f.paddedSize
  anamorphic : g.anamorphic = f.anamorphic

variable {p : PathPlan} {f g : Frame}

theorem SameShape.trans {k : Frame} (h : SameShape f g) (h' : SameShape g k) : SameShape f k :=
  ⟨h'.scaledSize.trans h.scaledSize, h'.paddedSize.trans h.paddedSize,
    h'.anamorphic.trans h.anamorphic⟩

theorem SameShape.rescales_iff (h : SameShape f g) : p.Rescales g ↔ p.Rescales f := by
  rw [Rescales, Rescales, h.scaledSize, h.anamorphic]

variable (p f)

theorem sameShape_deinterlace : SameShape f (advance p.deinterlace? f) := by
  rw [advance_deinterlace]
  split
  · constructor <;> simp
  · exact ⟨rfl, rfl, rfl⟩

theorem sameShape_tonemap : SameShape f (advance p.tonemap? f) := by
  rw [advance_tonemap]
  split
  · constructor <;> simp
  · exact ⟨rfl, rfl, rfl⟩

variable {p f}

theorem paddedSize_scale (hpad : f.paddedSize = f.scaledSize) :
    (advance p.scale? f).paddedSize = p.desired.scaledSize := by
  by_cases hr : p.Rescales f
  · rw [advance_scale_of_rescales hr]
  · have hs : f.scaledSize = p.desired.scaledSize := by
      simp only [Rescales, not_or, ne_eq, Decidable.not_not] at hr
      exact hr.1
    rw [advance_scale_of_not_rescales hr]
    split
    · split
      · exact hpad.trans hs
      · exact hpad.trans hs
    · exact hpad.trans hs

/-! ## The tasks of a path -/

/-- The tasks that decoded frames need, in their order. -/
def tasks (p : PathPlan) (f : Frame) : List Task :=
  (if p.desired.deinterlaced && !f.deinterlaced then some .deinterlace else none).toList
    ++ (if f.hdr && !p.desired.hdr then some .tonemap else none).toList
    ++ (if p.Rescales f then some .scale else none).toList
    ++ (if p.desired.scaledSize ≠ p.finalSize then some p.framing else none).toList

theorem map_task_emitted_cons (s : Stage) (rest : List Stage) (f : Frame) :
    (emitted (s :: rest) f).map task =
      ((s f).map task).toList ++ (emitted rest (advance s f)).map task := by
  rw [emitted, List.map_append]
  cases s f with
  | none => rfl
  | some v => rfl

/-- **The filters of a software path.**  Which there are, and in which order, is decided by the
frames before the first one. -/
theorem map_task_emitted (hb : p.backend = .software) (hburn : p.burned = none)
    (hf : f.memory = .software) (hpad : f.paddedSize = f.scaledSize) :
    (emitted p.stages f).map task = p.tasks f := by
  have hm : p.backend.memory = .software := by rw [hb]; rfl
  obtain ⟨f₁, hf₁⟩ : ∃ f₁, f₁ = advance p.deinterlace? f := ⟨_, rfl⟩
  obtain ⟨f₂, hf₂⟩ : ∃ f₂, f₂ = advance p.tonemap? f₁ := ⟨_, rfl⟩
  obtain ⟨f₃, hf₃⟩ : ∃ f₃, f₃ = advance p.scale? f₂ := ⟨_, rfl⟩
  obtain ⟨f₄, hf₄⟩ : ∃ f₄, f₄ = advance p.frame? f₃ := ⟨_, rfl⟩
  have hhdr : f₁.hdr = f.hdr := hf₁ ▸ hdr_deinterlace p f
  have hshape : SameShape f f₂ :=
    (hf₁ ▸ sameShape_deinterlace p f : SameShape f f₁).trans (hf₂ ▸ sameShape_tonemap p f₁)
  have hsize : f₃.paddedSize = p.desired.scaledSize := by
    rw [hf₃]
    exact paddedSize_scale (hshape.paddedSize.trans (hpad.trans hshape.scaledSize.symm))
  -- a software path leaves the frames on the host, and none of its moves is needed
  have hm₄ : f₄.memory = .software := by
    have hm₃ : f₃.memory = p.backend.memory := by
      have hrise := memory_advanceAll p.toward_rising (hf.trans hm.symm)
      rw [hf₃, hf₂, hf₁]
      exact hrise
    rcases p.memory_frame f₃ with h | h | h
    · rw [hf₄, h, hm₃, hm]
    · rw [hf₄, h]
    · rw [hf₄, h, hm]
  have hrest : emitted [p.toEncoder?, p.toOverlays?, p.subtitles?] f₄ = [] := by
    have he := p.toEncoder?_eq_none hm₄
    have ho := p.toOverlays?_eq_none hm₄
    have hs : p.subtitles? f₄ = none := by rw [subtitles?, hburn]; rfl
    simp only [emitted, advance_none he, advance_none ho, he, ho, hs, Option.toList_none,
      List.append_nil]
  rw [stages, map_task_emitted_cons, ← hf₁, map_task_emitted_cons, ← hf₂, map_task_emitted_cons,
    ← hf₃, map_task_emitted_cons, ← hf₄, hrest, task_deinterlace, task_tonemap,
    task_scale p f₂ hb, task_frame, hhdr, hsize, List.map_nil, List.append_nil, tasks]
  simp only [hshape.rescales_iff, List.append_assoc]

theorem mem_tasks {x : Task} :
    x ∈ p.tasks f ↔
      (x = .deinterlace ∧ (p.desired.deinterlaced && !f.deinterlaced) = true) ∨
      (x = .tonemap ∧ (f.hdr && !p.desired.hdr) = true) ∨
      (x = .scale ∧ p.Rescales f) ∨
      (x = p.framing ∧ p.desired.scaledSize ≠ p.finalSize) := by
  have hopt : ∀ (c : Prop) [Decidable c] (y : Task),
      x ∈ (if c then some y else none).toList ↔ x = y ∧ c := by
    intro c _ y
    by_cases hc : c
    · simp [hc]
    · simp [hc]
  simp only [tasks, List.mem_append, hopt, or_assoc]

theorem reshapes_framing (p : PathPlan) : p.framing.reshapes = true := by
  unfold framing
  split
  · rfl
  · rfl

theorem mem_tasks_of_not_reshapes {x : Task} (hx : x.reshapes = false) :
    x ∈ p.tasks f ↔
      (x = .deinterlace ∧ (p.desired.deinterlaced && !f.deinterlaced) = true) ∨
      (x = .tonemap ∧ (f.hdr && !p.desired.hdr) = true) := by
  have hscale : x ≠ .scale := by
    rintro rfl
    cases hx
  have hframing : x ≠ p.framing := by
    rintro rfl
    rw [reshapes_framing] at hx
    cases hx
  simp [mem_tasks, hscale, hframing]

theorem exists_reshapes_mem_tasks :
    (∃ x ∈ p.tasks f, x.reshapes = true) ↔
      p.Rescales f ∨ p.desired.scaledSize ≠ p.finalSize := by
  constructor
  · rintro ⟨x, hx, hr⟩
    rcases mem_tasks.mp hx with ⟨rfl, -⟩ | ⟨rfl, -⟩ | ⟨-, h⟩ | ⟨-, h⟩
    · cases hr
    · cases hr
    · exact .inl h
    · exact .inr h
  · rintro (h | h)
    · exact ⟨.scale, mem_tasks.mpr (.inr (.inr (.inl ⟨rfl, h⟩))), rfl⟩
    · exact ⟨p.framing, mem_tasks.mpr (.inr (.inr (.inr ⟨rfl, h⟩))), reshapes_framing p⟩

end PathPlan

/-! ## Reasons and filters -/

/-- Tasks for exactly those reasons that filters can settle. -/
structure Settles (tasks : List Task) (reasons : List TranscodeReason) : Prop where
  deinterlace : .deinterlace ∈ tasks ↔ .deinterlace ∈ reasons
  toneMap : .tonemap ∈ tasks ↔ .toneMap ∈ reasons
  reshapes : (∃ x ∈ tasks, x.reshapes = true) ↔
    .sizeMismatch ∈ reasons ∨ .anamorphic ∈ reasons
  others : ∀ x ∈ tasks, x = .deinterlace ∨ x = .tonemap ∨ x.reshapes = true

def TranscodeReason.isSettleable : TranscodeReason → Bool
  | deinterlace | toneMap | sizeMismatch | anamorphic => true
  | _ => false

theorem Settles.eq_nil_iff {tasks : List Task} {reasons : List TranscodeReason}
    (h : Settles tasks reasons) : tasks = [] ↔ ∀ r ∈ reasons, r.isSettleable = false := by
  constructor
  · rintro rfl r hr
    cases r with
    | deinterlace => exact absurd (h.deinterlace.mpr hr) List.not_mem_nil
    | toneMap => exact absurd (h.toneMap.mpr hr) List.not_mem_nil
    | sizeMismatch => simpa using h.reshapes.mpr (.inl hr)
    | anamorphic => simpa using h.reshapes.mpr (.inr hr)
    | _ => rfl
  · intro hr
    refine List.eq_nil_iff_forall_not_mem.mpr fun x hx => ?_
    rcases h.others x hx with rfl | rfl | hx'
    · cases hr _ (h.deinterlace.mp hx)
    · cases hr _ (h.toneMap.mp hx)
    · rcases h.reshapes.mp ⟨x, hx, hx'⟩ with h | h
      · cases hr _ h
      · cases hr _ h

section

variable {t : Target} {stream : VideoStream} {settings : Settings} {p : PathPlan}
  {realtime infiniteLoop allowCopy overlays : Bool}

/-- The sizes call for a filter exactly if they speak against a copy. -/
theorem reshapes_iff_reasons (hd : t.desired stream settings = .ok p.desired) :
    p.Rescales (.ofSource stream realtime infiniteLoop) ∨ p.desired.scaledSize ≠ p.finalSize ↔
      .sizeMismatch ∈ videoReasons (.ofSource stream realtime infiniteLoop) p.desired
        allowCopy overlays ∨
      .anamorphic ∈ videoReasons (.ofSource stream realtime infiniteLoop) p.desired
        allowCopy overlays := by
  have hfinal : p.finalSize = p.desired.paddedSize := by
    rw [PathPlan.finalSize, (Target.desired_eq_ok_iff.mp hd).2]
    exact Scaling.sizes_cut _ _ _
  rw [mem_videoReasons, mem_videoReasons, hfinal]
  simp only [TranscodeReason.holds, PathPlan.Rescales, Bool.or_eq_true, bne_iff_ne, ne_eq]
  constructor
  · rintro ((h | h) | h)
    · exact .inl (.inl h)
    · exact .inr h
    · exact .inl (.inr h)
  · rintro ((h | h) | h)
    · exact .inl (.inl h)
    · exact .inr h
    · exact .inl (.inr h)

theorem tasks_settle (hd : t.desired stream settings = .ok p.desired) :
    Settles (p.tasks (.ofSource stream realtime infiniteLoop))
      (videoReasons (.ofSource stream realtime infiniteLoop) p.desired allowCopy overlays) where
  deinterlace := by
    rw [mem_videoReasons, PathPlan.mem_tasks_of_not_reshapes rfl]
    simp [TranscodeReason.holds]
  toneMap := by
    rw [mem_videoReasons, PathPlan.mem_tasks_of_not_reshapes rfl]
    simp [TranscodeReason.holds]
  reshapes := PathPlan.exists_reshapes_mem_tasks.trans (reshapes_iff_reasons hd)
  others := by
    intro x hx
    cases hr : x.reshapes with
    | true => exact .inr (.inr rfl)
    | false =>
      rcases (PathPlan.mem_tasks_of_not_reshapes hr).mp hx with h | h
      · exact .inl h.1
      · exact .inr (.inl h.1)

/-- **The reasons against a copy and the filters agree.**  On the host, and with no text to burn,
the main path has a filter for each reason that filters can settle, and no others; so it is empty
exactly if there is no such reason. -/
theorem compose_settles (hd : t.desired stream settings = .ok p.desired)
    (hb : p.backend = .software) (hburn : p.burned = none) :
    Settles ((MainPath.compose p (.ofSource stream realtime infiniteLoop)).filters.map task)
        (videoReasons (.ofSource stream realtime infiniteLoop) p.desired allowCopy overlays) ∧
      ((MainPath.compose p (.ofSource stream realtime infiniteLoop)).filters = [] ↔
        ∀ r ∈ videoReasons (.ofSource stream realtime infiniteLoop) p.desired allowCopy overlays,
          r.isSettleable = false) := by
  have htasks : (MainPath.compose p (.ofSource stream realtime infiniteLoop)).filters.map task =
      p.tasks (.ofSource stream realtime infiniteLoop) := by
    rw [MainPath.compose_eq]
    exact PathPlan.map_task_emitted hb hburn rfl rfl
  have hsettles : Settles (p.tasks (.ofSource stream realtime infiniteLoop))
      (videoReasons (.ofSource stream realtime infiniteLoop) p.desired allowCopy overlays) :=
    tasks_settle hd
  rw [← List.map_eq_nil_iff (f := task), htasks]
  exact ⟨hsettles, hsettles.eq_nil_iff⟩

def interlacedFilm : VideoStream where
  codec := "hevc"
  pixelFormatName := some "yuv420p"
  frameSize := ⟨1440, 800⟩
  interlaced := true
  colorTransfer := some "smpte2084"

def interlacedPlan : PathPlan where
  backend := .software
  encoder := .explicit .none ⟨.h264, .yuv420p, none, none, none⟩
  desired := Target.frame {} interlacedFilm {}
  scaling := .scaleAndPad
  squareByHeight := false
  tonemapAlgorithm := "linear"
  burned := none
  hasLayers := false

def interlacedFrame : Frame := .ofSource interlacedFilm true false

/-- The film is deinterlaced, tone mapped, scaled and padded. -/
theorem interlacedFilm_settled :
    (MainPath.compose interlacedPlan interlacedFrame).filters.map task =
        [.deinterlace, .tonemap, .scale, .pad] ∧
      videoReasons interlacedFrame interlacedPlan.desired true false =
        [.videoFormatMismatch, .sizeMismatch, .deinterlace, .toneMap] ∧
      Settles ((MainPath.compose interlacedPlan interlacedFrame).filters.map task)
        (videoReasons interlacedFrame interlacedPlan.desired true false) := by
  have hd : Target.desired {} interlacedFilm {} = .ok interlacedPlan.desired := rfl
  refine ⟨?_, ?_, (compose_settles hd rfl rfl).1⟩
  · decide +kernel
  · decide +kernel

end

end Playout
