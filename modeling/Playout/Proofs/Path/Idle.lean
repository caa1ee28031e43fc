import Playout.Proofs.Path.Format
import Playout.Proofs.Plan.Machinery

/-!
# Paths without a filter

A stage adds no filter to frames that need none, and frames that need none of the stages pass the
whole path as they are.

* `Stage.emitted_eq_nil_iff`: a path is empty if every one of its stages passes on the first frames.
* `Ready`, `VideoEncoder.Takes`: frames that need no work, and frames in the format of their
  encoder.
* `PathPlan.emitted_eq_nil_iff`: these are the frames that no filter is added to.
* `PathPlan.emitted_eq_convert`: frames that are ready, but in another format, are converted.
-/

namespace Playout

open Transfer VideoFilter

/-! ## Stages that pass frames on -/

namespace Stage

variable {f : Frame}

theorem emitted_eq_nil_iff {stages : List Stage} :
    emitted stages f = [] ↔ ∀ s ∈ stages, s f = none := by
  induction stages with
  | nil => simp [emitted]
  | cons s rest ih =>
    rw [emitted, List.append_eq_nil_iff, List.forall_mem_cons]
    cases hs : s f with
    | none => simp [advance_none hs, ih]
    | some v => simp

/-- A filter is alone if the stages before pass on the frames it gets, and the stages after those
it leaves. -/
theorem emitted_eq_singleton {a b : List Stage} {s : Stage} {v : VideoFilter}
    (ha : ∀ t ∈ a, t f = none) (hs : s f = some v) (hb : ∀ t ∈ b, t (v.next f) = none) :
    emitted (a ++ s :: b) f = [v] := by
  have hbefore : emitted a f = [] := emitted_eq_nil_iff.mpr ha
  have hafter : emitted b (v.next f) = [] := emitted_eq_nil_iff.mpr hb
  have hsame : advanceAll a f = f := by rw [← nextAll_emitted, hbefore, nextAll_nil]
  rw [emitted_append, hbefore, hsame, emitted, hs, advance_some hs, hafter]
  rfl

end Stage

/-! ## Frames that need no filter -/

namespace VideoEncoder

/-- Whether it takes frames from the memory of its accelerator. -/
def takesSurfaces (e : VideoEncoder) : Bool :=
  match e.accelerator with
  | .nvenc | .qsv | .vaapi => true
  | .none | .videoToolbox | .amf => false

/-- Frames in the format that an encoder takes from its accelerator; from the host it takes any. -/
def Takes (e : VideoEncoder) (f : Frame) : Prop :=
  e.takesSurfaces = true → ∃ q, e.pixelFormat? = some q ∧ f.hasWire q = true

variable {e : VideoEncoder} {f : Frame}

theorem surfaceFormat?_eq (e : VideoEncoder) :
    e.surfaceFormat? = if e.takesSurfaces then e.pixelFormat? else none := by
  cases e with
  | copy | implicit => rfl
  | explicit a s => cases a <;> rfl

theorem takesSurfaces_of_surfaceFormat? {q : PixelFormat} (h : e.surfaceFormat? = some q) :
    e.takesSurfaces = true ∧ e.pixelFormat? = some q := by
  rw [surfaceFormat?_eq] at h
  split at h
  · next ht => exact ⟨ht, h⟩
  · cases h

theorem exists_surfaceFormat? (h : e.takesSurfaces = true) : ∃ q, e.surfaceFormat? = some q := by
  cases e with
  | copy | implicit => cases h
  | explicit a s => exact ⟨s.pixelFormat, by rw [surfaceFormat?_eq, if_pos h]; rfl⟩

theorem takes_iff : e.Takes f ↔ ∀ q, e.surfaceFormat? = some q → f.hasWire q = true := by
  constructor
  · intro h q hq
    obtain ⟨ht, hp⟩ := takesSurfaces_of_surfaceFormat? hq
    obtain ⟨r, hr, hw⟩ := h ht
    rwa [Option.some.inj (hp.symm.trans hr)]
  · intro h ht
    obtain ⟨q, hq⟩ := exists_surfaceFormat? ht
    exact ⟨q, (takesSurfaces_of_surfaceFormat? hq).2, h q hq⟩

end VideoEncoder

/-- Frames to which nothing has to be done before encoder `e` takes them, but for their format. -/
structure Ready (desired : Frame) (e : VideoEncoder) (f : Frame) : Prop where
  scaledSize : f.scaledSize = desired.scaledSize
  paddedSize : f.paddedSize = desired.paddedSize
  anamorphic : f.anamorphic = false
  hdr : f.hdr = false
  deinterlaced : desired.deinterlaced = true → f.deinterlaced = true
  memory : f.memory = if e.takesSurfaces then .hardware else .software

namespace PathPlan

open Stage

/-- A path without overlays, whose filters work where its encoder takes frames. -/
structure Plain (p : PathPlan) : Prop where
  family : ∀ q, p.encoder.surfaceFormat? = some q → p.backend.isHardware = true
  hdr : p.desired.hdr = false
  croppedSize : ∀ s, p.desired.croppedSize = some s → s = p.desired.paddedSize
  burned : p.burned = none
  hasLayers : p.hasLayers = false

variable {p : PathPlan} {f : Frame}

/-! ## When each stage passes frames on -/

theorem deinterlace?_eq_none_iff :
    p.deinterlace? f = none ↔ (p.desired.deinterlaced = true → f.deinterlaced = true) := by
  unfold deinterlace?
  cases p.desired.deinterlaced <;> cases f.deinterlaced <;> simp

theorem tonemap?_eq_none_iff (hh : p.desired.hdr = false) :
    p.tonemap? f = none ↔ f.hdr = false := by
  rw [tonemap?_eq, hh]
  cases f.hdr <;> simp

theorem scale?_eq_none_iff (hp : p.Plain) :
    p.scale? f = none ↔ ¬p.Rescales f ∧
      ∀ q, p.encoder.surfaceFormat? = some q → f.isHardware = true → f.hasWire q = true := by
  by_cases hr : p.Rescales f
  · rw [scale?_of_rescales hr]
    simp [hr]
  · rw [scale?_of_not_rescales hr]
    cases hq : p.encoder.surfaceFormat? with
    | none => simp [hr]
    | some q =>
      rw [hp.family q hq]
      cases f.isHardware <;> cases hw : f.hasWire q <;> simp [hr, hw]

theorem frame?_eq_none_iff (hp : p.Plain) :
    p.frame? f = none ↔ f.paddedSize = p.desired.paddedSize := by
  unfold frame?
  cases hc : p.desired.croppedSize with
  | none => simp
  | some c =>
    rw [hp.croppedSize c hc]
    simp

theorem toEncoder?_eq_none_iff :
    p.toEncoder? f = none ↔ (p.encoder.surfaceFormat? = none → f.memory = .software) := by
  unfold toEncoder?
  rw [← Frame.isHardware_eq_false_iff]
  cases f.isHardware <;> cases p.encoder.surfaceFormat? <;> simp

theorem finalUpload?_eq_none_iff (hp : p.Plain) :
    finalUpload? p.backend p.encoder f = none ↔
      ∀ q, p.encoder.surfaceFormat? = some q → f.memory = .hardware := by
  unfold finalUpload?
  rw [← Frame.isHardware_iff]
  cases hq : p.encoder.surfaceFormat? with
  | none => simp
  | some q =>
    rw [hp.family q hq]
    cases f.isHardware <;> simp

/-! ## The whole path -/

theorem memory_iff :
    (f.memory = if p.encoder.takesSurfaces then .hardware else .software) ↔
      (p.encoder.surfaceFormat? = none → f.memory = .software) ∧
        ∀ q, p.encoder.surfaceFormat? = some q → f.memory = .hardware := by
  cases ht : p.encoder.takesSurfaces with
  | true =>
    obtain ⟨q, hq⟩ := VideoEncoder.exists_surfaceFormat? ht
    simp [hq]
  | false =>
    have hq : p.encoder.surfaceFormat? = none := by
      rw [VideoEncoder.surfaceFormat?_eq, ht]
      rfl
    simp [hq]

/-- **The frames that pass a plain path as they are.** -/
theorem emitted_eq_nil_iff (hp : p.Plain) :
    emitted p.wholeStages f = [] ↔ Ready p.desired p.encoder f ∧ p.encoder.Takes f := by
  have hover : p.toOverlays? f = none := by
    rw [toOverlays?, overlaysInSoftware, hp.burned, hp.hasLayers]
    rfl
  have hsubtitles : p.subtitles? f = none := by
    rw [subtitles?, hp.burned]
    rfl
  rw [Stage.emitted_eq_nil_iff]
  simp only [wholeStages, stages, List.cons_append, List.nil_append, List.forall_mem_cons,
    deinterlace?_eq_none_iff, tonemap?_eq_none_iff hp.hdr, scale?_eq_none_iff hp,
    frame?_eq_none_iff hp, toEncoder?_eq_none_iff, hover, hsubtitles, finalUpload?_eq_none_iff hp,
    VideoEncoder.takes_iff, Rescales, not_or, Bool.not_eq_true, ne_eq, Decidable.not_not]
  constructor
  · rintro ⟨hd, hh, ⟨⟨hs, ha⟩, hw⟩, hpad, hdown, -, -, hup, -⟩
    refine ⟨⟨hs, hpad, ha, hh, hd, memory_iff.mpr ⟨hdown, hup⟩⟩, fun q hq => ?_⟩
    exact hw q hq (Frame.isHardware_iff.mpr (hup q hq))
  · rintro ⟨h, hw⟩
    obtain ⟨hdown, hup⟩ := memory_iff.mp h.memory
    exact ⟨h.deinterlaced, h.hdr, ⟨⟨h.scaledSize, h.anamorphic⟩, fun q hq _ => hw q hq⟩,
      h.paddedSize, hdown, trivial, trivial, hup, by simp⟩

/-- **Frames that are ready but for their format are converted**, where they lie, and nothing else
is done to them. -/
theorem emitted_eq_convert (hp : p.Plain) {q : PixelFormat}
    (hq : p.encoder.surfaceFormat? = some q) (h : Ready p.desired p.encoder f)
    (hw : f.hasWire q = false) :
    emitted p.wholeStages f = [.work p.backend none (.convert q)] ∧
      (VideoFilter.work p.backend none (.convert q)).next f = { f with pixelFormat := some q } := by
  have hb := hp.family q hq
  have hm : f.memory = .hardware := (memory_iff.mp h.memory).2 q hq
  have hplace : f.memory = p.backend.memory := by rw [hm, Backend.memory_eq_hardware_iff.mpr hb]
  have hr : ¬p.Rescales f := by simp [Rescales, h.scaledSize, h.anamorphic]
  have hnext : (VideoFilter.work p.backend none (.convert q)).next f =
      { f with pixelFormat := some q } := by
    show FilterWork.next (.convert q) (moved p.backend f p.backend.memory) = _
    rw [moved_self _ hplace, FilterWork.next, ← h.anamorphic]
  have hscale : p.scale? f = some (.work p.backend none (.convert q)) := by
    rw [scale?_of_not_rescales hr, hq]
    simp [hb, Frame.isHardware_iff.mpr hm, hw, on, leadOf, toward?_self _ hplace]
  -- the converted frames need nothing more
  have hrest : ∀ s ∈ p.wholeStages, s { f with pixelFormat := some q } = none := by
    refine Stage.emitted_eq_nil_iff.mp ((emitted_eq_nil_iff hp).mpr ⟨?_, ?_⟩)
    · exact ⟨h.scaledSize, h.paddedSize, h.anamorphic, h.hdr, h.deinterlaced, h.memory⟩
    · refine VideoEncoder.takes_iff.mpr fun r hr => Frame.hasWire_of_eq ?_
      exact hq.symm.trans hr
  have hfirst : ∀ s ∈ [p.deinterlace?, p.tonemap?], s f = none := by
    simp only [List.forall_mem_cons]
    exact ⟨deinterlace?_eq_none_iff.mpr h.deinterlaced, (tonemap?_eq_none_iff hp.hdr).mpr h.hdr,
      by simp⟩
  refine ⟨?_, hnext⟩
  refine emitted_eq_singleton (a := [p.deinterlace?, p.tonemap?]) hfirst hscale fun s hs => ?_
  rw [hnext]
  exact hrest s (List.mem_cons_of_mem _ (List.mem_cons_of_mem _ (List.mem_cons_of_mem _ hs)))

end PathPlan

end Playout
