import Playout.Proofs.Filter.Picture

/-!
# Where the fields of a final state come from

Steps may run in any order.  A field beside the picture is written by steps of one kind, and the
last of them decides it.  The picture, its pixel format aside, is made by the decoder and the
filters, which do not look at anything else for it.

* `Step.beside_next`: what one step writes beside the picture.
* `Step.field_nextAll`: the last step that writes a field decides it.
* `Step.shape_nextAll`: for the shape of the picture all steps but decoding and filtering may be
  left out.
* `Pipeline.owned_final`: the fields of the final state, one by one.
-/

namespace Playout

/-- The picture without its pixel format. -/
def Frame.shape (f : Frame) : Picture := { f.picture with pixelFormat := none }

theorem Frame.shape_congr {f g : Frame} (h : f.picture = g.picture) : f.shape = g.shape := by
  rw [shape, shape, h]

theorem Frame.shape_eq_iff {f g : Frame} :
    f.shape = g.shape ↔ f.memory = g.memory ∧ f.scaledSize = g.scaledSize ∧
      f.paddedSize = g.paddedSize ∧ f.anamorphic = g.anamorphic ∧
      f.deinterlaced = g.deinterlaced ∧ f.hdr = g.hdr := by
  simp [shape, picture]

/-! ## The shape of the picture -/

variable {f g : Frame}

namespace Transfer

/-- The memory frames are moved to is a matter of the memory they lie in. -/
theorem memory_moved_congr (h : f.memory = g.memory) (b : Backend) (m : Memory) :
    (moved b f m).memory = (moved b g m).memory := by
  unfold moved toward?
  rw [h]
  cases hg : g.memory <;> cases m <;> cases hb : b.isHardware <;> simp [next, hb, hg, h]

theorem shape_moved_congr (h : f.shape = g.shape) (b : Backend) (m : Memory) :
    (moved b f m).shape = (moved b g m).shape := by
  rw [Frame.shape_eq_iff] at h ⊢
  obtain ⟨hm, hs, hp, ha, hd, hh⟩ := h
  simp [memory_moved_congr hm, hs, hp, ha, hd, hh]

theorem shape_next_congr (h : f.shape = g.shape) (t : Transfer) :
    (t.next f).shape = (t.next g).shape := by
  cases t with
  | upload b requested =>
    by_cases hb : b.isHardware = true
    · rw [Frame.shape_eq_iff] at h ⊢
      simp [next, hb, h]
    · simp [next, hb, h]
  | download source target =>
    rw [Frame.shape_eq_iff] at h ⊢
    simp [next, h]

end Transfer

theorem FilterWork.shape_next_congr (h : f.shape = g.shape) (w : FilterWork) :
    (w.next f).shape = (w.next g).shape := by
  rw [Frame.shape_eq_iff] at h ⊢
  cases w <;> simp [next, h]

namespace VideoFilter

theorem shape_next_congr (h : f.shape = g.shape) (v : VideoFilter) :
    (v.next f).shape = (v.next g).shape := by
  cases v with
  | move t => exact Transfer.shape_next_congr h t
  | work b lead w =>
    exact w.shape_next_congr (Transfer.shape_moved_congr h b b.memory)

theorem shape_nextAll_congr (h : f.shape = g.shape) (vs : List VideoFilter) :
    (nextAll vs f).shape = (nextAll vs g).shape := by
  induction vs generalizing f g with
  | nil => exact h
  | cons v rest ih => exact ih (shape_next_congr h v)

end VideoFilter

theorem Decoder.shape_next_congr (h : f.shape = g.shape) (d : Decoder) :
    (d.next f).shape = (d.next g).shape := by
  unfold next
  split
  · rw [Frame.shape_eq_iff] at h ⊢
    simp [h]
  · exact h

namespace Step

/-- Steps that decode or filter. -/
def makesFrames : Step → Bool
  | decoder _ | filter _ => true
  | _ => false

variable {s : Step} {steps : List Step}

theorem shape_next_congr (hs : s.makesFrames = true) (h : f.shape = g.shape) :
    (s.next f).shape = (s.next g).shape := by
  cases s with
  | decoder d => exact d.shape_next_congr h
  | filter graph => exact VideoFilter.shape_nextAll_congr h _
  | _ => cases hs

theorem shape_next (hs : s.makesFrames = false) (f : Frame) : (s.next f).shape = f.shape := by
  cases s with
  | decoder _ | filter _ => cases hs
  | output o =>
    cases o with
    | pixelFormat p => rfl
    | _ => exact Frame.shape_congr (picture_next rfl f)
  | _ => exact Frame.shape_congr (picture_next rfl f)

/-- **The shape is made by decoding and filtering.**  All other steps may be left out. -/
theorem shape_nextAll (h : f.shape = g.shape) :
    (nextAll steps f).shape = (nextAll (steps.filter makesFrames) g).shape := by
  induction steps generalizing f g with
  | nil => exact h
  | cons s rest ih =>
    rw [nextAll_cons]
    cases hs : s.makesFrames with
    | true =>
      rw [List.filter_cons_of_pos hs, nextAll_cons]
      exact ih (shape_next_congr hs h)
    | false =>
      rw [List.filter_cons_of_neg (by simp [hs])]
      exact ih ((shape_next hs f).trans h)

/-! ## The fields beside the picture -/

def accelerator? : Step → Option Accelerator
  | global (.device setup) => some setup.accelerator
  | _ => none

/-- The video format, of an encoder that declares one. -/
def videoFormat? : Step → Option VideoFormat
  | videoEncoder e => e.videoFormat?
  | _ => none

def audioFormat? : Step → Option AudioFormat
  | audioEncoder e => some e.audioFormat
  | _ => none

def videoRates? : Step → Option (UInt32 × UInt32)
  | output (.videoBitrate rate size) => some (rate, size)
  | _ => none

def frameRate? : Step → Option UInt32
  | output (.frameRate r) => some r
  | _ => none

def container? : Step → Option Container
  | container k => some k
  | _ => none

def hls? : Step → Option HlsOutput
  | container (.hls h) => some h
  | _ => none

/-- **What one step writes** beside the picture, each field by steps of one kind. -/
theorem beside_next (s : Step) (f : Frame) :
    (s.next f).beside =
      { f.beside with
        videoFormat := s.videoFormat?.elim f.videoFormat id
        audioFormat := s.audioFormat?.elim f.audioFormat some
        videoBitrate := s.videoRates?.elim f.videoBitrate fun r => some r.1
        videoBufferSize := s.videoRates?.elim f.videoBufferSize fun r => some r.2
        frameRate := s.frameRate?.elim f.frameRate some
        accelerator := s.accelerator?.elim f.accelerator id
        container := s.container?.elim f.container Container.kind?
        hlsPlaylist := s.hls?.elim f.hlsPlaylist fun h => some h.playlist
        hlsSegments := s.hls?.elim f.hlsSegments fun h => some h.segments } := by
  cases s with
  | global o => cases o <;> rfl
  | decoder d =>
    show (d.next f).beside = _
    unfold Decoder.next
    split <;> rfl
  | filter graph => exact VideoFilter.beside_nextAll _ f
  | output o => cases o <;> rfl
  | videoEncoder e =>
    show (e.next f).beside = _
    unfold VideoEncoder.next
    cases h : e.videoFormat? <;> simp [videoFormat?, h] <;> rfl
  | audioEncoder e => rfl
  | container k => cases k <;> rfl

/-- What the last of the steps with something to read has. -/
def last? {α : Type} (read : Step → Option α) (steps : List Step) : Option α :=
  (steps.filterMap read).getLast?

/-- Where the steps that have something to read agree, any of them decides. -/
theorem last?_eq_some_iff {α : Type} {read : Step → Option α}
    (h : ∀ s ∈ steps, ∀ t ∈ steps, ∀ x y, read s = some x → read t = some y → x = y) {x : α} :
    last? read steps = some x ↔ ∃ s ∈ steps, read s = some x := by
  rw [last?]
  constructor
  · intro hx
    exact List.mem_filterMap.mp (List.mem_of_getLast? hx)
  · rintro ⟨s, hs, hx⟩
    have hne : steps.filterMap read ≠ [] := List.ne_nil_of_mem (List.mem_filterMap.mpr ⟨s, hs, hx⟩)
    obtain ⟨t, ht, hy⟩ := List.mem_filterMap.mp (List.getLast_mem hne)
    rw [List.getLast?_eq_some_getLast hne, h s hs t ht _ _ hx hy]

/-- **The last step that writes a field decides it.** -/
theorem field_nextAll {α β : Type} (field : Frame → β) {read : Step → Option α} {written : α → β}
    (h : ∀ s f, field (s.next f) = (read s).elim (field f) written) (steps : List Step)
    (f : Frame) : field (nextAll steps f) = (last? read steps).elim (field f) written := by
  induction steps generalizing f with
  | nil => rfl
  | cons s rest ih =>
    rw [nextAll_cons, ih, h, last?, last?]
    cases hs : read s with
    | none => rw [List.filterMap_cons_none hs]; rfl
    | some a =>
      rw [List.filterMap_cons_some hs, List.getLast?_cons]
      cases (rest.filterMap read).getLast? <;> rfl

/-- A field that no step writes stays as it is. -/
theorem kept_nextAll {β : Type} (field : Frame → β) (h : ∀ (s : Step) f, field (s.next f) = field f)
    (steps : List Step) (f : Frame) : field (nextAll steps f) = field f := by
  induction steps generalizing f with
  | nil => rfl
  | cons s rest ih => rw [nextAll_cons, ih, h]

/-- Where the fields of the frames `g` come from, which steps have made of the frames `f`: from
the last step of a kind or, where there is none, from `f`. -/
structure Owned (steps : List Step) (f g : Frame) : Prop where
  realtime : g.realtime = f.realtime
  infiniteLoop : g.infiniteLoop = f.infiniteLoop
  croppedSize : g.croppedSize = f.croppedSize
  videoFormat : g.videoFormat = (last? videoFormat? steps).elim f.videoFormat id
  audioFormat : g.audioFormat = (last? audioFormat? steps).elim f.audioFormat some
  videoBitrate : g.videoBitrate = (last? videoRates? steps).elim f.videoBitrate fun r => some r.1
  videoBufferSize :
    g.videoBufferSize = (last? videoRates? steps).elim f.videoBufferSize fun r => some r.2
  frameRate : g.frameRate = (last? frameRate? steps).elim f.frameRate some
  accelerator : g.accelerator = (last? accelerator? steps).elim f.accelerator id
  container : g.container = (last? container? steps).elim f.container Container.kind?
  hlsPlaylist : g.hlsPlaylist = (last? hls? steps).elim f.hlsPlaylist fun h => some h.playlist
  hlsSegments : g.hlsSegments = (last? hls? steps).elim f.hlsSegments fun h => some h.segments
  memory : g.memory = (nextAll (steps.filter makesFrames) f).memory
  scaledSize : g.scaledSize = (nextAll (steps.filter makesFrames) f).scaledSize
  paddedSize : g.paddedSize = (nextAll (steps.filter makesFrames) f).paddedSize
  anamorphic : g.anamorphic = (nextAll (steps.filter makesFrames) f).anamorphic
  deinterlaced : g.deinterlaced = (nextAll (steps.filter makesFrames) f).deinterlaced
  hdr : g.hdr = (nextAll (steps.filter makesFrames) f).hdr

end Step

/-- **The fields of a final state**, for steps in any order and any frames to begin with. -/
theorem Pipeline.owned_final (p : Pipeline) : Step.Owned p.steps p.initial p.final := by
  have hshape : p.final.shape = (Step.nextAll (p.steps.filter Step.makesFrames) p.initial).shape :=
    Step.shape_nextAll rfl
  obtain ⟨hm, hs, hp, ha, hd, hh⟩ := Frame.shape_eq_iff.mp hshape
  have hfield := fun {β : Type} (field : Frame → β) (s : Step) (f : Frame) =>
    congrArg field (s.beside_next f)
  exact {
    realtime := Step.kept_nextAll Frame.realtime (hfield Frame.realtime) _ _
    infiniteLoop := Step.kept_nextAll Frame.infiniteLoop (hfield Frame.infiniteLoop) _ _
    croppedSize := Step.kept_nextAll Frame.croppedSize (hfield Frame.croppedSize) _ _
    videoFormat := Step.field_nextAll Frame.videoFormat (hfield Frame.videoFormat) _ _
    audioFormat := Step.field_nextAll Frame.audioFormat (hfield Frame.audioFormat) _ _
    videoBitrate := Step.field_nextAll Frame.videoBitrate (hfield Frame.videoBitrate) _ _
    videoBufferSize := Step.field_nextAll Frame.videoBufferSize (hfield Frame.videoBufferSize) _ _
    frameRate := Step.field_nextAll Frame.frameRate (hfield Frame.frameRate) _ _
    accelerator := Step.field_nextAll Frame.accelerator (hfield Frame.accelerator) _ _
    container := Step.field_nextAll Frame.container (hfield Frame.container) _ _
    hlsPlaylist := Step.field_nextAll Frame.hlsPlaylist (hfield Frame.hlsPlaylist) _ _
    hlsSegments := Step.field_nextAll Frame.hlsSegments (hfield Frame.hlsSegments) _ _
    memory := hm
    scaledSize := hs
    paddedSize := hp
    anamorphic := ha
    deinterlaced := hd
    hdr := hh }

end Playout
