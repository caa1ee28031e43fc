import Playout.Command.Pipeline

/-!
# Pictures

Of all that is known of frames, filters read and change one part, the **picture**: where it lies,
its format, its sizes, and the work it still needs.

* `picture_next_congr`: two frames with the same picture have the same picture after a filter.
* `Transfer.moved_eq`: a move changes memory and pixel format only; `moved_down` and `moved_up`
  say how.
* `VideoFilter.beside_next`: filters change nothing but the picture.
* `picture_nextAll`: steps that neither decode, filter nor convert leave the picture alone.
-/

namespace Playout

structure Picture where
  memory : Memory
  pixelFormat : Option PixelFormat
  scaledSize : Size
  paddedSize : Size
  anamorphic : Bool
  deinterlaced : Bool
  hdr : Bool

def Frame.picture (f : Frame) : Picture where
  memory := f.memory
  pixelFormat := f.pixelFormat
  scaledSize := f.scaledSize
  paddedSize := f.paddedSize
  anamorphic := f.anamorphic
  deinterlaced := f.deinterlaced
  hdr := f.hdr

/-- The frames without their picture: what filters leave as it is. -/
def Frame.beside (f : Frame) : Frame :=
  { f with
    memory := .software
    pixelFormat := none
    scaledSize := ⟨0, 0⟩
    paddedSize := ⟨0, 0⟩
    anamorphic := false
    deinterlaced := false
    hdr := false }

theorem Frame.isHardware_iff {f : Frame} : f.isHardware = true ↔ f.memory = .hardware := by
  simp [Frame.isHardware]

theorem Frame.isHardware_eq_false_iff {f : Frame} :
    f.isHardware = false ↔ f.memory = .software := by
  cases h : f.memory <;> simp [Frame.isHardware, h]

theorem Frame.toNat_isHardware (f : Frame) :
    f.isHardware.toNat = if f.memory = .hardware then 1 else 0 := by
  cases h : f.memory <;> simp [Frame.isHardware, h]

theorem Frame.memory_cases {b : Backend} {f : Frame} (h : f.memory ≠ b.memory) :
    (b.isHardware = true ∧ b.memory = .hardware ∧ f.memory = .software) ∨
      (b.memory = .software ∧ f.memory = .hardware) := by
  cases hb : b.memory with
  | hardware =>
    refine .inl ⟨Backend.memory_eq_hardware_iff.mp hb, rfl, ?_⟩
    cases hf : f.memory with
    | software => rfl
    | hardware => exact absurd (hf.trans hb.symm) h
  | software =>
    refine .inr ⟨rfl, ?_⟩
    cases hf : f.memory with
    | software => exact absurd (hf.trans hb.symm) h
    | hardware => rfl

/-! ## Moves -/

namespace Transfer

theorem next_upload_eq (b : Backend) (requested : Option PixelFormat) (f : Frame) :
    (upload b requested).next f =
      { f with
        memory := ((upload b requested).next f).memory
        pixelFormat := ((upload b requested).next f).pixelFormat } := by
  by_cases hb : b.isHardware = true <;> simp [next, hb]

theorem moved_eq (b : Backend) (f : Frame) (m : Memory) :
    moved b f m =
      { f with memory := (moved b f m).memory, pixelFormat := (moved b f m).pixelFormat } := by
  unfold moved
  split
  · exact next_upload_eq _ _ f
  · rfl
  · rfl

@[simp] theorem scaledSize_moved (b : Backend) (f : Frame) (m : Memory) :
    (moved b f m).scaledSize = f.scaledSize := by rw [moved_eq]

@[simp] theorem paddedSize_moved (b : Backend) (f : Frame) (m : Memory) :
    (moved b f m).paddedSize = f.paddedSize := by rw [moved_eq]

@[simp] theorem anamorphic_moved (b : Backend) (f : Frame) (m : Memory) :
    (moved b f m).anamorphic = f.anamorphic := by rw [moved_eq]

@[simp] theorem deinterlaced_moved (b : Backend) (f : Frame) (m : Memory) :
    (moved b f m).deinterlaced = f.deinterlaced := by rw [moved_eq]

@[simp] theorem hdr_moved (b : Backend) (f : Frame) (m : Memory) :
    (moved b f m).hdr = f.hdr := by rw [moved_eq]

theorem toward?_self (b : Backend) {f : Frame} {m : Memory} (h : f.memory = m) :
    toward? b f m = none := by
  subst h
  cases hf : f.memory <;> simp [toward?, hf]

theorem moved_self (b : Backend) {f : Frame} {m : Memory} (h : f.memory = m) :
    moved b f m = f := by
  rw [moved, toward?_self b h]

theorem toward?_down (b : Backend) {f : Frame} (h : f.memory = .hardware) :
    toward? b f .software = some (.download (f.pixelFormat.getD .nv12) none) := by
  simp [toward?, h]

theorem moved_down (b : Backend) {f : Frame} (h : f.memory = .hardware) :
    moved b f .software = { f with memory := .software } := by
  rw [moved, toward?_down b h]

theorem toward?_up {b : Backend} (hb : b.isHardware = true) {f : Frame}
    (h : f.memory = .software) :
    toward? b f .hardware = some (.upload b (requestedBy b f)) := by
  simp [toward?, h, hb]

theorem moved_up {b : Backend} (hb : b.isHardware = true) {f : Frame}
    (h : f.memory = .software) :
    moved b f .hardware =
      { f with
        memory := .hardware
        pixelFormat := uploaded b f.pixelFormat (requestedBy b f) } := by
  rw [moved, toward?_up hb h]
  simp [next, hb]

theorem beside_moved (b : Backend) (f : Frame) (m : Memory) :
    (moved b f m).beside = f.beside := by
  rw [moved_eq]
  rfl

theorem beside_next (t : Transfer) (f : Frame) : (t.next f).beside = f.beside := by
  cases t with
  | upload b requested =>
    rw [next_upload_eq]
    rfl
  | download source target => rfl

theorem toward?_congr {f g : Frame} (h : f.picture = g.picture) (b : Backend) (m : Memory) :
    toward? b f m = toward? b g m := by
  have hm : f.memory = g.memory := congrArg Picture.memory h
  have hp : f.pixelFormat = g.pixelFormat := congrArg Picture.pixelFormat h
  have hr : requestedBy b f = requestedBy b g := by
    cases b <;> simp [requestedBy, hp]
  simp only [toward?, hm, hp, hr]

theorem picture_next_congr {f g : Frame} (h : f.picture = g.picture) (t : Transfer) :
    (t.next f).picture = (t.next g).picture := by
  simp only [Frame.picture, Picture.mk.injEq] at h ⊢
  obtain ⟨hm, hp, hs, hpad, ha, hd, hh⟩ := h
  cases t with
  | upload b requested =>
    by_cases hb : b.isHardware = true
    · simp [next, hb, hp, hs, hpad, ha, hd, hh]
    · simp [next, hb, hm, hp, hs, hpad, ha, hd, hh]
  | download source target => simp [next, hs, hpad, ha, hd, hh]

theorem picture_moved_congr {f g : Frame} (h : f.picture = g.picture) (b : Backend) (m : Memory) :
    (moved b f m).picture = (moved b g m).picture := by
  unfold moved
  rw [toward?_congr h]
  split
  · exact picture_next_congr h _
  · simp only [Frame.picture, Picture.mk.injEq] at h ⊢
    exact ⟨trivial, h.2⟩
  · exact h

end Transfer

/-! ## Filters -/

theorem FilterWork.picture_next_congr {f g : Frame} (h : f.picture = g.picture)
    (w : FilterWork) : (w.next f).picture = (w.next g).picture := by
  simp only [Frame.picture, Picture.mk.injEq] at h ⊢
  obtain ⟨hm, hp, hs, hpad, ha, hd, hh⟩ := h
  cases w <;> simp [next, hm, hp, hs, hpad, ha, hd, hh]

namespace VideoFilter

/-- **A filter looks at the picture.**  What it leaves of two frames with one picture is one
picture. -/
theorem picture_next_congr {f g : Frame} (h : f.picture = g.picture) (v : VideoFilter) :
    (v.next f).picture = (v.next g).picture := by
  cases v with
  | move t => exact t.picture_next_congr h
  | work b lead w =>
    have hm : f.memory = g.memory := congrArg Picture.memory h
    exact w.picture_next_congr (Transfer.picture_moved_congr h b b.memory)

/-- **A filter changes the picture only.** -/
theorem beside_next (v : VideoFilter) (f : Frame) : (v.next f).beside = f.beside := by
  cases v with
  | move t => exact t.beside_next f
  | work b lead w =>
    have hw : (w.next (Transfer.moved b f b.memory)).beside =
        (Transfer.moved b f b.memory).beside := by
      cases w <;> rfl
    exact hw.trans (Transfer.beside_moved b f b.memory)

theorem beside_nextAll (vs : List VideoFilter) (f : Frame) :
    (nextAll vs f).beside = f.beside := by
  induction vs generalizing f with
  | nil => rfl
  | cons v rest ih => exact (ih (v.next f)).trans (v.beside_next f)

theorem picture_nextAll_congr {f g : Frame} (h : f.picture = g.picture)
    (vs : List VideoFilter) : (nextAll vs f).picture = (nextAll vs g).picture := by
  induction vs generalizing f g with
  | nil => exact h
  | cons v rest ih => exact ih (v.picture_next_congr h)

end VideoFilter

/-! ## Steps -/

namespace Step

/-- All steps but decoding, filtering and the conversion at the end. -/
def keepsPicture : Step → Bool
  | decoder _ | filter _ | output (.pixelFormat _) => false
  | _ => true

theorem picture_next {s : Step} (h : s.keepsPicture = true) (f : Frame) :
    (s.next f).picture = f.picture := by
  cases s with
  | decoder _ | filter _ => simp [keepsPicture] at h
  | global o => cases o <;> rfl
  | output o =>
    cases o with
    | pixelFormat _ => simp [keepsPicture] at h
    | _ => rfl
  | videoEncoder e =>
    show (e.next f).picture = f.picture
    unfold VideoEncoder.next
    split <;> rfl
  | audioEncoder e => rfl
  | container k => cases k <;> rfl

theorem picture_nextAll {steps : List Step} (h : ∀ s ∈ steps, s.keepsPicture = true)
    (f : Frame) : (nextAll steps f).picture = f.picture := by
  induction steps generalizing f with
  | nil => rfl
  | cons s rest ih =>
    rw [nextAll_cons, ih (fun t ht => h t (List.mem_cons_of_mem s ht)),
      picture_next (h s List.mem_cons_self)]

end Step

end Playout
