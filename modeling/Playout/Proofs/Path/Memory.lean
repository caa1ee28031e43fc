import Playout.Proofs.Path.Stage

/-!
# Memory along the main path

Every stage leaves the frames where they are or brings them to a memory of its own.

* `Stage.Toward`: a stage that brings frames to one memory, if it moves them.
* `downloads_eq_zero`, `uploads_eq_zero`: stages toward one memory move frames in one direction.
* `PathPlan.host_path`, `PathPlan.device_path`: where the frames end and how often they move, for
  an encoder that takes them from the host and for one that takes them from an accelerator.
-/

namespace Playout

open Transfer VideoFilter

namespace Stage

/-- A stage that leaves the frames where they are or brings them to memory `m`. -/
def Toward (s : Stage) (m : Memory) : Prop :=
  ∀ f, (advance s f).memory = f.memory ∨ (advance s f).memory = m

variable {stages : List Stage}

theorem not_falls (s : Stage) (hs : Toward s .hardware) (f : Frame) :
    falls f (advance s f) = false := by
  rcases hs f with h | h
  · simp [falls, Frame.isHardware, h]
  · simp [falls, Frame.isHardware, h]

theorem downloads_eq_zero (h : ∀ s ∈ stages, Toward s .hardware) (f : Frame) :
    downloads (emitted stages f) f = 0 := by
  induction stages generalizing f with
  | nil => rfl
  | cons s rest ih =>
    rw [downloads_emitted_cons, not_falls s (h s List.mem_cons_self),
      ih (fun t ht => h t (List.mem_cons_of_mem s ht))]
    rfl

theorem not_rises (s : Stage) (hs : Toward s .software) (f : Frame) :
    rises f (advance s f) = false := by
  rcases hs f with h | h
  · simp [rises, Frame.isHardware, h]
  · simp [rises, Frame.isHardware, h]

theorem uploads_eq_zero (h : ∀ s ∈ stages, Toward s .software) (f : Frame) :
    uploads (emitted stages f) f = 0 := by
  induction stages generalizing f with
  | nil => rfl
  | cons s rest ih =>
    rw [uploads_emitted_cons, not_rises s (h s List.mem_cons_self),
      ih (fun t ht => h t (List.mem_cons_of_mem s ht))]
    rfl

/-- Frames that lie where all stages bring them stay there. -/
theorem memory_advanceAll {m : Memory} (h : ∀ s ∈ stages, Toward s m) {f : Frame}
    (hf : f.memory = m) : (advanceAll stages f).memory = m := by
  induction stages generalizing f with
  | nil => exact hf
  | cons s rest ih =>
    refine ih (fun t ht => h t (List.mem_cons_of_mem s ht)) ?_
    rcases h s List.mem_cons_self f with hs | hs
    · exact hs.trans hf
    · exact hs

theorem uploads_eq_zero_of_memory {m : Memory} (h : ∀ s ∈ stages, Toward s m) {f : Frame}
    (hf : f.memory = m) : uploads (emitted stages f) f = 0 := by
  induction stages generalizing f with
  | nil => rfl
  | cons s rest ih =>
    have hs : (advance s f).memory = f.memory := by
      rcases h s List.mem_cons_self f with hs | hs
      · exact hs
      · exact hs.trans hf.symm
    rw [uploads_emitted_cons, ih (fun t ht => h t (List.mem_cons_of_mem s ht)) (hs.trans hf)]
    simp [rises, Frame.isHardware, hs]

/-- **The balance of stages.** -/
theorem balance (stages : List Stage) (f : Frame) :
    uploads (emitted stages f) f + f.isHardware.toNat =
      downloads (emitted stages f) f + (advanceAll stages f).isHardware.toNat := by
  rw [uploads_add_isHardware, nextAll_emitted]

end Stage

namespace PathPlan

open Stage

variable (p : PathPlan)

/-! ## Where each stage brings the frames -/

theorem toward_deinterlace : Toward p.deinterlace? p.backend.memory := by
  intro f
  rw [advance_deinterlace]
  split
  · exact .inr (moved_memory _ _)
  · exact .inl rfl

theorem toward_tonemap : Toward p.tonemap? p.backend.memory := by
  intro f
  rw [advance_tonemap]
  split
  · exact .inr (moved_memory _ _)
  · exact .inl rfl

theorem toward_scale : Toward p.scale? p.backend.memory := by
  intro f
  by_cases h : p.Rescales f
  · rw [advance_scale_of_rescales h]
    exact .inr (moved_memory _ _)
  · rw [advance_scale_of_not_rescales h]
    split
    · split
      · exact .inl rfl
      · exact .inl rfl
    · exact .inl rfl

theorem memory_padBackend (b : Backend) :
    (padBackend b).memory = .software ∨ (padBackend b).memory = b.memory := by
  cases b
  · exact .inl rfl
  · exact .inl rfl
  · exact .inl rfl
  · exact .inr rfl

theorem memory_frame (f : Frame) :
    (advance p.frame? f).memory = f.memory ∨ (advance p.frame? f).memory = .software ∨
      (advance p.frame? f).memory = p.backend.memory := by
  rw [advance_frame]
  split
  · split
    · exact .inr (.inl (moved_memory_software _ _))
    · exact .inl rfl
  · split
    · refine .inr ?_
      show (moved (padBackend p.backend) f (padBackend p.backend).memory).memory = _ ∨
        (moved (padBackend p.backend) f (padBackend p.backend).memory).memory = _
      rw [moved_memory]
      exact memory_padBackend p.backend
    · exact .inl rfl

theorem toward_toEncoder : Toward p.toEncoder? .software := by
  intro f
  obtain ⟨q, hq⟩ := p.advance_toEncoder f
  rw [hq]
  split
  · exact .inr rfl
  · exact .inl rfl

theorem toward_toOverlays : Toward p.toOverlays? .software := by
  intro f
  obtain ⟨q, hq⟩ := p.advance_toOverlays f
  rw [hq]
  split
  · exact .inr rfl
  · exact .inl rfl

theorem toward_subtitles : Toward p.subtitles? .software := by
  intro f
  rw [advance_subtitles]
  split
  · exact .inr (moved_memory_software _ _)
  · exact .inl rfl

/-! ## The path in parts -/

def rising : List Stage := [p.deinterlace?, p.tonemap?, p.scale?]

def falling : List Stage := [p.toEncoder?, p.toOverlays?, p.subtitles?]

theorem wholeStages_eq :
    p.wholeStages = p.rising ++ (p.frame? :: (p.falling ++ [finalUpload? p.backend p.encoder])) :=
  rfl

theorem toward_rising : ∀ s ∈ p.rising, Toward s p.backend.memory := by
  intro s hs
  simp only [rising, List.mem_cons, List.not_mem_nil, or_false] at hs
  rcases hs with rfl | rfl | rfl
  · exact p.toward_deinterlace
  · exact p.toward_tonemap
  · exact p.toward_scale

theorem toward_falling : ∀ s ∈ p.falling, Toward s .software := by
  intro s hs
  simp only [falling, List.mem_cons, List.not_mem_nil, or_false] at hs
  rcases hs with rfl | rfl | rfl
  · exact p.toward_toEncoder
  · exact p.toward_toOverlays
  · exact p.toward_subtitles

/-! ## Whole paths -/

variable {p} {f : Frame}

theorem memory_finalUpload {q : PixelFormat} (hq : p.encoder.surfaceFormat? = some q)
    (hb : p.backend.isHardware = true) (f : Frame) :
    (advance (finalUpload? p.backend p.encoder) f).memory = .hardware := by
  rw [advance_finalUpload, hq, hb]
  cases hf : f.isHardware with
  | true => exact Frame.isHardware_iff.mp hf
  | false => rfl

/-- **The path to an encoder that takes frames from the host.**  Decoded frames that lie where
the filters work are never moved up, and they end in host memory. -/
theorem host_path (hq : p.encoder.surfaceFormat? = none) (hf : f.memory = p.backend.memory) :
    uploads (emitted p.wholeStages f) f = 0 ∧
      (advanceAll p.wholeStages f).memory = .software := by
  have hfinal : Toward (finalUpload? p.backend p.encoder) .software := by
    intro g
    rw [advance_finalUpload, hq]
    exact .inl rfl
  have hfall : ∀ s ∈ p.falling ++ [finalUpload? p.backend p.encoder], Toward s .software := by
    intro s hs
    rcases List.mem_append.mp hs with hs | hs
    · exact p.toward_falling s hs
    · rw [List.mem_singleton.mp hs]
      exact hfinal
  obtain ⟨g, hg⟩ : ∃ g, g = advanceAll p.rising f := ⟨_, rfl⟩
  have hgm : g.memory = p.backend.memory := by
    rw [hg]
    exact memory_advanceAll p.toward_rising hf
  have hframe : rises g (advance p.frame? g) = false := by
    rcases p.memory_frame g with h | h | h
    · simp [rises, Frame.isHardware, h]
    · simp [rises, Frame.isHardware, h]
    · simp [rises, Frame.isHardware, h, hgm]
  rw [wholeStages_eq, uploads_emitted_append, uploads_emitted_cons, advanceAll_append,
    advanceAll_cons, ← hg]
  refine ⟨?_, ?_⟩
  · rw [uploads_eq_zero_of_memory p.toward_rising hf, hframe, uploads_eq_zero hfall]
    rfl
  · -- the first of the falling stages brings the frames down, and the others leave them there
    obtain ⟨k, hk⟩ : ∃ k, k = advance p.frame? g := ⟨_, rfl⟩
    rw [← hk]
    have hdown : (advance p.toEncoder? k).memory = .software := by
      obtain ⟨q, he⟩ := p.advance_toEncoder k
      rw [he, hq]
      cases hh : k.isHardware with
      | true => rfl
      | false => exact Frame.isHardware_eq_false_iff.mp hh
    have hrest : ∀ s ∈ [p.toOverlays?, p.subtitles?, finalUpload? p.backend p.encoder],
        Toward s .software := fun s hs => hfall s (List.mem_cons_of_mem _ hs)
    exact memory_advanceAll hrest hdown

/-- **The path to an encoder that takes frames from an accelerator.**  The frames end in its
memory, and they come down at most once before. -/
theorem device_path {q : PixelFormat} (hq : p.encoder.surfaceFormat? = some q)
    (hb : p.backend.isHardware = true) (f : Frame) :
    downloads (emitted p.wholeStages f) f ≤ 1 ∧
      (advanceAll p.wholeStages f).memory = .hardware := by
  have hrise : ∀ s ∈ p.rising, Toward s .hardware := by
    rw [← Backend.memory_eq_hardware_iff.mpr hb]
    exact p.toward_rising
  have hfinal : ∀ s ∈ [finalUpload? p.backend p.encoder], Toward s .hardware := by
    intro s hs g
    rw [List.mem_singleton.mp hs]
    exact .inr (memory_finalUpload hq hb g)
  rw [wholeStages_eq, downloads_emitted_append, downloads_emitted_cons,
    downloads_emitted_append, downloads_eq_zero hrise, downloads_eq_zero hfinal]
  refine ⟨?_, ?_⟩
  · generalize advanceAll p.rising f = g
    have hbalance := balance p.falling (advance p.frame? g)
    rw [uploads_eq_zero p.toward_falling] at hbalance
    have hfall : (falls g (advance p.frame? g)).toNat + (advance p.frame? g).isHardware.toNat
        ≤ 1 := by
      unfold falls
      cases g.isHardware <;> cases (advance p.frame? g).isHardware <;> decide
    omega
  · rw [advanceAll_append, advanceAll_cons, advanceAll_append]
    exact memory_finalUpload hq hb _

end PathPlan

end Playout
