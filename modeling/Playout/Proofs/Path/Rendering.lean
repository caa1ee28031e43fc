import Playout.Proofs.Filter.Rendering
import Playout.Proofs.Path.Format

/-!
# The text of the main path

Every filter of the main path is built for the frames at hand, and its text says what it does to
them.  What carries this along the path is that surfaces have a known format where they may be
brought to the host.

* `exists_on_of_rising`: the first stages add work of the path's family.
* `known_rising`, `known_frame`: surfaces have a known format.
* `textAgrees_wholeStages`: the text of all filters.
-/

namespace Playout

open Transfer VideoFilter

/-- Surfaces have a known format. -/
def Frame.Known (f : Frame) : Prop := f.memory = .hardware → f.pixelFormat.isSome = true

theorem Frame.Known.of_software {f : Frame} (h : f.memory = .software) : f.Known := by
  intro hf
  rw [h] at hf
  cases hf

namespace PathPlan

open Stage

variable {p : PathPlan} {f : Frame}

/-! ## The stages of the path's family -/

theorem exists_on_of_rising {s : Stage} (hs : s ∈ p.rising) {v : VideoFilter}
    (hv : s f = some v) : ∃ w, w.suits p.backend = true ∧ v = on p.backend f w := by
  simp only [rising, List.mem_cons, List.not_mem_nil, or_false] at hs
  obtain rfl | rfl | rfl := hs
  · unfold deinterlace? at hv
    split at hv
    · exact ⟨_, rfl, (Option.some.inj hv).symm⟩
    · cases hv
  · rw [tonemap?_eq] at hv
    split at hv
    · exact ⟨_, rfl, (Option.some.inj hv).symm⟩
    · cases hv
  · by_cases h : p.Rescales f
    · rw [scale?_of_rescales h] at hv
      exact ⟨_, rfl, (Option.some.inj hv).symm⟩
    · rw [scale?_of_not_rescales h] at hv
      split at hv
      · split at hv
        · next hc =>
          simp only [Bool.and_eq_true] at hc
          exact ⟨.convert _, hc.1.1, (Option.some.inj hv).symm⟩
        · cases hv
      · cases hv

/-- Frames in the family's memory, of a known format if they are surfaces, are left as such. -/
theorem known_advance_of_mem_rising {s : Stage} (hs : s ∈ p.rising)
    (hm : f.memory = p.backend.memory) (hk : f.Known) :
    (advance s f).memory = p.backend.memory ∧ (advance s f).Known := by
  cases hv : s f with
  | none =>
    rw [advance_none hv]
    exact ⟨hm, hk⟩
  | some v =>
    obtain ⟨w, -, rfl⟩ := exists_on_of_rising hs hv
    have hn : ((on p.backend f w).next f).memory = p.backend.memory := next_work_memory _ _ _ _
    rw [advance_some hv]
    refine ⟨hn, ?_⟩
    intro hh
    rw [next_on, moved_self _ hm, w.next_pixelFormat, Option.isSome_or,
      hk (hm.trans (hn.symm.trans hh)), Bool.or_true]

/-- After the first stages surfaces have a known format: the encoder's, if it takes them, or that
of the decoder and the filters. -/
theorem known_rising
    (hhost : p.encoder.surfaceFormat? = none → f.memory = p.backend.memory ∧ f.Known)
    (hdevice : ∀ q, p.encoder.surfaceFormat? = some q → p.backend.isHardware = true) :
    (advanceAll p.rising f).Known := by
  cases hq : p.encoder.surfaceFormat? with
  | some q =>
    intro hm
    have hw := settled_scale hq (hdevice q hq) (advance p.tonemap? (advance p.deinterlace? f)) hm
    unfold Frame.hasWire at hw
    show (advance p.scale? (advance p.tonemap? (advance p.deinterlace? f))).pixelFormat.isSome
      = true
    cases hp : (advance p.scale? (advance p.tonemap? (advance p.deinterlace? f))).pixelFormat with
    | none =>
      rw [hp] at hw
      cases hw
    | some r => rfl
  | none =>
    have hall : ∀ (stages : List Stage) {g : Frame}, (∀ s ∈ stages, s ∈ p.rising) →
        g.memory = p.backend.memory → g.Known → (advanceAll stages g).Known := by
      intro stages
      induction stages with
      | nil => exact fun _ _ hk => hk
      | cons s rest ih =>
        intro g hsub hm hk
        obtain ⟨hm', hk'⟩ := known_advance_of_mem_rising (hsub s List.mem_cons_self) hm hk
        exact ih (fun t ht => hsub t (List.mem_cons_of_mem s ht)) hm' hk'
    obtain ⟨hm, hk⟩ := hhost hq
    exact hall p.rising (fun s hs => hs) hm hk

/-- The text of the first stages' filters.  None of these brings surfaces to the host. -/
theorem textAgrees_rising (hf : f.memory = .hardware → p.backend.memory = .hardware) :
    ∀ x ∈ passages (emitted p.rising f) f, x.2.TextAgrees p.backend x.1 := by
  have hall : ∀ (stages : List Stage) (g : Frame), (∀ s ∈ stages, s ∈ p.rising) →
      (g.memory = .hardware → p.backend.memory = .hardware) →
      ∀ x ∈ passages (emitted stages g) g, x.2.TextAgrees p.backend x.1 := by
    intro stages
    induction stages with
    | nil => exact fun _ _ _ => List.forall_mem_nil _
    | cons s rest ih =>
      intro g hsub hg
      have hs := hsub s List.mem_cons_self
      refine forall_passages_emitted_cons (P := fun f v => v.TextAgrees p.backend f)
        |>.mpr ⟨?_, ih _ (fun t ht => hsub t (List.mem_cons_of_mem s ht)) ?_⟩
      · intro v hv
        obtain ⟨w, hw, rfl⟩ := exists_on_of_rising hs hv
        refine textAgrees_on (.inl rfl) hw ?_
        intro hb hh
        rw [hg hh] at hb
        cases hb
      · intro hh
        rcases p.toward_rising s hs g with hm | hm
        · exact hg (hm.symm.trans hh)
        · exact hm.symm.trans hh
  exact hall p.rising f (fun s hs => hs) hf

/-! ## Cropping and padding -/

theorem suits_padBackend (b : Backend) (size : Size) :
    (FilterWork.pad size).suits (padBackend b) = true := by
  cases b <;> rfl

theorem padBackend_cases (b : Backend) : padBackend b = b ∨ padBackend b = .software := by
  cases b
  · exact .inl rfl
  · exact .inr rfl
  · exact .inr rfl
  · exact .inl rfl

theorem textAgrees_frame (hk : f.Known) :
    ∀ v, p.frame? f = some v → v.TextAgrees p.backend f := by
  intro v hv
  unfold frame? at hv
  split at hv
  · split at hv
    · rw [← Option.some.inj hv]
      exact textAgrees_on (.inr rfl) rfl (fun _ => hk)
    · cases hv
  · split at hv
    · rw [← Option.some.inj hv]
      exact textAgrees_on (padBackend_cases _) (suits_padBackend _ _) (fun _ => hk)
    · cases hv

theorem known_frame (hk : f.Known) : (advance p.frame? f).Known := by
  rw [advance_frame]
  split
  · split
    · exact .of_software (moved_memory_software _ _)
    · exact hk
  · split
    · cases p.backend with
      | software | cuda | qsv => exact .of_software (moved_memory_software _ _)
      | vaapi =>
        intro _
        show (moved .vaapi f .hardware).pixelFormat.isSome = true
        cases hm : f.memory with
        | software =>
          rw [moved_up rfl hm]
          rfl
        | hardware =>
          rw [moved_self .vaapi hm]
          exact hk hm
    · exact hk

/-! ## The stages that move frames -/

theorem textAgrees_toEncoder : ∀ v, p.toEncoder? f = some v → v.TextAgrees p.backend f := by
  intro v hv
  unfold toEncoder? at hv
  split at hv
  · next h =>
    rw [← Option.some.inj hv]
    exact textAgrees_download (Frame.isHardware_iff.mp (Bool.and_eq_true_iff.mp h).1) _
  · cases hv

theorem textAgrees_toOverlays : ∀ v, p.toOverlays? f = some v → v.TextAgrees p.backend f := by
  intro v hv
  unfold toOverlays? at hv
  split at hv
  · next h =>
    rw [← Option.some.inj hv]
    exact textAgrees_download (Frame.isHardware_iff.mp (Bool.and_eq_true_iff.mp h).2) _
  · cases hv

theorem textAgrees_subtitles (hk : f.Known) :
    ∀ v, p.subtitles? f = some v → v.TextAgrees p.backend f := by
  intro v hv
  obtain ⟨text, -, rfl⟩ := Option.map_eq_some_iff.mp hv
  exact textAgrees_on (.inr rfl) rfl (fun _ => hk)

theorem textAgrees_finalUpload :
    ∀ v, finalUpload? p.backend p.encoder f = some v → v.TextAgrees p.backend f := by
  intro v hv
  unfold finalUpload? at hv
  split at hv
  · split at hv
    · cases hv
    · next h =>
      rw [← Option.some.inj hv]
      simp only [Bool.or_eq_true, Bool.not_eq_true', not_or, Bool.not_eq_true,
        Bool.not_eq_false] at h
      exact textAgrees_upload h.2 (Frame.isHardware_eq_false_iff.mp h.1) _
  · cases hv

/-- A stage that may bring frames to the host, and leaves no others, keeps the formats known. -/
theorem known_toEncoder (hk : f.Known) : (advance p.toEncoder? f).Known := by
  obtain ⟨q, hq⟩ := p.advance_toEncoder f
  rw [hq]
  split
  · exact .of_software rfl
  · exact hk

theorem known_toOverlays (hk : f.Known) : (advance p.toOverlays? f).Known := by
  obtain ⟨q, hq⟩ := p.advance_toOverlays f
  rw [hq]
  split
  · exact .of_software rfl
  · exact hk

/-! ## The whole path -/

/-- **The text of the main path.** -/
theorem textAgrees_wholeStages
    (hf : f.memory = .hardware → p.backend.memory = .hardware)
    (hhost : p.encoder.surfaceFormat? = none → f.memory = p.backend.memory ∧ f.Known)
    (hdevice : ∀ q, p.encoder.surfaceFormat? = some q → p.backend.isHardware = true) :
    ∀ x ∈ passages (emitted p.wholeStages f) f, x.2.TextAgrees p.backend x.1 := by
  have hstep := @forall_passages_emitted_cons fun f v => v.TextAgrees p.backend f
  have hrise := known_rising hhost hdevice
  have hframe := known_frame (p := p) hrise
  have henc := known_toEncoder (p := p) hframe
  have hover := known_toOverlays (p := p) henc
  rw [wholeStages_eq]
  refine (forall_passages_emitted_append (P := fun f v => v.TextAgrees p.backend f)).mpr
    ⟨textAgrees_rising hf, ?_⟩
  refine hstep.mpr ⟨textAgrees_frame hrise, ?_⟩
  refine hstep.mpr ⟨textAgrees_toEncoder, ?_⟩
  refine hstep.mpr ⟨textAgrees_toOverlays, ?_⟩
  refine hstep.mpr ⟨textAgrees_subtitles hover, ?_⟩
  exact hstep.mpr ⟨textAgrees_finalUpload, List.forall_mem_nil _⟩

end PathPlan

end Playout
