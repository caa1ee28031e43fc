import Playout.Proofs.Command.Amounts
import Playout.Proofs.Plan.Completion
import Playout.Proofs.Plan.Listed
import Playout.Proofs.Plan.Refusal
import Playout.Proofs.Plan.Wiring

/-!
# Numbers of 32 bits

Two numbers of a compilation are computed with 32 bits from numbers that nothing bounds: the margins
of a watermark with the offsets of the content, and the frames of a segment.  Where one of them does
not fit, the work is given up.

* `Pipeline.arguments_eq_error_iff`: the words of a command fail for the frames of a segment only.
* `Compilation.contentSize`: the size of the picture that layers are laid over.
* `Compilation.marginTooLarge_iff`: the pipeline is given up for the margins of a watermark.
* `Compilation.arithmetic_fails_iff`: when either of the two does not fit, and what the distances
  of keyframes are where both do.
-/

namespace Playout

/-! ## The words of a command -/

/-- Of steps that can fail in one way only, one fails exactly if there is one that does. -/
theorem mapM_eq_error_iff {α β : Type} {f : α → Except Failure β} {e : Failure}
    (h : ∀ a x, f a = .error x → x = e) {l : List α} {x : Failure} :
    l.mapM f = .error x ↔ x = e ∧ ∃ a ∈ l, f a = .error e := by
  induction l with
  | nil =>
    rw [List.mapM_nil]
    simp [pure, Except.pure]
  | cons a rest ih =>
    rw [List.mapM_cons, bind_eq_error_iff, List.exists_mem_cons_iff]
    cases ha : f a with
    | error y =>
      obtain rfl := h a y ha
      simp [eq_comm]
    | ok b =>
      simp only [Except.ok.injEq, exists_eq_left', reduceCtorEq, false_or]
      rw [bind_eq_error_iff_of_ne nofun, ih]

theorem HlsOutput.segmentFrames_eq_error_iff {h : HlsOutput} {x : Failure} :
    h.segmentFrames = .error x ↔
      x = .fault .segmentTooLong ∧ UInt32.size ≤ h.frameRate.toNat * h.segmentSeconds.toNat := by
  unfold segmentFrames
  split
  · next hlt => simp [hlt]
  · next hge => simp [Nat.le_of_not_lt hge, eq_comm]

theorem Step.outputOptions_eq_error_iff {s : Step} {x : Failure} :
    s.outputOptions = .error x ↔
      x = .fault .segmentTooLong ∧ ∃ h, s = .container (.hls h) ∧
        UInt32.size ≤ h.frameRate.toNat * h.segmentSeconds.toNat := by
  cases s with
  | container k =>
    cases k with
    | hls h =>
      have hwords : (container (.hls h)).outputOptions = .error x ↔ h.segmentFrames = .error x := by
        show h.segmentFrames.map h.arguments = .error x ↔ _
        cases h.segmentFrames <;> simp [Except.map]
      rw [hwords, HlsOutput.segmentFrames_eq_error_iff]
      simp
    | _ => simp [outputOptions, Container.arguments]
  | _ => simp [outputOptions]

theorem Pipeline.arguments_eq_error_iff {p : Pipeline} {x : Failure} :
    p.arguments = .error x ↔
      x = .fault .segmentTooLong ∧ ∃ h, .container (.hls h) ∈ p.steps ∧
        UInt32.size ≤ h.frameRate.toNat * h.segmentSeconds.toNat := by
  have hmap : p.arguments = .error x ↔ p.steps.mapM Step.outputOptions = .error x := by
    unfold arguments outputArguments
    cases p.steps.mapM Step.outputOptions <;> simp [Except.map]
  rw [hmap, mapM_eq_error_iff fun _ _ h => (Step.outputOptions_eq_error_iff.mp h).1]
  simp only [Step.outputOptions_eq_error_iff]
  grind

namespace Compilation

variable {c : Compilation} {a : Assembly}

/-! ## Margins -/

/-- The size of the picture that layers are laid over, without its padding. -/
def contentSize (c : Compilation) : Size :=
  if c.desired.croppedSize.isSome then c.request.target.resolution else c.desired.scaledSize

theorem sizes_mainPath {m : Machinery} (h : c.machinery = .ok m) :
    (c.mainPath c.desired m).frame.scaledSize = c.contentSize ∧
      (c.mainPath c.desired m).frame.paddedSize = c.request.target.resolution := by
  have hdone := PathPlan.done_stages (fresh_of_machinery h)
  rw [mainPath, MainPath.compose_eq]
  exact ⟨hdone.scaledSize, hdone.paddedSize⟩

/-- **What is transcoded fails in two ways**: for the margins of a watermark, or in the check at the
end. -/
theorem Served.run_eq_error_iff (h : c.Served) {x : Failure} :
    c.run = .error x ↔
      (x = .fault .marginTooLarge ∧ ∃ w, c.request.watermark = some w ∧
        ¬w.MarginsFit c.contentSize c.request.target.resolution) ∨
      ∃ a, c.assembled = .ok a ∧ checked a = .error x := by
  obtain ⟨hdesired, k, hk⟩ := h.accepted.prepared
  obtain ⟨d, hd⟩ := exists_decoderSelection h.decodable
  obtain ⟨e, he⟩ := exists_select_encoderChoice h.encodable
  have hm := machinery_of_selected hd he
  obtain ⟨hscaled, hpadded⟩ := sizes_mainPath hm
  rw [run, bind_eq_error_iff, assembled_of_transcoded hdesired hk h.transcodes,
    transcodedAssembly_eq_error_iff hm, transcoded_eq_error_iff, hscaled, hpadded]

theorem copied_or_served (hpast : ∀ x, c.run = .error x → x.isFault = true) :
    (c.reasons c.desired = [] ∧ ∃ k, c.run = .ok (c.copied k)) ∨ c.Served := by
  cases c.outcome with
  | copied k _ hr hrun => exact .inl ⟨hr, k, hrun⟩
  | transcoded _ h _ _ => exact .inr h
  | marginTooLarge h _ _ => exact .inr h
  | disagreement _ h _ => exact .inr h
  | invalid _ _ hrun => cases hpast _ hrun
  | undecodable _ _ _ hrun => cases hpast _ hrun
  | unencodable _ _ _ _ hrun => cases hpast _ hrun

theorem fault_of_run (hpast : ∀ x, c.run = .error x → x.isFault = true) {x : Failure}
    (hx : c.run = .error x) :
    x = .fault .marginTooLarge ∨ ∃ parts, x = .fault (.disagreement parts) := by
  rcases copied_or_served hpast with ⟨-, k, hrun⟩ | h
  · rw [hrun] at hx
    cases hx
  · rcases h.run_eq_error_iff.mp hx with ⟨rfl, -⟩ | ⟨a, -, hc⟩
    · exact .inl rfl
    · exact .inr (disagreement_of_checked hc)

/-- **The pipeline is given up for the margins of a watermark** exactly if they do not fit. -/
theorem marginTooLarge_iff (hpast : ∀ x, c.run = .error x → x.isFault = true) :
    c.run = .error (.fault .marginTooLarge) ↔
      ∃ w, c.request.watermark = some w ∧
        ¬w.MarginsFit c.contentSize c.request.target.resolution := by
  rcases copied_or_served hpast with ⟨hr, k, hrun⟩ | h
  · obtain ⟨-, hnone, -⟩ := Request.eq_none_of_hasOverlays (hasOverlays_of_reasons hr)
    simp [hrun, hnone]
  · have hchecked : ¬∃ a, c.assembled = .ok a ∧ checked a = .error (.fault .marginTooLarge) := by
      rintro ⟨a, -, hc⟩
      obtain ⟨parts, hparts⟩ := disagreement_of_checked hc
      cases hparts
    rw [h.run_eq_error_iff, or_iff_left hchecked, and_iff_right rfl]

/-! ## Segments -/

theorem keyframeRate_pos (c : Compilation) : 0 < c.keyframeRate.toNat := by
  unfold keyframeRate
  dsimp only
  cases h : (Option.filter (fun r : UInt32 => decide (0 < r.toNat)) _) with
  | none => decide
  | some rate =>
    have hrate := (Option.filter_eq_some_iff.mp h).2
    exact of_decide_eq_true hrate

theorem hls_of_container {k : Container} (h : c.container = .ok k)
    (hkind : c.request.settings.container = .hls) :
    ∃ output, k = .hls output ∧ output.segmentSeconds = c.config.segmentSeconds ∧
      output.frameRate = c.keyframeRate := by
  unfold container at h
  rw [hkind] at h
  dsimp only at h
  split at h
  · cases h
  · exact ⟨_, (Except.ok.inj h).symm, rfl, rfl⟩

theorem settings_of_hls {output : HlsOutput} (h : c.container = .ok (.hls output)) :
    c.request.settings.container = .hls := by
  unfold container at h
  split at h
  · cases h
  · cases h
  · cases h
  · cases h
  · next hkind => exact hkind

def segmentFrames (c : Compilation) : Nat := c.keyframeRate.toNat * c.config.segmentSeconds.toNat

theorem exists_hls_iff (h : c.assembled = .ok a) {P : Nat → Prop} :
    (∃ output, .container (.hls output) ∈ a.pipeline.steps ∧
      P (output.frameRate.toNat * output.segmentSeconds.toNat)) ↔
      c.request.settings.container = .hls ∧ P c.segmentFrames := by
  obtain ⟨-, k, hk⟩ := prepared_of_assembled h
  simp only [container_mem_iff h]
  constructor
  · rintro ⟨output, houtput, hp⟩
    have hkind := settings_of_hls houtput
    obtain ⟨_, he, hseconds, hrate⟩ := hls_of_container houtput hkind
    cases he
    rw [hrate, hseconds] at hp
    exact ⟨hkind, hp⟩
  · rintro ⟨hkind, hp⟩
    obtain ⟨output, rfl, hseconds, hrate⟩ := hls_of_container hk hkind
    refine ⟨output, hk, ?_⟩
    rw [hrate, hseconds]
    exact hp

/-- **What fails for a number that does not fit.**  For a compilation that is not refused: the
pipeline is given up exactly for the margins of a watermark that do not fit with the offsets of the
content; its command exactly for the frames of a segment that do not fit; and neither for any other
number.  In a command with segments the distances of keyframes, the greatest and the least, are the
frames of a segment, at a rate that is not zero. -/
theorem arithmetic_fails_iff (hpast : ∀ x, c.run = .error x → x.isFault = true) :
    (c.run = .error (.fault .marginTooLarge) ↔
      ∃ w, c.request.watermark = some w ∧
        ¬w.MarginsFit c.contentSize c.request.target.resolution) ∧
    (∀ x, c.run = .error x → x = .fault .marginTooLarge ∨
      ∃ parts, x = .fault (.disagreement parts)) ∧
    ∀ p, c.run = .ok p →
      (∀ x, p.arguments = .error x ↔ x = .fault .segmentTooLong ∧
        c.request.settings.container = .hls ∧ UInt32.size ≤ c.segmentFrames) ∧
      ∀ words, p.arguments = .ok words → c.request.settings.container = .hls →
        0 < c.keyframeRate.toNat ∧ ∀ option, option = "-g" ∨ option = "-keyint_min" →
          ∀ value, Tells words option value ↔ value = toString c.segmentFrames := by
  refine ⟨marginTooLarge_iff hpast, fun x => fault_of_run hpast, fun p hp => ?_⟩
  obtain ⟨a, ha, rfl⟩ := assembled_of_run hp
  refine ⟨fun x => ?_, fun words hwords hkind => ⟨c.keyframeRate_pos, fun option ho value => ?_⟩⟩
  · rw [Pipeline.arguments_eq_error_iff]
    exact and_congr_right fun _ => exists_hls_iff ha
  · rw [Pipeline.tells_keyframes_iff (file_not_mem ha) hwords ho]
    exact (exists_hls_iff (P := fun n => value = toString n) ha).trans (and_iff_right hkind)

/-- A film for a live playlist with segments of a length. -/
def liveFilm (seconds : UInt32) : Compilation where
  request := {
    video := ⟨"film.mkv", filmOfWidth 1920⟩
    settings := {
      container := .hls
      hls := some ⟨"live.m3u8", "live%06d.ts"⟩ } }
  capabilities := {}
  config := { segmentSeconds := seconds }

/-- With segments of four seconds each 120th frame is a keyframe. -/
theorem liveFilm_keyframes :
    ∃ p words, (liveFilm 4).run = .ok p ∧ p.arguments = .ok words ∧ Tells words "-g" "120" ∧
      Tells words "-keyint_min" "120" := by
  have hr : ((liveFilm 4).run.toOption.bind fun p => p.arguments.toOption).isSome = true := by
    decide +kernel
  obtain ⟨words, hr⟩ := Option.isSome_iff_exists.mp hr
  obtain ⟨p, hp, hwords⟩ := Option.bind_eq_some_iff.mp hr
  have hp := toOption_eq_some_iff.mp hp
  have hwords := toOption_eq_some_iff.mp hwords
  have hpast : ∀ x, (liveFilm 4).run = .error x → x.isFault = true := by
    intro x hx
    rw [hp] at hx
    cases hx
  obtain ⟨-, htells⟩ := ((arithmetic_fails_iff hpast).2.2 p hp).2 words hwords rfl
  exact ⟨p, words, hp, hwords, (htells "-g" (.inl rfl) _).mpr (by decide),
    (htells "-keyint_min" (.inr rfl) _).mpr (by decide)⟩

/-- The longest segments that can be asked for have more frames than fit in 32 bits. -/
theorem liveFilm_overflows :
    ∃ p, (liveFilm 4294967295).run = .ok p ∧ p.arguments = .error (.fault .segmentTooLong) := by
  have hr : (liveFilm 4294967295).run.toOption.bind (fun p => failure? p.arguments) =
      some (.fault .segmentTooLong) := by
    decide +kernel
  obtain ⟨p, hp, hx⟩ := Option.bind_eq_some_iff.mp hr
  exact ⟨p, toOption_eq_some_iff.mp hp, failure?_eq_some_iff.mp hx⟩

end Compilation

end Playout
