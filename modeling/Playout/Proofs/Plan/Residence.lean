import Playout.Proofs.Path.Memory
import Playout.Proofs.Plan.Assembly

/-!
# Where the encoder gets its frames

The main path of a transcoding ends in the memory its encoder takes frames from, and does not
move them more often than that needs.

* `mainFilters_reach_encoder`: the memory at the end, and the numbers of uploads and downloads.
-/

namespace Playout

open VideoFilter

namespace Compilation

variable {c : Compilation} {a : Assembly}

namespace Transcoding

variable (t : c.Transcoding a)

theorem uploads_mainFilters :
    uploads a.pipeline.mainFilters a.pipeline.entering =
      uploads (Stage.emitted t.plan.wholeStages t.decoded) t.decoded := by
  rw [t.mainFilters_eq, uploads_congr t.picture_entering]

theorem downloads_mainFilters :
    downloads a.pipeline.mainFilters a.pipeline.entering =
      downloads (Stage.emitted t.plan.wholeStages t.decoded) t.decoded := by
  rw [t.mainFilters_eq, downloads_congr t.picture_entering]

theorem memory_nextAll_mainFilters :
    (nextAll a.pipeline.mainFilters a.pipeline.entering).memory = t.finished.memory := by
  rw [t.mainFilters_eq, finished, ← Stage.nextAll_emitted]
  exact congrArg Picture.memory (picture_nextAll_congr t.picture_entering _)

theorem host_residence (hq : t.machinery.encoder.surfaceFormat? = none) :
    uploads (Stage.emitted t.plan.wholeStages t.decoded) t.decoded = 0 ∧
      t.finished.memory = .software := by
  have hf : t.decoded.memory = t.plan.backend.memory :=
    t.memory_decoded.trans (t.coherent.host hq)
  exact PathPlan.host_path (p := t.plan) hq hf

theorem device_residence {q : PixelFormat} (hq : t.machinery.encoder.surfaceFormat? = some q) :
    downloads (Stage.emitted t.plan.wholeStages t.decoded) t.decoded ≤ 1 ∧
      t.finished.memory = .hardware :=
  PathPlan.device_path (p := t.plan) hq (t.coherent.isHardware_of_surface hq) t.decoded

end Transcoding

/-- **Frames reach the encoder where it takes them.**  An encoder that names no memory takes them
from the host.  To the host the frames never go up, and they come down once if the decoder left
them on an accelerator; to an accelerator they come down at most once before they go up for the
last time. -/
theorem mainFilters_reach_encoder (h : c.assembled = .ok a) {d : Decoder}
    (hd : a.pipeline.decoder? = some d) :
    a.pipeline.entering.memory = d.memory ∧
    (nextAll a.pipeline.mainFilters a.pipeline.entering).memory =
      a.video.memory?.getD .software ∧
    (a.video.memory? ≠ some .hardware →
      uploads a.pipeline.mainFilters a.pipeline.entering = 0 ∧
      downloads a.pipeline.mainFilters a.pipeline.entering =
        if d.memory = .hardware then 1 else 0) ∧
    (a.video.memory? = some .hardware →
      downloads a.pipeline.mainFilters a.pipeline.entering ≤ 1 ∧
      uploads a.pipeline.mainFilters a.pipeline.entering ≤ 2 ∧
      uploads a.pipeline.mainFilters a.pipeline.entering =
        downloads a.pipeline.mainFilters a.pipeline.entering +
          if d.memory = .hardware then 0 else 1) := by
  obtain ⟨t⟩ := transcoding_of_decoder h hd
  have hdec : d = t.machinery.decoder := Option.some.inj (hd.symm.trans t.decoder?_eq)
  have hmem : a.pipeline.entering.memory = d.memory := by
    rw [hdec, ← t.memory_decoded]
    exact congrArg Picture.memory t.picture_entering
  have hbalance := uploads_add_isHardware a.pipeline.mainFilters a.pipeline.entering
  rw [t.uploads_mainFilters, t.downloads_mainFilters, Frame.toNat_isHardware,
    Frame.toNat_isHardware, t.memory_nextAll_mainFilters, hmem] at hbalance
  rw [t.uploads_mainFilters, t.downloads_mainFilters, t.memory_nextAll_mainFilters, t.video_eq]
  refine ⟨hmem, ?_⟩
  cases hq : t.machinery.encoder.surfaceFormat? with
  | none =>
    have hne := VideoEncoder.surfaceFormat?_eq_none_iff.mp hq
    obtain ⟨hup, hend⟩ := t.host_residence hq
    refine ⟨?_, ?_, fun hm => absurd hm hne⟩
    · rw [hend]
      cases hm : t.machinery.encoder.memory? with
      | none => rfl
      | some m =>
        cases m with
        | software => rfl
        | hardware => exact absurd hm hne
    · intro _
      rw [hup, hend, if_neg (by decide : Memory.software ≠ .hardware)] at hbalance
      refine ⟨hup, ?_⟩
      omega
  | some q =>
    have he := (VideoEncoder.surfaceFormat?_eq_some_iff.mp hq).1
    obtain ⟨hdown, hend⟩ := t.device_residence hq
    refine ⟨?_, fun hm => absurd he hm, ?_⟩
    · rw [hend, he]
      rfl
    · intro _
      rw [hend, if_pos rfl] at hbalance
      refine ⟨hdown, ?_, ?_⟩
      · omega
      · split at hbalance
        · next hm => rw [if_pos hm]; omega
        · next hm => rw [if_neg hm]; omega

/-- The film comes down for its subtitles and goes up again. -/
theorem subtitledFilm_reaches_encoder :
    ∃ a, subtitledFilm.assembled = .ok a ∧
      (nextAll a.pipeline.mainFilters a.pipeline.entering).memory = .hardware ∧
      uploads a.pipeline.mainFilters a.pipeline.entering =
        downloads a.pipeline.mainFilters a.pipeline.entering := by
  have hr : (subtitledFilm.assembled.toOption.bind fun a =>
      a.pipeline.decoder?.bind fun d => a.video.memory?.map fun m => (d, m)) =
      some (.vaapi, .hardware) := by decide +kernel
  obtain ⟨a, ha, hr⟩ := exists_assembled hr
  obtain ⟨d, hd, hr⟩ := Option.bind_eq_some_iff.mp hr
  obtain ⟨m, hm, hr⟩ := Option.map_eq_some_iff.mp hr
  cases hr
  obtain ⟨-, hend, -, hdevice⟩ := mainFilters_reach_encoder ha hd
  rw [hm] at hend
  exact ⟨a, ha, hend, (hdevice hm).2.2⟩

end Compilation

end Playout
