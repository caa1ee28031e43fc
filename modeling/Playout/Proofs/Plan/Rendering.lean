import Playout.Proofs.Path.Rendering
import Playout.Proofs.Plan.Assembly

/-!
# The text of a transcoding's filters

The filters of a transcoding are given to ffmpeg as text, while the frames after them are
computed; both say the same.

* `mainFilters_textAgree`: the text of every filter of the main frames.
-/

namespace Playout

open VideoFilter

namespace VideoFilter.TextAgrees

theorem congr {b : Backend} {v : VideoFilter} {f g : Frame} (h : f.picture = g.picture)
    (hv : v.TextAgrees b f) : v.TextAgrees b g := by
  have hn := v.picture_next_congr h
  have hm : f.memory = g.memory := congrArg Picture.memory h
  have hp : f.pixelFormat = g.pixelFormat := congrArg Picture.pixelFormat h
  have hnm : (v.next f).memory = (v.next g).memory := congrArg Picture.memory hn
  have hnp : (v.next f).pixelFormat = (v.next g).pixelFormat := congrArg Picture.pixelFormat hn
  obtain ⟨hdownload, hupload, hdevice, hhost, hcalled, hformat, hunchanged⟩ := hv
  rw [hm, hnm] at hdownload hupload
  rw [hnm] at hdevice hhost hcalled
  rw [hnp] at hformat hunchanged
  rw [hp] at hunchanged
  exact ⟨hdownload, hupload, hdevice, hhost, hcalled, hformat, hunchanged⟩

end VideoFilter.TextAgrees

namespace Compilation

variable {c : Compilation} {a : Assembly}

namespace Transcoding

variable (t : c.Transcoding a)

/-- A decoder that leaves frames on an accelerator says in which format. -/
theorem known_decoded : t.decoded.Known := by
  intro hm
  have hd : t.machinery.decoder.isHardware = true := by
    rw [t.memory_decoded] at hm
    cases hd : t.machinery.decoder.isHardware with
    | true => rfl
    | false =>
      rw [Decoder.memory_eq_software hd] at hm
      cases hm
  show (t.machinery.decoder.next c.initial).pixelFormat.isSome = true
  rw [Decoder.next_pixelFormat, if_pos hd]
  rfl

theorem memory_backend_of_decoded (hm : t.decoded.memory = .hardware) :
    t.machinery.backend.memory = .hardware := by
  cases hq : t.machinery.encoder.surfaceFormat? with
  | none => rw [← t.coherent.host hq, ← t.memory_decoded, hm]
  | some q => exact Backend.memory_eq_hardware_iff.mpr (t.coherent.isHardware_of_surface hq)

theorem textAgrees_decoded :
    ∀ x ∈ passages (Stage.emitted t.plan.wholeStages t.decoded) t.decoded,
      x.2.TextAgrees t.machinery.backend x.1 :=
  PathPlan.textAgrees_wholeStages (p := t.plan) t.memory_backend_of_decoded
    (fun hq => ⟨t.memory_decoded.trans (t.coherent.host hq), t.known_decoded⟩)
    (fun _ hq => t.coherent.isHardware_of_surface hq)

end Transcoding

/-- **The text of a filter and what it does agree**, for all filters that the main frames pass,
each with the frames it gets.  The family is that of the target's accelerator, if one of decoder
and encoder is on it. -/
theorem mainFilters_textAgree (h : c.assembled = .ok a) {d : Decoder}
    (hd : a.pipeline.decoder? = some d) :
    ∀ x ∈ passages a.pipeline.mainFilters a.pipeline.entering,
      x.2.TextAgrees
        (.ofPipeline c.request.target.accelerator d.isHardware a.video.isHardware) x.1 := by
  obtain ⟨t⟩ := transcoding_of_decoder h hd
  have hdec : d = t.machinery.decoder := Option.some.inj (hd.symm.trans t.decoder?_eq)
  obtain ⟨-, -, hb⟩ := machinery_eq_ok t.made
  rw [hdec, t.video_eq, ← hb, t.mainFilters_eq]
  refine forall_passages_congr (P := fun f v => v.TextAgrees t.machinery.backend f)
    (fun _ _ _ hfg hv => hv.congr hfg) t.picture_entering.symm _ ?_
  exact t.textAgrees_decoded

/-- The film is filtered by VAAPI, comes down with its first filter on the host, and goes up by
itself. -/
theorem subtitledFilm_textAgree :
    ∃ a, subtitledFilm.assembled = .ok a ∧ a.pipeline.mainFilters ≠ [] ∧
      ∀ x ∈ passages a.pipeline.mainFilters a.pipeline.entering, x.2.TextAgrees .vaapi x.1 := by
  have hr : (subtitledFilm.assembled.toOption.bind fun a =>
      a.pipeline.decoder?.map fun d =>
        (d, a.video.isHardware, a.pipeline.mainFilters.isEmpty)) =
      some (.vaapi, true, false) := by decide +kernel
  obtain ⟨a, ha, hr⟩ := exists_assembled hr
  obtain ⟨d, hd, hr⟩ := Option.map_eq_some_iff.mp hr
  simp only [Prod.mk.injEq] at hr
  obtain ⟨rfl, hv, hne⟩ := hr
  have hall := mainFilters_textAgree ha hd
  rw [hv] at hall
  refine ⟨a, ha, ?_, hall⟩
  intro he
  rw [he] at hne
  cases hne

end Compilation

end Playout
