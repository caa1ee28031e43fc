import Playout.Proofs.Path.Shape
import Playout.Proofs.Plan.Assembly
import Playout.Proofs.Plan.Reasons

/-!
# What a pipeline completes

A pipeline, whether it copies or transcodes, ends in a picture that has the target's resolution
and needs no more work; and a transcoding deinterlaces once.

* `source_of_reasons`: a source that is copied is what is asked for.
* `Transcoding.deinterlaces_once`: decoder and filters together deinterlace once, if at all.
* `final_picture_is_desired`: the end of every assembly.
-/

namespace Playout

open VideoFilter

namespace Decoder

def deinterlacesByOption (d : Decoder) : Bool := ["-deint", "adaptive"].isSuffixOf d.options

theorem deinterlacesByOption_eq (d : Decoder) : d.deinterlacesByOption = d.deinterlaces := by
  unfold deinterlacesByOption options
  cases hd : d.deinterlaces with
  | true => simp
  | false => cases d.name? <;> simp [List.isSuffixOf, List.isPrefixOf]

end Decoder

namespace Compilation

variable {c : Compilation} {a : Assembly}

theorem desired_croppedSize (c : Compilation) (s : Size) (h : c.desired.croppedSize = some s) :
    s = c.request.target.resolution := by
  have hcut := c.request.target.scaling.sizes_cut c.request.video.stream.squareSize
    c.request.target.resolution
  have hs : (c.request.target.scaling.sizes c.request.video.stream.squareSize
      c.request.target.resolution).2 = some s := h
  rw [hs] at hcut
  exact hcut

/-! ## Copied video -/

theorem source_of_reasons (h : c.reasons c.desired = []) :
    c.initial.scaledSize = c.request.target.resolution ∧
      c.desired.scaledSize = c.request.target.resolution ∧ c.initial.anamorphic = false ∧
      c.initial.hdr = false ∧
      (c.request.target.deinterlace && c.request.video.stream.interlaced) = false := by
  have hmatches : Matches c.request.target c.request.video.stream c.request.settings
    c.request.target.allowCopy c.request.hasOverlays := matches_of_reasons h
  have hsize := videoReasons_eq_nil_iff.mp h .sizeMismatch
  simp only [TranscodeReason.holds, Bool.or_eq_false_iff, bne_eq_false_iff_eq] at hsize
  exact ⟨hmatches.size, hsize.2, hmatches.square, hmatches.range, hmatches.progressive⟩

/-! ## Transcoded video -/

/-- Frames that were decoded have no padding, and were deinterlaced only if they are to be. -/
theorem fresh_of_machinery {m : Machinery} (h : c.machinery = .ok m) :
    (c.pathPlan c.desired m).Fresh (m.decoder.next c.initial) where
  deinterlaced := by
    intro hd
    rw [Decoder.next_deinterlaced] at hd
    exact decoder_deinterlaces h hd
  paddedSize := by
    rw [Decoder.next_paddedSize, Decoder.next_scaledSize]
    rfl
  hdr := rfl
  croppedSize := c.desired_croppedSize

theorem Transcoding.fresh (t : c.Transcoding a) : t.plan.Fresh t.decoded :=
  fresh_of_machinery t.made

theorem Transcoding.done (t : c.Transcoding a) : t.plan.Done a.pipeline.final := by
  have h := PathPlan.shape_advanceAll t.fresh
  have hp := t.picture_final
  have hc : (Step.nextAll (pixelFormatSteps t.machinery.encoder t.finished) t.finished).picture =
      { t.finished.picture with pixelFormat := a.pipeline.final.pixelFormat } := by
    have hpix : a.pipeline.final.pixelFormat = (Step.nextAll
        (pixelFormatSteps t.machinery.encoder t.finished) t.finished).pixelFormat :=
      congrArg Picture.pixelFormat hp
    rw [hpix]
    unfold pixelFormatSteps
    split
    · split <;> rfl
    · rfl
  rw [hc] at hp
  exact ⟨(congrArg Picture.deinterlaced hp).trans h.deinterlaced,
    (congrArg Picture.paddedSize hp).trans h.paddedSize,
    (congrArg Picture.scaledSize hp).trans h.scaledSize,
    (congrArg Picture.anamorphic hp).trans h.anamorphic, (congrArg Picture.hdr hp).trans h.hdr⟩

/-- Frames are deinterlaced by the decoder or by one filter. -/
theorem Transcoding.deinterlaces_once (t : c.Transcoding a) :
    t.machinery.decoder.deinterlaces.toNat + a.pipeline.mainFilters.countP deinterlaces =
      (c.request.target.deinterlace && c.request.video.stream.interlaced).toNat := by
  have hw : t.plan.desired.deinterlaced =
    (c.request.target.deinterlace && c.request.video.stream.interlaced) := rfl
  have hf : t.decoded.deinterlaced = t.machinery.decoder.deinterlaces := by
    rw [decoded, Decoder.next_deinterlaced]
    exact Bool.false_or _
  rw [t.mainFilters_eq, PathPlan.countP_deinterlaces, hw, hf]
  cases hd : t.machinery.decoder.deinterlaces with
  | true => rw [decoder_deinterlaces t.made hd]; rfl
  | false => rw [Bool.not_false, Bool.and_true]; exact Nat.zero_add _

/-! ## Both ways -/

/-- **Every pipeline ends in the picture asked for.**  It has the target's resolution with its
padding, square pixels and a standard range, and it is progressive if that is asked for; without
its padding it has the size asked for, or that of the cut.  A transcoding deinterlaces once, in the
decoder or in a filter. -/
theorem final_picture_is_desired (h : c.assembled = .ok a) :
    a.pipeline.final.paddedSize = c.request.target.resolution ∧
    a.pipeline.final.scaledSize =
      (if c.desired.croppedSize.isSome then c.request.target.resolution
        else c.desired.scaledSize) ∧
    a.pipeline.final.anamorphic = false ∧
    a.pipeline.final.hdr = false ∧
    a.pipeline.final.deinterlaced =
      (c.request.target.deinterlace && c.request.video.stream.interlaced) ∧
    ∀ d, a.pipeline.decoder? = some d →
      d.deinterlacesByOption.toNat + a.pipeline.mainFilters.countP deinterlaces =
        (c.request.target.deinterlace && c.request.video.stream.interlaced).toNat := by
  rcases assembled_eq_ok h with ⟨k, hr, rfl⟩ | ht
  · obtain ⟨hs, hds, ha, hh, hd⟩ := source_of_reasons hr
    have hp := c.picture_final_copied k
    refine ⟨(congrArg Picture.paddedSize hp).trans hs, ?_,
      (congrArg Picture.anamorphic hp).trans ha, (congrArg Picture.hdr hp).trans hh,
      (congrArg Picture.deinterlaced hp).trans hd.symm, ?_⟩
    · rw [hds, ite_self]
      exact (congrArg Picture.scaledSize hp).trans hs
    · intro d hdec
      have hn : (c.copied k).decoder? = some d := hdec
      rw [decoder?_copied] at hn
      cases hn
  · obtain ⟨t⟩ := ht
    have hdone := t.done
    refine ⟨hdone.paddedSize, hdone.scaledSize, hdone.anamorphic, hdone.hdr, hdone.deinterlaced, ?_⟩
    intro d hdec
    have hd : d = t.machinery.decoder := Option.some.inj (hdec.symm.trans t.decoder?_eq)
    rw [hd, Decoder.deinterlacesByOption_eq, t.deinterlaces_once]

/-- The film is scaled to 4:3 and padded to the resolution. -/
theorem subtitledFilm_final_picture :
    ∃ a, subtitledFilm.assembled = .ok a ∧ a.pipeline.final.paddedSize = ⟨1920, 1080⟩ ∧
      a.pipeline.final.scaledSize = ⟨1440, 1080⟩ ∧ a.pipeline.final.deinterlaced = true := by
  have hr : (subtitledFilm.assembled.toOption.bind fun _ => some ()) = some () := by
    decide +kernel
  obtain ⟨a, ha, -⟩ := exists_assembled hr
  obtain ⟨hp, hs, -, -, hd, -⟩ := final_picture_is_desired ha
  refine ⟨a, ha, hp, hs.trans ?_, hd⟩
  decide +kernel

end Compilation

end Playout
