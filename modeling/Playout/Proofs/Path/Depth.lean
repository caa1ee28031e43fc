import Playout.Proofs.Path.Task
import Playout.Proofs.Plan.Machinery
import Playout.Proofs.Plan.States

/-!
# Ten bits along the main path

The depth of a picture is read off the layout it travels in, or off its own layout where it
travels on a surface.  A format is **deep** if both have ten bits: then it keeps ten bits however it
is moved.

* `Frame.IsDeep.bitDepth`: deep frames have ten bits.
* `Transfer.isDeep_moved`, `keepsDepth_on`, `keepsDepth_download`, `keepsDepth_upload`: moves and
  filters that name deep formats only, or none, keep frames deep.
* `PathPlan.keepsDepth_emitted`: all filters of a path to ten bits keep frames deep.
-/

namespace Playout

open Transfer VideoFilter

theorem PixelLayout.isSurface_of_bitDepth {l : PixelLayout} (h : l.bitDepth = 10) :
    l.isSurface = false := by
  cases l <;> first | rfl | cases h

namespace PixelFormat

/-- Both layouts have ten bits; in particular the format does not travel on a surface. -/
structure IsDeep (p : PixelFormat) : Prop where
  name : p.name.bitDepth = 10
  wire : p.wire.bitDepth = 10

variable {p : PixelFormat}

namespace IsDeep

theorem bitDepth (h : p.IsDeep) : p.bitDepth = 10 := by
  rw [PixelFormat.bitDepth, PixelLayout.isSurface_of_bitDepth h.wire, if_neg (by decide)]
  exact h.wire

theorem semiPlanar (h : p.IsDeep) : p.semiPlanar.IsDeep where
  name := h.name
  wire := by
    rw [PixelFormat.semiPlanar, isTenBit, h.bitDepth]
    rfl

theorem hosted (h : p.IsDeep) : p.hosted.IsDeep := by
  have hh : p.hosted = plain p.name := by
    rw [PixelFormat.hosted, hosted?, PixelLayout.isSurface_of_bitDepth h.name]
    rfl
  rw [hh]
  exact ⟨h.name, h.name⟩

end IsDeep

theorem isDeep_yuv420p10le : yuv420p10le.IsDeep := ⟨rfl, rfl⟩

theorem isDeep_plain {l : PixelLayout} (h : (plain l).bitDepth = 10) : (plain l).IsDeep := by
  have hl : l.bitDepth = 10 := by
    rw [bitDepth] at h
    split at h
    · exact h
    · exact h
  exact ⟨hl, hl⟩

end PixelFormat

open PixelFormat

namespace Frame

def IsDeep (f : Frame) : Prop := ∃ p, f.pixelFormat = some p ∧ p.IsDeep

variable {f g : Frame}

theorem IsDeep.bitDepth (h : f.IsDeep) : f.bitDepth = 10 := by
  obtain ⟨p, hp, hd⟩ := h
  rw [Frame.bitDepth, hp]
  exact hd.bitDepth

theorem IsDeep.of_picture (h : f.picture = g.picture) (hf : f.IsDeep) : g.IsDeep := by
  obtain ⟨p, hp, hd⟩ := hf
  have hfg : f.pixelFormat = g.pixelFormat := congrArg Picture.pixelFormat h
  exact ⟨p, hfg ▸ hp, hd⟩

end Frame

/-! ## Formats that are named -/

def DeepIfAny (p : Option PixelFormat) : Prop := ∀ q, p = some q → q.IsDeep

namespace DeepIfAny

variable {p : Option PixelFormat}

theorem none : DeepIfAny none := fun _ h => nomatch h

theorem some {q : PixelFormat} (h : q.IsDeep) : DeepIfAny (some q) := by
  rintro _ ⟨⟩
  exact h

theorem filter (h : DeepIfAny p) (test : PixelFormat → Bool) : DeepIfAny (p.filter test) :=
  fun q hq => h q (Option.eq_some_of_filter_eq_some hq)

theorem or {r : Option PixelFormat} (hp : DeepIfAny p) (hr : DeepIfAny r) : DeepIfAny (p.or r) := by
  cases p with
  | none => exact hr
  | some q => exact hp

end DeepIfAny

variable {f : Frame}

theorem Frame.IsDeep.hosted (hf : f.IsDeep) : DeepIfAny (f.pixelFormat.map PixelFormat.hosted) := by
  obtain ⟨p, hp, hd⟩ := hf
  rw [hp]
  exact .some hd.hosted

/-- An upload keeps the depth of the frames, or takes on that of the format it asks for. -/
theorem Transfer.isDeep_uploaded {requested : Option PixelFormat} (b : Backend) (hf : f.IsDeep)
    (hr : DeepIfAny requested) : ∃ p, uploaded b f.pixelFormat requested = some p ∧ p.IsDeep := by
  obtain ⟨p, hp, hd⟩ := hf
  obtain ⟨q, hq, hqd⟩ : ∃ q, requested.or f.pixelFormat = some q ∧ q.IsDeep := by
    cases requested with
    | none => exact ⟨p, hp, hd⟩
    | some q => exact ⟨q, rfl, hr q rfl⟩
  cases b with
  | software => exact ⟨p, hp, hd⟩
  | cuda => exact ⟨q, hq, hqd⟩
  | qsv | vaapi =>
    refine ⟨q.semiPlanar, ?_, hqd.semiPlanar⟩
    rw [uploaded, hq, Option.getD_some]

theorem Frame.IsDeep.requestedBy (hf : f.IsDeep) (b : Backend) : DeepIfAny (requestedBy b f) := by
  obtain ⟨p, hp, hd⟩ := hf
  cases b with
  | software | cuda => exact .none
  | qsv | vaapi =>
    rw [Transfer.requestedBy, hp]
    exact .some hd

theorem Transfer.isDeep_moved (hf : f.IsDeep) (b : Backend) : (moved b f b.memory).IsDeep := by
  by_cases hs : f.memory = b.memory
  · rw [moved_self b hs]
    exact hf
  rcases Frame.memory_cases hs with ⟨hb, hm, hsoft⟩ | ⟨hm, hhard⟩
  · rw [hm, moved_up hb hsoft]
    exact isDeep_uploaded b hf (hf.requestedBy b)
  · rw [hm, moved_down b hhard]
    exact hf

/-! ## Filters -/

namespace VideoFilter

/-- Work keeps frames deep if it makes nothing else of them. -/
theorem keepsDepth_on (b : Backend) (f : Frame) {w : FilterWork} (hw : DeepIfAny w.declared?) :
    (on b f w).Keeps Frame.IsDeep := by
  intro g hg
  obtain ⟨p, hp, hd⟩ := Transfer.isDeep_moved hg b
  rw [next_on]
  unfold Frame.IsDeep
  rw [w.next_pixelFormat, hp]
  cases hq : w.declared? with
  | none => exact ⟨p, rfl, hd⟩
  | some q => exact ⟨q, rfl, hw q hq⟩

theorem keepsDepth_download {target : Option PixelFormat} (hf : f.IsDeep)
    (ht : DeepIfAny target) : (download f target).Keeps Frame.IsDeep := by
  obtain ⟨p, hp, hd⟩ := hf
  intro g _
  have hn : ((download f target).next g).pixelFormat =
      some ((target.filter fun t => !t.sameWire p).getD p) := by
    unfold download
    rw [hp]
    rfl
  refine ⟨_, hn, ?_⟩
  cases hq : target.filter fun t => !t.sameWire p with
  | none => exact hd
  | some q => exact ht.filter _ q hq

theorem keepsDepth_upload (b : Backend) {requested : Option PixelFormat}
    (hr : DeepIfAny requested) : (upload b requested).Keeps Frame.IsDeep := by
  intro g hg
  show ((Transfer.upload b requested).next g).IsDeep
  unfold Transfer.next
  dsimp only
  split
  · exact isDeep_uploaded b hg hr
  · exact hg

end VideoFilter

/-! ## Stages -/

namespace PathPlan

/-- A path that is to give ten bits to an encoder of ten bits, or to one that takes any depth. -/
structure TenBit (p : PathPlan) : Prop where
  desired : ∃ q, p.desired.pixelFormat = some q ∧ q.IsDeep
  encoder : DeepIfAny p.encoder.pixelFormat?

namespace TenBit

variable {p : PathPlan} (hp : p.TenBit) {v : VideoFilter}

include hp

theorem surfaceFormat? : DeepIfAny p.encoder.surfaceFormat? :=
  fun q hq => hp.encoder q (VideoEncoder.surfaceFormat?_eq_some_iff.mp hq).2

theorem tonemapped : p.tonemapped.IsDeep := by
  obtain ⟨q, hq, hd⟩ := hp.desired
  unfold PathPlan.tonemapped
  rw [hq, Option.getD_some]
  cases p.backend with
  | software | cuda => exact hd.hosted
  | qsv | vaapi => exact hd.hosted.semiPlanar

theorem scaledFormat? : DeepIfAny p.scaledFormat? := by
  unfold PathPlan.scaledFormat?
  split
  · exact hp.surfaceFormat?
  · exact .none

theorem keepsDepth_tonemap (h : p.tonemap? f = some v) : v.Keeps Frame.IsDeep := by
  rw [tonemap?_eq] at h
  split at h
  · cases h
    exact keepsDepth_on _ _ (.some hp.tonemapped)
  · cases h

theorem keepsDepth_scale (h : p.scale? f = some v) : v.Keeps Frame.IsDeep := by
  by_cases hr : p.Rescales f
  · rw [scale?_of_rescales hr] at h
    cases h
    exact keepsDepth_on _ _ hp.scaledFormat?
  · rw [scale?_of_not_rescales hr] at h
    split at h
    · next q hq =>
      split at h
      · cases h
        exact keepsDepth_on _ _ (.some (hp.surfaceFormat? q hq))
      · cases h
    · cases h

theorem keepsDepth_toEncoder (hf : f.IsDeep) (h : p.toEncoder? f = some v) :
    v.Keeps Frame.IsDeep := by
  unfold toEncoder? at h
  split at h
  · cases h
    exact keepsDepth_download hf (hp.encoder.or hf.hosted)
  · cases h

theorem keepsDepth_finalUpload {b : Backend} (h : finalUpload? b p.encoder f = some v) :
    v.Keeps Frame.IsDeep := by
  unfold finalUpload? at h
  split at h
  · next q hq =>
    split at h
    · cases h
    · cases h
      exact keepsDepth_upload b (.some (hp.surfaceFormat? q hq))
  · cases h

/-- **Each stage of a path to ten bits keeps ten bits**, whatever its family and its sizes. -/
theorem keepsDepth_of_mem {s : Stage} (hs : s ∈ p.wholeStages) (hf : f.IsDeep)
    (h : s f = some v) : v.Keeps Frame.IsDeep := by
  rcases mem_wholeStages.mp hs with rfl | rfl | rfl | rfl | rfl | rfl | rfl | rfl
  · unfold deinterlace? at h
    split at h
    · cases h
      exact keepsDepth_on _ _ .none
    · cases h
  · exact hp.keepsDepth_tonemap h
  · exact hp.keepsDepth_scale h
  · unfold frame? at h
    split at h
    · split at h
      · cases h
        exact keepsDepth_on _ _ .none
      · cases h
    · split at h
      · cases h
        exact keepsDepth_on _ _ .none
      · cases h
  · exact hp.keepsDepth_toEncoder hf h
  · unfold toOverlays? at h
    split at h
    · cases h
      exact keepsDepth_download hf hf.hosted
    · cases h
  · obtain ⟨t, -, rfl⟩ := Option.map_eq_some_iff.mp h
    exact keepsDepth_on _ _ .none
  · exact hp.keepsDepth_finalUpload h

/-- **All filters of a path to ten bits keep frames deep.** -/
theorem keepsDepth_emitted (hf : f.IsDeep) :
    ∀ v ∈ Stage.emitted p.wholeStages f, v.Keeps Frame.IsDeep := by
  refine Stage.forall_mem_emitted_of (P := Frame.IsDeep) ?_ hf
  intro s hs g v hg hv
  have hk := hp.keepsDepth_of_mem hs hg hv
  exact ⟨hk, hk g hg⟩

end TenBit

end PathPlan

end Playout
