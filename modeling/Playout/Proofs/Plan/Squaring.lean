import Playout.Proofs.Item.Oblong
import Playout.Proofs.Path.Squaring
import Playout.Proofs.Plan.Meeting
import Playout.Proofs.Plan.Wiring

/-!
# Square pixels in a pipeline

A pipeline squares the pixels of its source in one filter of the main chain, if they are not square,
and in the direction in which the sizes of its plan were computed.

* `Transcoding.anamorphic_decoded`: decoding leaves the shape of the pixels.
* `Compilation.squared_iff_oblong`: the main chain of every compilation.
-/

namespace Playout

open VideoFilter

namespace Compilation

variable {c : Compilation} {a : Assembly}

namespace Transcoding

variable (t : c.Transcoding a)

theorem anamorphic_decoded : t.decoded.anamorphic = c.request.video.stream.isAnamorphic := by
  unfold decoded Decoder.next
  split
  · rfl
  · rfl

theorem filterMap_squaring :
    t.graph.videoFilters.filterMap squaring? =
      if c.request.video.stream.isAnamorphic then [c.request.video.stream.anamorphicEdgeCase]
      else [] := by
  rw [videoFilters_graph, PathPlan.filterMap_squaring_emitted, anamorphic_decoded]
  rfl

theorem setsar_not_mem_tail : ∀ v ∈ t.graph.tail, ∀ x ∈ v.calls, x.name ≠ "setsar" :=
  fun v hv => squaring?_eq_none_iff.mp (PathPlan.squaring?_finalUpload _ _ _ v hv)

end Transcoding

/-- **Pixels are squared exactly if they are not square**, by one filter of the main chain, which
scales; and in the edge case by the height, which then is the side that the square size stretches,
and otherwise by the width. -/
theorem squared_iff_oblong (h : c.assembled = .ok a) {d : Decoder}
    (hd : a.pipeline.decoder? = some d) :
    ∃ g, a.pipeline.graphs = [g] ∧
      ((∃ v ∈ g.videoFilters, ∃ x ∈ v.calls, x.name = "setsar") ↔
        ∃ num den, c.request.video.stream.Oblong num den) ∧
      (∀ v ∈ g.tail, ∀ x ∈ v.calls, x.name ≠ "setsar") ∧
      ∀ num den, c.request.video.stream.Oblong num den →
        SquaredOnce g.videoFilters c.request.video.stream.anamorphicEdgeCase ∧
        (c.request.video.stream.anamorphicEdgeCase = true →
          c.request.video.stream.squareSize.width = c.request.video.stream.frameSize.width ∧
          c.request.video.stream.squareSize.height.toNat =
            c.request.video.stream.frameSize.height.toNat * num.toNat / den.toNat
              % UInt32.size) ∧
        (c.request.video.stream.anamorphicEdgeCase = false →
          c.request.video.stream.squareSize.height = c.request.video.stream.frameSize.height ∧
          c.request.video.stream.squareSize.width.toNat =
            c.request.video.stream.frameSize.width.toNat * num.toNat / den.toNat
              % UInt32.size) := by
  obtain ⟨t⟩ := transcoding_of_decoder h hd
  have honce : ∀ num den, c.request.video.stream.Oblong num den →
      SquaredOnce t.graph.videoFilters c.request.video.stream.anamorphicEdgeCase := by
    intro num den hob
    have hmap := t.filterMap_squaring
    rw [if_pos (VideoStream.isAnamorphic_iff.mpr ⟨num, den, hob⟩)] at hmap
    exact squaredOnce_of_filterMap hmap
  refine ⟨t.graph, t.graphs_eq, ⟨?_, ?_⟩, t.setsar_not_mem_tail, fun num den hob =>
    ⟨honce num den hob, VideoStream.squareSize_height hob, VideoStream.squareSize_width hob⟩⟩
  · rintro ⟨v, hv, x, hx, hname⟩
    refine VideoStream.isAnamorphic_iff.mp (Decidable.byContradiction fun hsquare => ?_)
    have hmap := t.filterMap_squaring
    rw [if_neg hsquare] at hmap
    exact squaring?_eq_none_iff.mp (List.filterMap_eq_nil_iff.mp hmap v hv) x hx hname
  · rintro ⟨num, den, hob⟩
    obtain ⟨before, v, after, hsplit, hv, -⟩ := honce num den hob
    rw [hsplit]
    exact ⟨v, List.mem_append_right before List.mem_cons_self, hv.exists_setsar⟩

/-- The film is interlaced, and its pixels are squared by their width after it is deinterlaced. -/
theorem subtitledFilm_squared :
    ∃ a g, subtitledFilm.assembled = .ok a ∧ a.pipeline.decoder? = some .vaapi ∧
      a.pipeline.graphs = [g] ∧ subtitledFilm.request.video.stream.Oblong 16 15 ∧
      SquaredOnce g.videoFilters false ∧
      subtitledFilm.request.video.stream.squareSize.width.toNat = 720 * 16 / 15 := by
  have hr : (subtitledFilm.assembled.toOption.bind fun a => a.pipeline.decoder?) = some .vaapi := by
    decide +kernel
  obtain ⟨a, ha, hd⟩ := exists_assembled hr
  have hob : subtitledFilm.request.video.stream.Oblong 16 15 := by
    refine ⟨⟨"16:15", rfl, "16".toList, "15".toList, ?_, ?_, ?_, ?_⟩, ?_, ?_, ?_⟩ <;>
      decide +kernel
  obtain ⟨g, hg, -, -, hsquared⟩ := squared_iff_oblong ha hd
  obtain ⟨honce, -, hwidth⟩ := hsquared 16 15 hob
  refine ⟨a, g, ha, hd, hg, hob, honce, (hwidth rfl).2.trans ?_⟩
  decide +kernel

end Compilation

end Playout
