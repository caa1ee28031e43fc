import Playout.Graph.Layer
import Playout.Proofs.Plan.Machinery

/-!
# Margins of a watermark

A margin is added to the offset of the content, and both fit in 32 bits each, but not always
together.

* `Watermark.place`, `Watermark.offset`: the picture that a watermark is placed in, and where that
  picture begins.
* `Watermark.MarginsFit`: the margins fit in 32 bits with their offsets.
* `Layer.watermark_eq_error_iff`: a watermark is given up exactly if they do not.
-/

namespace Playout

theorem marginWith_eq_error_iff {margin : UInt32} {offset : Nat} {x : Failure} :
    marginWith margin offset = .error x ↔
      x = .fault .marginTooLarge ∧ ¬margin.toNat + offset < UInt32.size := by
  unfold marginWith
  split
  · next h => simp [h]
  · next h => simp [h, eq_comm]

theorem marginWith_eq_ok_iff {margin : UInt32} {offset n : Nat} :
    marginWith margin offset = .ok n ↔
      n = margin.toNat + offset ∧ margin.toNat + offset < UInt32.size := by
  unfold marginWith
  split
  · next h => simp [h, eq_comm]
  · next h => simp [h]

/-- Both margins are added up, also where the place needs one of them or none. -/
theorem Anchor.position_eq_error_iff {a : Anchor} {frame : Size} {horizontal vertical : Float}
    {offset : Offset} {x : Failure} :
    a.position frame horizontal vertical offset = .error x ↔
      x = .fault .marginTooLarge ∧
        ¬((percentOf horizontal frame.width).toNat + offset.x < UInt32.size ∧
          (percentOf vertical frame.height).toNat + offset.y < UInt32.size) := by
  have hreturn : ∀ args : List Argument, (pure args : Except Failure _) = .error x ↔ False :=
    fun _ => iff_of_false nofun id
  unfold position
  simp only [bind_eq_error_iff, marginWith_eq_error_iff, marginWith_eq_ok_iff, hreturn]
  grind

namespace Watermark

/-- The picture that the watermark is placed in: the content, or the frame with its padding. -/
def place (w : Watermark) (scaled padded : Size) : Size :=
  if w.withinContent then scaled else padded

def offset (w : Watermark) (scaled padded : Size) : Offset :=
  if w.withinContent then
    ⟨(padded.width.toNat - scaled.width.toNat) / 2, (padded.height.toNat - scaled.height.toNat) / 2⟩
  else ⟨0, 0⟩

/-- The margins, in whole pixels, fit in 32 bits with the offsets that they are added to. -/
structure MarginsFit (w : Watermark) (scaled padded : Size) : Prop where
  horizontal : (percentOf w.horizontalMargin (w.place scaled padded).width).toNat +
    (w.offset scaled padded).x < UInt32.size
  vertical : (percentOf w.verticalMargin (w.place scaled padded).height).toNat +
    (w.offset scaled padded).y < UInt32.size

/-- Beside the edges of the frame there is no offset, and each margin fits. -/
theorem marginsFit_of_frame {w : Watermark} (h : w.withinContent = false) (scaled padded : Size) :
    w.MarginsFit scaled padded := by
  refine ⟨?_, ?_⟩
  · rw [offset, h]
    exact UInt32.toNat_lt_size _
  · rw [offset, h]
    exact UInt32.toNat_lt_size _

end Watermark

theorem Layer.watermark_eq_error_iff {w : Watermark} {input : StreamRef} {b : Backend}
    {scaled padded : Size} {x : Failure} :
    Layer.watermark w input b scaled padded = .error x ↔
      x = .fault .marginTooLarge ∧ ¬w.MarginsFit scaled padded := by
  have hfit : w.MarginsFit scaled padded ↔
      (percentOf w.horizontalMargin (w.place scaled padded).width).toNat +
          (w.offset scaled padded).x < UInt32.size ∧
        (percentOf w.verticalMargin (w.place scaled padded).height).toNat +
          (w.offset scaled padded).y < UInt32.size :=
    ⟨fun h => ⟨h.horizontal, h.vertical⟩, fun h => ⟨h.1, h.2⟩⟩
  have hplaced : Layer.watermark w input b scaled padded = .error x ↔
      w.anchor.position (w.place scaled padded) w.horizontalMargin w.verticalMargin
        (w.offset scaled padded) = .error x := by
    unfold watermark
    exact bind_eq_error_iff_of_ne nofun
  rw [hplaced, Anchor.position_eq_error_iff, hfit]

end Playout
