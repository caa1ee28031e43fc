import Playout.Graph.Layer
import Playout.Proofs.Filter.Quiet
import Playout.Proofs.Plan.Machinery

/-!
# Quiet layers

What layers write into a graph is fixed, or a number: sizes, places, and the times of fades.

* `Decimal.all_positional`: the characters of a decimal.
* `Layer.IsSettled`, and a lemma for each of the three makers of layers.
-/

namespace Playout

theorem Decimal.all_positional {P : Char → Bool} (h : digitChars.all P = true)
    (hpoint : P '.' = true) (d : Decimal) : d.positional.toList.all P = true := by
  have hzero : P '0' = true := List.all_eq_true.mp h '0' (by decide)
  have hdigits := all_toDigits h d.digits
  unfold positional
  split
  · rw [String.toList_ofList, List.all_append, hdigits]
    simp [hzero]
  · have hfilled : ∀ k, ∀ c ∈ List.replicate k '0' ++ Nat.toDigits 10 d.digits, P c = true := by
      intro k
      refine List.forall_mem_append.mpr ⟨fun c hc => ?_, List.all_eq_true.mp hdigits⟩
      rw [List.eq_of_mem_replicate hc, hzero]
    rw [String.toList_ofList, List.all_append, List.all_cons, hpoint, Bool.true_and,
      Bool.and_eq_true, List.all_eq_true, List.all_eq_true]
    exact ⟨fun c hc => hfilled _ c (List.mem_of_mem_take hc),
      fun c hc => hfilled _ c (List.mem_of_mem_drop hc)⟩

theorem settled_decimalSeconds (d : Duration) : Settled d.decimalSeconds.toList := by
  unfold Duration.decimalSeconds
  split
  · exact .of_all (Decimal.all_positional (by decide) (by decide) _)
  · decide

namespace Layer

def IsSettled (l : Layer) : Prop := ∀ x ∈ l.overlay :: l.prepare, x.IsSettled

theorem settled_overlayName (b : Backend) : Settled (overlayName b).toList := by
  cases b <;> decide

theorem isSettled_alphaCall (b : Backend) : (alphaCall b).IsSettled := by
  cases b <;> simp +decide [alphaCall, alphaFormat]

theorem isSettled_uploadCalls (b : Backend) : ∀ x ∈ uploadCalls b, x.IsSettled := by
  cases b <;> simp +decide [uploadCalls]

theorem isSettled_scaleCall (size : Size) (b : Backend) : (scaleCall size b).IsSettled := by
  cases b <;> simp +decide [scaleCall, FilterWork.scaler]

theorem isSettled_lift (b : Backend) :
    ∀ x ∈ (if b.isHardware then alphaCall b :: uploadCalls b else []), x.IsSettled := by
  split
  · exact List.forall_mem_cons.mpr ⟨isSettled_alphaCall b, isSettled_uploadCalls b⟩
  · exact List.forall_mem_nil _

theorem isSettled_pictureSubtitle (input : StreamRef) (b : Backend) (source padded : Size) :
    (pictureSubtitle input b source padded).IsSettled := by
  refine List.forall_mem_cons.mpr ⟨?_, List.forall_mem_append.mpr ⟨?_, isSettled_lift b⟩⟩
  · simp +decide [pictureSubtitle, settled_overlayName]
  · split
    · simp +decide
    · exact List.forall_mem_nil _

theorem isSettled_graphics (g : Graphics) (input : StreamRef) (b : Backend) (tenBit : Bool) :
    (graphics g input b tenBit).IsSettled := by
  refine List.forall_mem_cons.mpr ⟨?_, isSettled_lift b⟩
  cases b <;> cases tenBit <;> simp +decide [graphics, overlayName]

theorem isSettled_position {a : Anchor} {frame : Size} {h v : Float} {offset : Offset}
    {args : List Argument} (hp : a.position frame h v offset = .ok args) :
    ∀ x ∈ args, x.IsSettled := by
  unfold Anchor.position at hp
  obtain ⟨x, -, hp⟩ := bind_eq_ok_iff.mp hp
  obtain ⟨y, -, hp⟩ := bind_eq_ok_iff.mp hp
  have hright : (keyed "x" ("W-w-" ++ toString x)).IsSettled :=
    Argument.isSettled_keyed.mpr ⟨by decide, Settled.concat (by decide) (.number x)⟩
  have hbottom : (keyed "y" ("H-h-" ++ toString y)).IsSettled :=
    Argument.isSettled_keyed.mpr ⟨by decide, Settled.concat (by decide) (.number y)⟩
  rw [← Except.ok.inj hp]
  cases a <;> simp only [List.forall_mem_cons, hright, hbottom] <;> simp +decide

theorem isSettled_fadeCall (p : FadePoint) : (fadeCall p).IsSettled := by
  have hin : Settled (if p.fadeIn then "in" else "out").toList := by
    cases p.fadeIn <;> decide
  simp +decide [fadeCall, hin, settled_decimalSeconds]

theorem isSettled_watermark {w : Watermark} {input : StreamRef} {b : Backend}
    {scaled padded : Size} {l : Layer} (h : watermark w input b scaled padded = .ok l) :
    l.IsSettled := by
  unfold watermark at h
  obtain ⟨position, hposition, h⟩ := bind_eq_ok_iff.mp h
  cases h
  refine List.forall_mem_cons.mpr ⟨⟨settled_overlayName b, isSettled_position hposition⟩, ?_⟩
  simp only [List.forall_mem_append, List.forall_mem_singleton, List.forall_mem_map]
  refine ⟨⟨⟨⟨?_, isSettled_alphaCall b⟩, fun p _ => isSettled_fadeCall p⟩,
    isSettled_uploadCalls b⟩, ?_⟩
  · split
    · rw [List.forall_mem_singleton, Call.isSettled_mk, List.forall_mem_singleton,
        Argument.isSettled_keyed]
      exact ⟨by decide, by decide, Settled.concat (by decide)
        (.of_all (all_padded (by decide) 2 _))⟩
    · exact List.forall_mem_nil _
  · split
    · exact List.forall_mem_singleton.mpr (isSettled_scaleCall _ b)
    · exact List.forall_mem_nil _

end Layer

end Playout
