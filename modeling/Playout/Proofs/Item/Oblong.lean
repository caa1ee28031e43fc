import Playout.Media.Stream

/-!
# Streams whose pixels are not square

* `AspectRatio.ofText?_eq_some_iff`: what a text says of the pixels: two positive numbers around
  the first colon.
* `VideoStream.Oblong`: the numbers differ; `VideoStream.isAnamorphic_iff`: only then the stream is
  anamorphic.
* `VideoStream.squareSize_height`, `VideoStream.squareSize_width`: the side that is stretched.
-/

namespace Playout

theorem splitOnce_eq_some_iff {sep : Char} {cs a b : List Char} :
    splitOnce sep cs = some (a, b) ↔ cs = a ++ sep :: b ∧ sep ∉ a := by
  induction cs generalizing a with
  | nil => simp [splitOnce]
  | cons c r ih =>
    rw [splitOnce]
    by_cases hc : c = sep
    · rw [if_pos hc, hc, Option.some.injEq, Prod.mk.injEq]
      constructor
      · rintro ⟨rfl, rfl⟩
        exact ⟨rfl, List.not_mem_nil⟩
      · rintro ⟨h, hsep⟩
        cases a with
        | nil => exact ⟨rfl, (List.cons.inj h).2⟩
        | cons x a =>
          rw [(List.cons.inj h).1] at hsep
          exact absurd List.mem_cons_self hsep
    · rw [if_neg hc, Option.map_eq_some_iff]
      constructor
      · rintro ⟨⟨x, y⟩, h, he⟩
        obtain ⟨rfl, rfl⟩ := Prod.mk.inj he
        obtain ⟨rfl, hx⟩ := ih.mp h
        rw [List.mem_cons, not_or]
        exact ⟨rfl, Ne.symm hc, hx⟩
      · rintro ⟨h, hsep⟩
        cases a with
        | nil => exact absurd (List.cons.inj h).1 hc
        | cons x a =>
          obtain ⟨rfl, hr⟩ := List.cons.inj h
          rw [List.mem_cons, not_or] at hsep
          exact ⟨(a, b), ih.mpr ⟨hr, hsep.2⟩, rfl⟩

namespace AspectRatio

/-- Two numbers around the first colon, each with blanks on either side. -/
def Reads (text : String) (num den : UInt32) : Prop :=
  ∃ left right, text.toList = left ++ ':' :: right ∧ ':' ∉ left ∧
    parseUInt32? (trimBlank left) = some num ∧ parseUInt32? (trimBlank right) = some den

theorem ofText?_eq_some_iff {text : String} {r : AspectRatio} :
    ofText? text = some r ↔ Reads text r.num r.den ∧ 0 < r.num.toNat ∧ 0 < r.den.toNat := by
  have hpos : ∀ n : UInt32, 0 < n.toNat ↔ n ≠ 0 := by
    intro n
    rw [Nat.pos_iff_ne_zero, ne_eq, ne_eq, ← UInt32.toNat_inj]
    rfl
  rw [hpos, hpos]
  unfold ofText?
  constructor
  · intro h
    obtain ⟨⟨left, right⟩, hsplit, h⟩ := Option.bind_eq_some_iff.mp h
    obtain ⟨num, hnum, h⟩ := Option.bind_eq_some_iff.mp h
    obtain ⟨den, hden, h⟩ := Option.bind_eq_some_iff.mp h
    obtain ⟨htext, hcolon⟩ := splitOnce_eq_some_iff.mp hsplit
    split at h
    · cases h
    · next hzero =>
      obtain ⟨hn, hd⟩ := not_or.mp hzero
      cases h
      exact ⟨⟨left, right, htext, hcolon, hnum, hden⟩, hn, hd⟩
  · rintro ⟨⟨left, right, htext, hcolon, hnum, hden⟩, hn, hd⟩
    refine Option.bind_eq_some_iff.mpr ⟨(left, right),
      splitOnce_eq_some_iff.mpr ⟨htext, hcolon⟩, ?_⟩
    refine Option.bind_eq_some_iff.mpr ⟨r.num, hnum, ?_⟩
    refine Option.bind_eq_some_iff.mpr ⟨r.den, hden, ?_⟩
    rw [if_neg (not_or.mpr ⟨hn, hd⟩)]

theorem toNat_stretch (r : AspectRatio) (side : UInt32) :
    (r.stretch side).toNat = side.toNat * r.num.toNat / r.den.toNat % UInt32.size :=
  UInt32.toNat_ofNat'

end AspectRatio

namespace VideoStream

variable {s : VideoStream} {num den : UInt32}

/-- The sample aspect ratio of the stream is one of two positive numbers that differ. -/
def Oblong (s : VideoStream) (num den : UInt32) : Prop :=
  (∃ text, s.sampleAspectRatio = some text ∧ AspectRatio.Reads text num den) ∧
    0 < num.toNat ∧ 0 < den.toNat ∧ num ≠ den

theorem aspectRatio_of_oblong (h : s.Oblong num den) : s.aspectRatio = some ⟨num, den⟩ := by
  obtain ⟨⟨text, ht, hreads⟩, hn, hd, -⟩ := h
  exact Option.bind_eq_some_iff.mpr
    ⟨text, ht, AspectRatio.ofText?_eq_some_iff.mpr ⟨hreads, hn, hd⟩⟩

theorem isSquare_of_oblong (h : s.Oblong num den) :
    (⟨num, den⟩ : AspectRatio).isSquare = false :=
  beq_eq_false_iff_ne.mpr h.2.2.2

/-- **A stream is anamorphic if its ratio is one of two numbers that differ.** -/
theorem isAnamorphic_iff : s.isAnamorphic = true ↔ ∃ num den, s.Oblong num den := by
  constructor
  · intro h
    unfold isAnamorphic at h
    cases hr : s.aspectRatio with
    | none =>
      rw [hr] at h
      cases h
    | some r =>
      rw [hr] at h
      have hne : r.num ≠ r.den := by
        simpa [AspectRatio.isSquare] using h
      obtain ⟨text, ht, hreads⟩ := Option.bind_eq_some_iff.mp hr
      obtain ⟨hreads, hn, hd⟩ := AspectRatio.ofText?_eq_some_iff.mp hreads
      exact ⟨r.num, r.den, ⟨text, ht, hreads⟩, hn, hd, hne⟩
  · rintro ⟨num, den, h⟩
    unfold isAnamorphic
    rw [aspectRatio_of_oblong h]
    dsimp only
    rw [isSquare_of_oblong h]
    rfl

theorem squareSize_height (h : s.Oblong num den) (hedge : s.anamorphicEdgeCase = true) :
    s.squareSize.width = s.frameSize.width ∧
      s.squareSize.height.toNat =
        s.frameSize.height.toNat * num.toNat / den.toNat % UInt32.size := by
  unfold squareSize
  rw [aspectRatio_of_oblong h]
  dsimp only
  rw [if_neg (by rw [isSquare_of_oblong h]; decide), if_pos hedge]
  exact ⟨rfl, AspectRatio.toNat_stretch _ _⟩

theorem squareSize_width (h : s.Oblong num den) (hedge : s.anamorphicEdgeCase = false) :
    s.squareSize.height = s.frameSize.height ∧
      s.squareSize.width.toNat =
        s.frameSize.width.toNat * num.toNat / den.toNat % UInt32.size := by
  unfold squareSize
  rw [aspectRatio_of_oblong h]
  dsimp only
  rw [if_neg (by rw [isSquare_of_oblong h]; decide), if_neg (by rw [hedge]; decide)]
  exact ⟨rfl, AspectRatio.toNat_stretch _ _⟩

end VideoStream

end Playout
