import Playout.Filter.Escape

/-!
# Splitting marked text

Pieces that are joined by a separator without a mark come apart again exactly if none of them holds
such a separator.

* `Marked.Divides`: a separator without a mark.
* `length_splitMarked`, `length_flatten_splitMarked`: the number of pieces, and what they hold.
* `splitMarked_intercalate`, `not_divides_of_length`: when pieces come apart as they were joined.
-/

namespace Playout

/-- The character is a separator that stands for itself. -/
def Marked.Divides (sep : Char) (m : Marked) : Prop := m.char = sep ∧ m.escaped = false

instance (sep : Char) (m : Marked) : Decidable (m.Divides sep) :=
  inferInstanceAs (Decidable (_ ∧ _))

def Marked.bare (c : Char) : Marked := ⟨c, false⟩

variable {sep : Char}

@[simp] theorem Marked.divides_bare {c : Char} : (bare c).Divides sep ↔ c = sep := by
  simp [Divides, bare]

theorem splitMarked_ne_nil (sep : Char) (ms : List Marked) : splitMarked sep ms ≠ [] := by
  cases ms with
  | nil => exact List.cons_ne_nil _ _
  | cons m r =>
    rw [splitMarked]
    split
    · exact List.cons_ne_nil _ _
    · split <;> exact List.cons_ne_nil _ _

theorem splitMarked_cons_of_divides {m : Marked} (h : m.Divides sep) (r : List Marked) :
    splitMarked sep (m :: r) = [] :: splitMarked sep r := by
  rw [splitMarked]
  exact if_pos h

theorem splitMarked_cons {m : Marked} (h : ¬m.Divides sep) (r : List Marked) :
    ∃ piece rest, splitMarked sep r = piece :: rest ∧
      splitMarked sep (m :: r) = (m :: piece) :: rest := by
  obtain ⟨piece, rest, hr⟩ := List.exists_cons_of_ne_nil (splitMarked_ne_nil sep r)
  refine ⟨piece, rest, hr, ?_⟩
  rw [splitMarked, hr]
  exact if_neg h

theorem splitMarked_append {a : List Marked} (ha : ∀ m ∈ a, ¬m.Divides sep) (b : List Marked) :
    splitMarked sep (a ++ .bare sep :: b) = a :: splitMarked sep b := by
  induction a with
  | nil => exact splitMarked_cons_of_divides ⟨rfl, rfl⟩ b
  | cons m r ih =>
    obtain ⟨hm, hr⟩ := List.forall_mem_cons.mp ha
    obtain ⟨piece, rest, hs, he⟩ := splitMarked_cons hm (r ++ .bare sep :: b)
    rw [ih hr] at hs
    obtain ⟨rfl, rfl⟩ := List.cons.inj hs
    exact he

theorem splitMarked_eq_singleton {a : List Marked} (ha : ∀ m ∈ a, ¬m.Divides sep) :
    splitMarked sep a = [a] := by
  induction a with
  | nil => rfl
  | cons m r ih =>
    obtain ⟨hm, hr⟩ := List.forall_mem_cons.mp ha
    obtain ⟨piece, rest, hs, he⟩ := splitMarked_cons hm r
    rw [ih hr] at hs
    obtain ⟨rfl, rfl⟩ := List.cons.inj hs
    exact he

theorem length_splitMarked (sep : Char) (ms : List Marked) :
    (splitMarked sep ms).length = ms.countP (fun m => m.Divides sep) + 1 := by
  induction ms with
  | nil => rfl
  | cons m r ih =>
    by_cases hm : m.Divides sep
    · rw [splitMarked_cons_of_divides hm, List.length_cons, ih, List.countP_cons,
        if_pos (decide_eq_true hm)]
    · obtain ⟨piece, rest, hs, he⟩ := splitMarked_cons hm r
      rw [hs, List.length_cons] at ih
      rw [he, List.length_cons, ih, List.countP_cons, if_neg (by simpa using hm), Nat.add_zero]

/-- The pieces hold everything but the separators. -/
theorem length_flatten_splitMarked (sep : Char) (ms : List Marked) :
    (splitMarked sep ms).flatten.length + (splitMarked sep ms).length = ms.length + 1 := by
  induction ms with
  | nil => rfl
  | cons m r ih =>
    by_cases hm : m.Divides sep
    · rw [splitMarked_cons_of_divides hm, List.flatten_cons, List.nil_append, List.length_cons,
        List.length_cons]
      omega
    · obtain ⟨piece, rest, hs, he⟩ := splitMarked_cons hm r
      rw [hs] at ih
      rw [he]
      simp only [List.flatten_cons, List.length_append, List.length_cons] at ih ⊢
      omega

theorem countP_intercalate {pieces : List (List Marked)} (hne : pieces ≠ []) :
    ([Marked.bare sep].intercalate pieces).countP (fun m => m.Divides sep) + 1 =
      pieces.flatten.countP (fun m => m.Divides sep) + pieces.length := by
  induction pieces with
  | nil => exact absurd rfl hne
  | cons p rest ih =>
    by_cases hr : rest = []
    · rw [hr, List.intercalate_singleton, List.flatten_singleton]
      rfl
    · have hsep : [Marked.bare sep].countP (fun m => m.Divides sep) = 1 := by
        rw [List.countP_singleton, if_pos (by simp)]
      have ih := ih hr
      rw [List.intercalate_cons_of_ne_nil hr, List.countP_append, List.countP_append,
        List.flatten_cons, List.countP_append, List.length_cons, hsep]
      omega

/-- If the number of pieces is right, no piece holds a separator. -/
theorem not_divides_of_length {pieces : List (List Marked)} (hne : pieces ≠ [])
    (h : (splitMarked sep ([Marked.bare sep].intercalate pieces)).length = pieces.length) :
    ∀ p ∈ pieces, ∀ m ∈ p, ¬m.Divides sep := by
  have hcount : ([Marked.bare sep].intercalate pieces).countP (fun m => m.Divides sep) + 1 = _ :=
    countP_intercalate hne
  rw [length_splitMarked] at h
  have hzero : pieces.flatten.countP (fun m => m.Divides sep) = 0 := by omega
  intro p hp m hm
  simpa using List.countP_eq_zero.mp hzero m (List.mem_flatten.mpr ⟨p, hp, hm⟩)

/-- **Pieces come apart as they were joined** if none of them holds a separator. -/
theorem splitMarked_intercalate {pieces : List (List Marked)} (hne : pieces ≠ [])
    (h : ∀ p ∈ pieces, ∀ m ∈ p, ¬m.Divides sep) :
    splitMarked sep ([Marked.bare sep].intercalate pieces) = pieces := by
  induction pieces with
  | nil => exact absurd rfl hne
  | cons p rest ih =>
    obtain ⟨hp, hrest⟩ := List.forall_mem_cons.mp h
    by_cases hr : rest = []
    · rw [hr, List.intercalate_singleton]
      exact splitMarked_eq_singleton hp
    · rw [List.intercalate_cons_of_ne_nil hr, List.append_assoc, List.singleton_append,
        splitMarked_append hp, ih hr hrest]

end Playout
