/-!
# Blank characters

The characters with the Unicode property White_Space, and what is cut out of a text with them:
the text without its blank ends, and the word a text starts with.
-/

namespace Playout

/-- The 25 characters with the Unicode property White_Space. -/
def isBlank (c : Char) : Bool :=
  let n := c.toNat
  (0x09 ≤ n && n ≤ 0x0d) || n == 0x20 || n == 0x85 || n == 0xa0 || n == 0x1680
    || (0x2000 ≤ n && n ≤ 0x200a) || n == 0x2028 || n == 0x2029 || n == 0x202f
    || n == 0x205f || n == 0x3000

/-- The text without the characters of `p` at its end. -/
def dropRight (p : Char → Bool) (cs : List Char) : List Char :=
  (cs.reverse.dropWhile p).reverse

def trimBlank (cs : List Char) : List Char :=
  dropRight isBlank (cs.dropWhile isBlank)

/-- The leading run of characters that are not blank. -/
def firstWord (cs : List Char) : List Char :=
  cs.takeWhile fun c => !isBlank c

theorem firstWord_not_blank (cs : List Char) : ∀ c ∈ firstWord cs, isBlank c = false := by
  induction cs with
  | nil => simp [firstWord]
  | cons c r ih =>
    by_cases h : isBlank c
    · simp [firstWord, h]
    · simp only [firstWord, List.takeWhile_cons, h] at ih ⊢
      simpa [h] using ih

/-- The pieces between the occurrences of a character, at least one. -/
def splitAt (sep : Char) : List Char → List (List Char)
  | [] => [[]]
  | c :: r =>
    if c = sep then [] :: splitAt sep r
    else match splitAt sep r with
      | [] => [[c]]
      | piece :: rest => (c :: piece) :: rest

/-- The text before and after the first occurrence of a character. -/
def splitOnce (sep : Char) : List Char → Option (List Char × List Char)
  | [] => none
  | c :: r => if c = sep then some ([], r) else (splitOnce sep r).map fun (a, b) => (c :: a, b)

theorem eq_of_splitOnce {sep : Char} {cs a b : List Char} (h : splitOnce sep cs = some (a, b)) :
    cs = a ++ sep :: b := by
  induction cs generalizing a with
  | nil => simp [splitOnce] at h
  | cons c r ih =>
    by_cases hc : c = sep
    · simp only [splitOnce, hc, if_true, Option.some.injEq, Prod.mk.injEq] at h
      obtain ⟨rfl, rfl⟩ := h
      simp [hc]
    · simp only [splitOnce, hc, if_false, Option.map_eq_some_iff, Prod.mk.injEq] at h
      obtain ⟨⟨a', b'⟩, h', rfl, rfl⟩ := h
      simp [ih h']

end Playout
