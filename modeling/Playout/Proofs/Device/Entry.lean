import Mathlib.Data.List.Basic
import Playout.Device.Listing

/-!
# Entries of a listing

A line of a codec listing is an entry if it holds six flag characters and a name, with blanks
between them.  What is read from a line is the name of its entry, and nothing if it is none.

* `ListingEntry`: the parts of an entry, and what its line is.
* `ListingLine.name?_eq_some_iff`: the name of a line is that of an entry written there.
* `ListingEntry.name_unique`: a line is the line of entries of one name only.
* `ListingLine.name?_append_return`: a carriage return at the end of a line does not matter.
-/

namespace Playout

/-- An entry, as it is written on a line of a listing. -/
structure ListingEntry where
  indent : List Char
  kind : Char
  flags : List Char
  gap : List Char
  name : List Char
  /-- What follows the name. -/
  rest : List Char
  indent_blank : ∀ c ∈ indent, isBlank c = true
  kind_mem : kind ∈ ['V', 'A', 'S']
  flags_length : flags.length = 5
  flags_mem : ∀ c ∈ flags, c = '.' ∨ 'A' ≤ c ∧ c ≤ 'Z'
  gap_ne_nil : gap ≠ []
  gap_blank : ∀ c ∈ gap, isBlank c = true
  name_ne_nil : name ≠ []
  name_not_blank : ∀ c ∈ name, isBlank c = false
  rest_blank : ∀ c ∈ rest.head?, isBlank c = true

def ListingEntry.line (e : ListingEntry) : List Char :=
  e.indent ++ e.kind :: (e.flags ++ (e.gap ++ (e.name ++ e.rest)))

namespace ListingLine

variable {line rest : List Char} {c : Char} {n : String}

theorem isKind_iff : isKind c = true ↔ c ∈ ['V', 'A', 'S'] := by
  simp [isKind, or_assoc]

theorem isFlag_iff : isFlag c = true ↔ c = '.' ∨ 'A' ≤ c ∧ c ≤ 'Z' := by
  have hcode : ∀ a b : Char, a ≤ b ↔ a.toNat ≤ b.toNat := fun _ _ => UInt32.le_iff_toNat_le
  rw [isFlag, Bool.or_eq_true, Bool.and_eq_true, decide_eq_true_eq, decide_eq_true_eq, beq_iff_eq,
    hcode, hcode, or_comm]
  rfl

theorem not_blank_of_isKind (h : isKind c = true) : isBlank c = false := by
  rw [isKind_iff] at h
  simp only [List.mem_cons, List.not_mem_nil, or_false] at h
  rcases h with rfl | rfl | rfl <;> rfl

/-! ## Cutting blanks and words -/

theorem dropWhile_blank {blanks : List Char} (h : ∀ c ∈ blanks, isBlank c = true)
    (hrest : ∀ c ∈ rest.head?, isBlank c = false) :
    (blanks ++ rest).dropWhile isBlank = rest := by
  rw [List.dropWhile_append_of_pos h]
  cases rest with
  | nil => rfl
  | cons c rest => exact List.dropWhile_cons_of_neg (by simp [hrest c rfl])

theorem firstWord_append {word : List Char} (h : ∀ c ∈ word, isBlank c = false)
    (hrest : ∀ c ∈ rest.head?, isBlank c = true) : firstWord (word ++ rest) = word := by
  rw [firstWord, List.takeWhile_append_of_pos (by simpa using h)]
  cases rest with
  | nil => exact List.append_nil word
  | cons c rest => rw [List.takeWhile_cons_of_neg (by simp [hrest c rfl]), List.append_nil]

theorem exists_blanks (cs : List Char) :
    ∃ blanks, cs = blanks ++ cs.dropWhile isBlank ∧ ∀ c ∈ blanks, isBlank c = true :=
  ⟨cs.takeWhile isBlank, List.takeWhile_append_dropWhile.symm,
    List.all_eq_true.mp List.all_takeWhile⟩

theorem exists_rest (cs : List Char) :
    ∃ rest, cs = firstWord cs ++ rest ∧ ∀ c ∈ rest.head?, isBlank c = true := by
  refine ⟨cs.dropWhile fun c => !isBlank c, List.takeWhile_append_dropWhile.symm, fun c hc => ?_⟩
  have hhead := List.head?_dropWhile_not (fun c => !isBlank c) cs
  rw [Option.mem_def.mp hc] at hhead
  simpa using hhead

/-! ## Flags and names -/

/-- **The flags of a line** are six characters behind its indentation. -/
theorem afterFlags?_eq_some_iff :
    afterFlags? line = some rest ↔ ∃ indent kind flags, line = indent ++ kind :: (flags ++ rest) ∧
      (∀ c ∈ indent, isBlank c = true) ∧ isKind kind = true ∧ flags.length = 5 ∧
      ∀ c ∈ flags, isFlag c = true := by
  constructor
  · intro h
    obtain ⟨indent, hline, hindent⟩ := exists_blanks line
    unfold afterFlags? at h
    split at h
    · next kind a b c d e behind hdrop =>
      split at h
      · next hflags =>
        rw [Bool.and_eq_true] at hflags
        obtain rfl := Option.some.inj h
        rw [hdrop] at hline
        exact ⟨indent, kind, [a, b, c, d, e], hline, hindent, hflags.1, rfl,
          List.all_eq_true.mp hflags.2⟩
      · cases h
    · cases h
  · rintro ⟨indent, kind, flags, rfl, hindent, hkind, hlength, hflags⟩
    obtain ⟨a, b, c, d, e, rfl⟩ : ∃ a b c d e, flags = [a, b, c, d, e] := by
      match flags, hlength with
      | [a, b, c, d, e], _ => exact ⟨a, b, c, d, e, rfl⟩
    have hdrop : (indent ++ kind :: ([a, b, c, d, e] ++ rest)).dropWhile isBlank =
        kind :: a :: b :: c :: d :: e :: rest :=
      dropWhile_blank hindent (by simp [not_blank_of_isKind hkind])
    rw [afterFlags?, hdrop]
    dsimp only
    rw [if_pos (by rw [hkind, List.all_eq_true.mpr hflags]; rfl)]

/-- The name of a line is the word that blanks divide from its flags. -/
theorem name?_eq_some_iff_of_flags :
    name? line = some n ↔ ∃ gap word rest, afterFlags? line = some (gap ++ (word ++ rest)) ∧
      n = String.ofList word ∧ gap ≠ [] ∧ (∀ c ∈ gap, isBlank c = true) ∧ word ≠ [] ∧
      (∀ c ∈ word, isBlank c = false) ∧ ∀ c ∈ rest.head?, isBlank c = true := by
  constructor
  · intro h
    unfold name? at h
    split at h
    · next c behind hflags =>
      dsimp only at h
      split at h
      · next hfound =>
        rw [Bool.and_eq_true, Bool.not_eq_true', List.isEmpty_eq_false_iff] at hfound
        obtain ⟨blanks, hbehind, hblanks⟩ := exists_blanks behind
        obtain ⟨rest, hword, hrest⟩ := exists_rest (behind.dropWhile isBlank)
        refine ⟨c :: blanks, _, rest, ?_, (Option.some.inj h).symm, List.cons_ne_nil _ _,
          List.forall_mem_cons.mpr ⟨hfound.1, hblanks⟩, hfound.2, firstWord_not_blank _, hrest⟩
        rw [hflags, List.cons_append, ← hword, ← hbehind]
      · cases h
    · cases h
  · rintro ⟨gap, word, rest, hflags, rfl, hgap, hblank, hne, hword, hrest⟩
    obtain ⟨c, blanks, rfl⟩ := List.exists_cons_of_ne_nil hgap
    rw [List.forall_mem_cons] at hblank
    have hhead : ∀ c ∈ (word ++ rest).head?, isBlank c = false := by
      obtain ⟨w, word, rfl⟩ := List.exists_cons_of_ne_nil hne
      intro c hc
      exact hword c (List.mem_of_mem_head? hc)
    have hfound : firstWord ((blanks ++ (word ++ rest)).dropWhile isBlank) = word := by
      rw [dropWhile_blank hblank.2 hhead, firstWord_append hword hrest]
    rw [name?, hflags, List.cons_append]
    dsimp only
    rw [hfound, if_pos (by simp [hblank.1, hne])]

/-- **What is read from a line** is the name of an entry that is written there. -/
theorem name?_eq_some_iff :
    name? line = some n ↔ ∃ e : ListingEntry, e.line = line ∧ String.ofList e.name = n := by
  rw [name?_eq_some_iff_of_flags]
  constructor
  · rintro ⟨gap, word, rest, hflags, rfl, hgap, hblank, hne, hword, hrest⟩
    obtain ⟨indent, kind, flags, rfl, hindent, hkind, hlength, hflag⟩ :=
      afterFlags?_eq_some_iff.mp hflags
    exact ⟨⟨indent, kind, flags, gap, word, rest, hindent, isKind_iff.mp hkind, hlength,
      fun c hc => isFlag_iff.mp (hflag c hc), hgap, hblank, hne, hword, hrest⟩, rfl, rfl⟩
  · rintro ⟨e, rfl, rfl⟩
    refine ⟨e.gap, e.name, e.rest, afterFlags?_eq_some_iff.mpr ?_, rfl, e.gap_ne_nil, e.gap_blank,
      e.name_ne_nil, e.name_not_blank, e.rest_blank⟩
    exact ⟨e.indent, e.kind, e.flags, rfl, e.indent_blank, isKind_iff.mpr e.kind_mem,
      e.flags_length, fun c hc => isFlag_iff.mpr (e.flags_mem c hc)⟩

theorem name?_line (e : ListingEntry) : name? e.line = some (String.ofList e.name) :=
  name?_eq_some_iff.mpr ⟨e, rfl, rfl⟩

/-- Nothing is read exactly where no entry is written. -/
theorem name?_eq_none_iff : name? line = none ↔ ∀ e : ListingEntry, e.line ≠ line := by
  rw [Option.eq_none_iff_forall_ne_some]
  constructor
  · rintro h e rfl
    exact h _ (name?_line e)
  · intro h n hn
    obtain ⟨e, he, -⟩ := name?_eq_some_iff.mp hn
    exact h e he

end ListingLine

namespace ListingEntry

theorem name_unique {e f : ListingEntry} (h : e.line = f.line) : e.name = f.name := by
  have hname := ListingLine.name?_line e
  rw [h, ListingLine.name?_line f] at hname
  exact (String.ofList_injective (Option.some.inj hname)).symm

def withBlank (e : ListingEntry) (c : Char) (hc : isBlank c = true) : ListingEntry :=
  { e with
    rest := e.rest ++ [c]
    rest_blank := by
      cases hr : e.rest with
      | nil => simpa using hc
      | cons r rest => simpa [hr] using e.rest_blank }

theorem line_withBlank (e : ListingEntry) {c : Char} (hc : isBlank c = true) :
    (e.withBlank c hc).line = e.line ++ [c] := by
  simp [line, withBlank]

theorem exists_withBlank {e : ListingEntry} {c : Char} {line : List Char} (hc : isBlank c = true)
    (h : e.line = line ++ [c]) : ∃ f : ListingEntry, f.line = line ∧ f.name = e.name := by
  rcases List.eq_nil_or_concat' e.rest with hr | ⟨rest, last, hr⟩
  · -- without a description the name is last, which is not blank
    obtain ⟨word, last, hn⟩ := (List.eq_nil_or_concat' e.name).resolve_left e.name_ne_nil
    have hline : (e.indent ++ e.kind :: (e.flags ++ (e.gap ++ word))) ++ [last] = line ++ [c] := by
      rw [← h, ListingEntry.line, hr, hn]
      simp
    obtain ⟨-, hlast⟩ := List.append_inj' hline rfl
    have hmem : c ∈ e.name := by
      rw [hn, List.singleton_inj.mp hlast]
      exact List.mem_append_right word List.mem_cons_self
    rw [e.name_not_blank c hmem] at hc
    cases hc
  · have hline : (e.indent ++ e.kind :: (e.flags ++ (e.gap ++ (e.name ++ rest)))) ++ [last] =
        line ++ [c] := by
      rw [← h, ListingEntry.line, hr]
      simp
    obtain ⟨hline, -⟩ := List.append_inj' hline rfl
    refine ⟨{ e with rest := rest, rest_blank := ?_ }, hline, rfl⟩
    intro r hhead
    cases rest with
    | nil => cases hhead
    | cons first rest => exact e.rest_blank r (by rw [hr]; exact hhead)

end ListingEntry

/-- **A carriage return at the end of a line** does not matter. -/
theorem ListingLine.name?_append_return (line : List Char) :
    name? (line ++ ['\r']) = name? line := by
  have hreturn : isBlank '\r' = true := rfl
  refine Option.ext fun n => ?_
  rw [name?_eq_some_iff, name?_eq_some_iff]
  constructor
  · rintro ⟨e, he, rfl⟩
    obtain ⟨f, hf, hname⟩ := e.exists_withBlank hreturn he
    exact ⟨f, hf, by rw [hname]⟩
  · rintro ⟨e, rfl, rfl⟩
    exact ⟨e.withBlank '\r' hreturn, e.line_withBlank hreturn, rfl⟩

end Playout
