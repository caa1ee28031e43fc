import Playout.Filter.Video
import Playout.Proofs.Filter.Quiet
import Playout.Proofs.Filter.Unquoting

/-!
# Escaped fields, read once

A reader that splits a text at the separators without a backslash, and takes one level of
backslashes away, gets back the fields of burned text as they were before they were escaped.

* `Spells`: what a text says to such a reader, if nothing special in it stands for itself.
* `SpelledField`: a text with the value that it spells; `SpelledField.splitUnescaped_joined`: fields
  that are joined by colons come apart again.
* `Call.splitMarked_chars`: calls that are joined by commas come apart again.
* `VideoFilter.subtitles_lossless`: burned text is read back, and no two settings look the same.
-/

namespace Playout

theorem mem_intercalate_singleton {α : Type} {x y : α} {ls : List (List α)}
    (h : y ∈ [x].intercalate ls) : y = x ∨ ∃ l ∈ ls, y ∈ l := by
  induction ls with
  | nil => cases h
  | cons l rest ih =>
    by_cases hr : rest = []
    · rw [hr, List.intercalate_singleton] at h
      exact .inr ⟨l, List.mem_cons_self, h⟩
    · rw [List.intercalate_cons_of_ne_nil hr, List.mem_append, List.mem_append,
        List.mem_singleton] at h
      rcases h with (hl | hx) | hrest
      · exact .inr ⟨l, List.mem_cons_self, hl⟩
      · exact .inl hx
      · rcases ih hrest with hx | ⟨m, hm, hy⟩
        · exact .inl hx
        · exact .inr ⟨m, List.mem_cons_of_mem l hm, hy⟩

/-! ## What a text spells -/

/-- Without one level of backslashes the text is the value; nothing special in it stands for itself,
and it has no effect on what stands behind it. -/
structure Spells (text value : List Char) : Prop where
  chars : (markEscapes text).map Marked.char = value
  bare : ∀ m ∈ markEscapes text, m.escaped = false → isSpecial m.char = false
  pending : pending text = false

namespace Spells

variable {text value text' value' : List Char}

theorem append (h : Spells text value) (h' : Spells text' value') :
    Spells (text ++ text') (value ++ value') := by
  have hmarks := markEscapes_append h.pending text'
  refine ⟨?_, ?_, (pending_append h.pending text').trans h'.pending⟩
  · rw [hmarks, List.map_append, h.chars, h'.chars]
  · rw [hmarks]
    exact List.forall_mem_append.mpr ⟨h.bare, h'.bare⟩

theorem plain (h : (text.all fun c => !isSpecial c) = true) : Spells text text := by
  have hplain : ∀ c ∈ text, isSpecial c = false := by simpa using h
  have hslash : '\x5c' ∉ text := by
    intro hm
    cases hplain _ hm
  obtain ⟨hmarks, hpending⟩ := markEscapes_eq_map hslash
  refine ⟨?_, ?_, hpending⟩
  · rw [hmarks, List.map_map]
    exact List.map_id'' (fun _ => rfl) text
  · intro m hm _
    rw [hmarks] at hm
    obtain ⟨c, hc, rfl⟩ := List.mem_map.mp hm
    exact hplain c hc

theorem digits (n : Nat) : Spells (toString n).toList (toString n).toList := by
  rw [Nat.toString_eq_ofList_toDigits, String.toList_ofList]
  exact plain (all_toDigits (by decide) n)

/-- **An escaped text spells what it was before**: just its special characters have a backslash. -/
theorem escaped (s : String) : Spells (escape s).toList s.toList := by
  have hpending := (Settled.escaped s).pending
  rw [escape, String.toList_ofList] at hpending ⊢
  have hmarks := markEscapes_escapeChars s.toList
  refine ⟨?_, ?_, hpending⟩
  · rw [hmarks, List.map_map]
    exact List.map_id'' (fun _ => rfl) _
  · intro m hm hbare
    rw [hmarks] at hm
    obtain ⟨c, -, rfl⟩ := List.mem_map.mp hm
    exact hbare

theorem not_divides (h : Spells text value) {sep : Char} (hsep : isSpecial sep = true) :
    ∀ m ∈ markEscapes text, ¬m.Divides sep := by
  rintro m hm ⟨hchar, hbare⟩
  have hplain := h.bare m hm hbare
  rw [hchar, hsep] at hplain
  cases hplain

end Spells

/-! ## Fields and calls -/

/-- Texts that are joined by a character come apart there, if none of them is divided by it or
takes it for its own. -/
theorem splitMarked_markEscapes {sep : Char} (hsep : sep ≠ '\x5c') {texts : List (List Char)}
    (hne : texts ≠ []) (hpending : ∀ t ∈ texts, pending t = false)
    (h : ∀ t ∈ texts, ∀ m ∈ markEscapes t, ¬m.Divides sep) :
    splitMarked sep (markEscapes ([sep].intercalate texts)) = texts.map markEscapes := by
  rw [markEscapes_intercalate hsep hpending]
  exact splitMarked_intercalate (by simpa using hne) (List.forall_mem_map.mpr h)

/-- A text among others, and the value that it spells. -/
structure SpelledField where
  text : String
  value : String
  spells : Spells text.toList value.toList

namespace SpelledField

section

variable (key : String) (hkey : (key.toList.all fun c => !isSpecial c) = true)

/-- A key and a value that is escaped behind it. -/
def escaped (value : String) : SpelledField where
  text := key ++ escape value
  value := key ++ value
  spells := by
    rw [String.toList_append, String.toList_append]
    exact (Spells.plain hkey).append (.escaped value)

def number (n : Nat) : SpelledField where
  text := key ++ toString n
  value := key ++ toString n
  spells := by
    rw [String.toList_append]
    exact (Spells.plain hkey).append (.digits n)

end

variable {fields : List SpelledField}

def joined (fields : List SpelledField) : String := ":".intercalate (fields.map SpelledField.text)

theorem toList_joined :
    (joined fields).toList = [':'].intercalate (fields.map fun x => x.text.toList) := by
  rw [joined, String.toList_intercalate, List.map_map]
  rfl

theorem pending_of_mem : ∀ t ∈ fields.map fun x => x.text.toList, pending t = false :=
  List.forall_mem_map.mpr fun x _ => x.spells.pending

/-- **Fields come apart as they were joined**, and each is its value again. -/
theorem splitUnescaped_joined (hne : fields ≠ []) :
    splitUnescaped ':' (joined fields) = fields.map SpelledField.value := by
  have hvalue : ∀ x : SpelledField, plainText (markEscapes x.text.toList) = x.value := fun x => by
    rw [plainText, x.spells.chars, String.ofList_toList]
  rw [splitUnescaped, toList_joined, splitMarked_markEscapes (by decide) (by simpa using hne)
    pending_of_mem (List.forall_mem_map.mpr fun x _ => x.spells.not_divides rfl), List.map_map,
    List.map_map]
  exact List.map_congr_left fun x _ => hvalue x

/-- Of all special characters just the colons between the fields stand for themselves. -/
theorem eq_colon_of_bare {m : Marked} (hm : m ∈ markEscapes (joined fields).toList)
    (hbare : m.escaped = false) (hspecial : isSpecial m.char = true) : m.char = ':' := by
  rw [toList_joined, markEscapes_intercalate (by decide) pending_of_mem] at hm
  rcases mem_intercalate_singleton hm with rfl | ⟨marks, hmarks, hm⟩
  · rfl
  · simp only [List.mem_map] at hmarks
    obtain ⟨_, ⟨x, -, rfl⟩, rfl⟩ := hmarks
    rw [x.spells.bare m hm hbare] at hspecial
    cases hspecial

theorem pending_joined : pending (joined fields).toList = false := by
  rw [toList_joined]
  refine pending_intercalate (by decide) fun t ht => pending_of_mem t (List.mem_of_getLast? ht)

end SpelledField

/-- No comma in the call divides calls, and it takes none for its own. -/
structure Call.Undivided (c : Call) : Prop where
  bare : ∀ m ∈ markEscapes c.text.toList, ¬m.Divides ','
  pending : pending c.text.toList = false

theorem Call.splitMarked_chars {calls : List Call} (hne : calls ≠ [])
    (h : ∀ c ∈ calls, c.Undivided) :
    splitMarked ',' (markEscapes (chars calls)) = calls.map fun c => markEscapes c.text.toList := by
  rw [chars_eq, splitMarked_markEscapes (by decide) (by simpa using hne)
    (List.forall_mem_map.mpr fun c hc => (h c hc).pending)
    (List.forall_mem_map.mpr fun c hc => (h c hc).bare), List.map_map]
  rfl

theorem Call.undivided_of_plain {c : Call}
    (h : (c.text.toList.all fun x => !isSpecial x) = true) : c.Undivided :=
  ⟨(Spells.plain h).not_divides rfl, (Spells.plain h).pending⟩

/-! ## Burned text -/

namespace VideoFilter

section

variable (path : String) (index : UInt32) (fonts : Option String)

def subtitleFields : List SpelledField :=
  [.escaped "subtitles=" (by decide +kernel) path, .number "si=" (by decide +kernel) index.toNat]
    ++ fonts.toList.map (.escaped "fontsdir=" (by decide +kernel))

theorem values_subtitleFields :
    (subtitleFields path index fonts).map SpelledField.value =
      subtitleOptions ("subtitles=" ++ path) index fonts := by
  cases fonts <;> rfl

theorem text_subtitlesCall :
    (FilterWork.subtitlesCall path index fonts).text =
      SpelledField.joined (subtitleFields path index fonts) := by
  apply String.toList_injective
  rw [Call.toList_text_eq (List.cons_ne_nil _ _), SpelledField.toList_joined]
  cases fonts <;>
    simp [FilterWork.subtitlesCall, subtitleFields, SpelledField.escaped, SpelledField.number,
      place, keyedNat, keyed, Argument.text, List.intercalate]

theorem splitUnescaped_subtitlesCall :
    splitUnescaped ':' (FilterWork.subtitlesCall path index fonts).text =
      subtitleOptions ("subtitles=" ++ path) index fonts := by
  rw [text_subtitlesCall, SpelledField.splitUnescaped_joined (by simp [subtitleFields]),
    values_subtitleFields]

theorem not_divides_subtitlesCall {sep : Char} (hsep : isSpecial sep = true) (hne : sep ≠ ':') :
    ∀ m ∈ markEscapes (FilterWork.subtitlesCall path index fonts).text.toList,
      ¬m.Divides sep := by
  rw [text_subtitlesCall]
  rintro m hm ⟨hchar, hbare⟩
  refine hne ?_
  rw [← hchar] at hsep ⊢
  exact SpelledField.eq_colon_of_bare hm hbare hsep

theorem undivided_subtitlesCall : (FilterWork.subtitlesCall path index fonts).Undivided := by
  refine ⟨not_divides_subtitlesCall path index fonts rfl (by decide), ?_⟩
  rw [text_subtitlesCall]
  exact SpelledField.pending_joined

/-- The calls before that of burned text: frames on an accelerator are brought down. -/
def bringDown (f : Frame) : List Call :=
  match f.memory with
  | .software => []
  | .hardware => [⟨"hwdownload", []⟩, Transfer.formatCall (f.pixelFormat.getD .nv12)]

theorem undivided_bringDown (f : Frame) : ∀ c ∈ bringDown f, c.Undivided := by
  have hformat : ∀ l : PixelLayout,
      ((Transfer.formatCall (.plain l)).text.toList.all fun x => !isSpecial x) = true := by
    intro l
    cases l <;> decide +kernel
  intro c hc
  unfold bringDown at hc
  split at hc
  · cases hc
  · rcases List.mem_cons.mp hc with rfl | hc
    · exact Call.undivided_of_plain (by decide +kernel)
    · rw [List.mem_singleton.mp hc]
      exact Call.undivided_of_plain (hformat _)

theorem calls_subtitles (f : Frame) :
    (subtitles f path index fonts).calls =
      bringDown f ++ [FilterWork.subtitlesCall path index fonts] := by
  cases hm : f.memory with
  | software =>
    have hlead : leadOf .software f = none := by
      unfold leadOf Transfer.toward?
      rw [hm]
      rfl
    rw [bringDown, hm, subtitles, on, hlead]
    rfl
  | hardware =>
    have hlead : leadOf .software f = some (.download (f.pixelFormat.getD .nv12) none) := by
      unfold leadOf Transfer.toward?
      rw [hm]
      rfl
    rw [bringDown, hm, subtitles, on, hlead]
    rfl

/-- The call of burned text stands behind the last comma without a backslash. -/
theorem lastPiece_subtitles (f : Frame) :
    (splitMarked ',' (markEscapes (subtitles f path index fonts).text.toList)).getLast? =
      some (markEscapes (FilterWork.subtitlesCall path index fonts).text.toList) := by
  have hall : ∀ c ∈ bringDown f ++ [FilterWork.subtitlesCall path index fonts], c.Undivided :=
    List.forall_mem_append.mpr ⟨undivided_bringDown f,
      List.forall_mem_singleton.mpr (undivided_subtitlesCall path index fonts)⟩
  have hchars : (subtitles f path index fonts).text.toList =
      Call.chars (bringDown f ++ [FilterWork.subtitlesCall path index fonts]) :=
    congrArg Call.chars (calls_subtitles path index fonts f)
  rw [hchars, Call.splitMarked_chars (by simp) hall, List.map_append, List.map_singleton,
    List.getLast?_concat]

end

theorem subtitleOptions_inj {path path' : String} {index index' : UInt32}
    {fonts fonts' : Option String}
    (h : subtitleOptions path index fonts = subtitleOptions path' index' fonts') :
    path = path' ∧ index = index' ∧ fonts = fonts' := by
  simp only [subtitleOptions, List.cons_append, List.nil_append, List.cons.injEq,
    String.append_right_inj] at h
  obtain ⟨hpath, hindex, hfonts⟩ := h
  refine ⟨hpath, UInt32.toNat_inj.mp (toString_inj.mp hindex), ?_⟩
  cases fonts with
  | none =>
    cases fonts' with
    | none => rfl
    | some t => cases hfonts
  | some s =>
    cases fonts' with
    | none => cases hfonts
    | some t => simpa using hfonts

/-- **Burned text is written without loss.**  Behind the calls that bring the frames down stands one
call, of which no quote, comma, semicolon or bracket stands without a backslash.  Split at the
colons that do, and with one level of backslashes taken away, it is the path, the index and the
folder with their keys; so burned text that looks the same is the same, whatever the frames are. -/
theorem subtitles_lossless (f : Frame) (path : String) (index : UInt32) (fonts : Option String) :
    (subtitles f path index fonts).calls =
        bringDown f ++ [FilterWork.subtitlesCall path index fonts] ∧
      (∀ sep ∈ ['\x27', ',', ';', '[', ']'],
        ∀ m ∈ markEscapes (FilterWork.subtitlesCall path index fonts).text.toList,
          ¬m.Divides sep) ∧
      splitUnescaped ':' (FilterWork.subtitlesCall path index fonts).text =
        subtitleOptions ("subtitles=" ++ path) index fonts ∧
      ∀ g path' index' fonts',
        (subtitles g path' index' fonts').text = (subtitles f path index fonts).text →
          path' = path ∧ index' = index ∧ fonts' = fonts := by
  refine ⟨calls_subtitles path index fonts f, ?_, splitUnescaped_subtitlesCall path index fonts, ?_⟩
  · have hseps : ∀ sep ∈ ['\x27', ',', ';', '[', ']'], isSpecial sep = true ∧ sep ≠ ':' := by
      simp [isSpecial]
    intro sep hsep
    exact not_divides_subtitlesCall path index fonts (hseps sep hsep).1 (hseps sep hsep).2
  · intro g path' index' fonts' h
    have hlast := lastPiece_subtitles path' index' fonts' g
    rw [h, lastPiece_subtitles, Option.some.injEq] at hlast
    have hoptions := splitUnescaped_subtitlesCall path' index' fonts'
    rw [splitUnescaped, ← hlast] at hoptions
    obtain ⟨hpath, hindex, hfonts⟩ :=
      subtitleOptions_inj (hoptions.symm.trans (splitUnescaped_subtitlesCall path index fonts))
    exact ⟨(String.append_right_inj _).mp hpath, hindex, hfonts⟩

/-- A backslash at the end of a field stays in its field. -/
example :
    splitUnescaped ':' (FilterWork.subtitlesCall "C:\x5c" 0 (some "[\x5c")).text =
      ["subtitles=C:\x5c", "si=0", "fontsdir=[\x5c"] := by
  decide +kernel

end VideoFilter

end Playout
