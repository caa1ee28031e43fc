import Playout.Filter.Video
import Playout.Proofs.Filter.Reading
import Playout.Proofs.Filter.Splitting
import Mathlib.Data.List.Forall2

/-!
# Subtitle arguments, read twice

ffmpeg cuts the arguments of a filter out of the graph, and splits what it has cut into options;
each time it takes away backslashes and quotes.  One backslash before a special character is enough
for the first reading only.

* `unquote`: the characters of a text as ffmpeg reads them; `cutOut` and `splitOptions` are the two
  readings.
* `unquote_escapeChars`: the first reading leaves an escaped text as it was before.
* `splitOptions_intercalate_iff`: what the second reading leaves alone.
* `Reads`: a text that is cut out whole, and the value that is cut out.
* `VideoFilter.subtitles_read_twice`: the path and the folder of burned text, read twice.
-/

namespace Playout

/-- The characters of a text, from inside of quotes or from outside.  Those that follow a backslash,
or stand in single quotes, are marked; a backslash at the very end stands for itself. -/
def unquote : Bool → List Char → List Marked
  | _, [] => []
  | true, c :: r => if c = '\x27' then unquote false r else ⟨c, true⟩ :: unquote true r
  | false, [c] => if c = '\x27' then [] else [.bare c]
  | false, c :: d :: r =>
    if c = '\x5c' then ⟨d, true⟩ :: unquote false r
    else if c = '\x27' then unquote true (d :: r)
    else .bare c :: unquote false (d :: r)

/-- What ends the arguments of a filter in a graph. -/
def endsArguments (c : Char) : Bool := c == '[' || c == ']' || c == ',' || c == ';'

def Marked.ends (m : Marked) : Bool := endsArguments m.char && !m.escaped

/-- The arguments that a text starts with, and what follows them. -/
def cutOut (cs : List Char) : List Marked × List Marked :=
  ((unquote false cs).takeWhile fun m => !m.ends, (unquote false cs).dropWhile fun m => !m.ends)

def splitOptions (cs : List Char) : List (List Char) :=
  (splitMarked ':' (unquote false cs)).map fun piece => piece.map Marked.char

/-! ## One reading -/

def isOrdinary (c : Char) : Bool := c != '\x5c' && c != '\x27'

theorem unquote_cons {c : Char} (hc : isOrdinary c = true) (r : List Char) :
    unquote false (c :: r) = .bare c :: unquote false r := by
  obtain ⟨hslash, hquote⟩ : c ≠ '\x5c' ∧ c ≠ '\x27' := by simpa [isOrdinary] using hc
  cases r with
  | nil => exact if_neg hquote
  | cons d r => rw [unquote, if_neg hslash, if_neg hquote]

theorem unquote_append {cs : List Char} (hc : cs.all isOrdinary = true) (rest : List Char) :
    unquote false (cs ++ rest) = cs.map .bare ++ unquote false rest := by
  induction cs with
  | nil => rfl
  | cons c r ih =>
    rw [List.all_cons, Bool.and_eq_true] at hc
    rw [List.cons_append, unquote_cons hc.1, ih hc.2]
    rfl

/-- **One reading leaves an escaped text as it was before**, whatever follows it. -/
theorem unquote_escapeChars (cs rest : List Char) :
    unquote false (escapeChars cs ++ rest) =
      (cs.map fun c => ⟨c, isSpecial c⟩) ++ unquote false rest := by
  induction cs with
  | nil => rfl
  | cons c r ih =>
    cases hc : isSpecial c with
    | true =>
      rw [escapeChars_cons_of_special hc, List.cons_append, List.cons_append, unquote, if_pos rfl,
        ih, List.map_cons, hc]
      rfl
    | false =>
      have hord : isOrdinary c = true := by
        simp only [isSpecial, Bool.or_eq_false_iff] at hc
        simp [isOrdinary, bne, hc]
      rw [escapeChars_cons hc, List.cons_append, unquote_cons hord, ih, List.map_cons, hc]
      rfl

theorem length_unquote_le (quoted : Bool) (cs : List Char) :
    (unquote quoted cs).length ≤ cs.length := by
  fun_induction unquote quoted cs <;> simp only [List.length_cons, List.length_nil] at * <;> omega

/-- A text that loses no character stands for itself: it has no quote, and no backslash but at the
very end. -/
theorem unquote_of_length {cs : List Char} (h : (unquote false cs).length = cs.length) :
    '\x27' ∉ cs ∧ '\x5c' ∉ cs.dropLast := by
  induction cs with
  | nil => simp
  | cons c r ih =>
    cases r with
    | nil =>
      rw [unquote] at h
      split at h
      · cases h
      · next hquote => simpa using Ne.symm hquote
    | cons d r =>
      rw [unquote] at h
      split at h
      · have hle := length_unquote_le false r
        simp only [List.length_cons] at h
        omega
      · next hslash =>
        split at h
        · have hle := length_unquote_le true (d :: r)
          simp only [List.length_cons] at h hle
          omega
        · next hquote =>
          obtain ⟨hq, hs⟩ := ih (Nat.succ.inj h)
          rw [List.dropLast_cons_cons, List.mem_cons, not_or, List.mem_cons (a := '\x5c'), not_or]
          exact ⟨⟨Ne.symm hquote, hq⟩, Ne.symm hslash, hs⟩

theorem unquote_eq_map {cs : List Char} (hquote : '\x27' ∉ cs) (hslash : '\x5c' ∉ cs.dropLast) :
    unquote false cs = cs.map .bare := by
  induction cs with
  | nil => rfl
  | cons c r ih =>
    rw [List.mem_cons, not_or] at hquote
    cases r with
    | nil =>
      rw [unquote, if_neg (Ne.symm hquote.1)]
      rfl
    | cons d r =>
      rw [List.dropLast_cons_cons, List.mem_cons, not_or] at hslash
      rw [unquote, if_neg (Ne.symm hslash.1), if_neg (Ne.symm hquote.1), ih hquote.2 hslash.2]
      rfl

/-! ## The second reading -/

theorem length_intercalate (sep : Char) {fields : List (List Char)} (hne : fields ≠ []) :
    ([sep].intercalate fields).length + 1 = fields.flatten.length + fields.length := by
  induction fields with
  | nil => exact absurd rfl hne
  | cons f rest ih =>
    by_cases hr : rest = []
    · rw [hr, List.intercalate_singleton, List.flatten_singleton]
      rfl
    · have ih := ih hr
      rw [List.intercalate_cons_of_ne_nil hr]
      simp only [List.length_append, List.length_cons, List.length_nil, List.flatten_cons]
      omega

theorem map_intercalate {α β : Type} (f : α → β) (sep : List α) (ls : List (List α)) :
    (sep.intercalate ls).map f = (sep.map f).intercalate (ls.map (List.map f)) := by
  induction ls with
  | nil => rfl
  | cons l rest ih =>
    by_cases hr : rest = []
    · rw [hr, List.intercalate_singleton, List.map_singleton, List.intercalate_singleton]
    · rw [List.intercalate_cons_of_ne_nil hr, List.map_append, List.map_append, ih, List.map_cons,
        List.intercalate_cons_of_ne_nil (by simpa using hr)]

/-- **Fields that are joined by colons are read again** exactly if no field has a colon or a quote,
and none but the last a backslash, which then is its last character. -/
theorem splitOptions_intercalate_iff {fields : List (List Char)} (hne : fields ≠ []) :
    splitOptions ([':'].intercalate fields) = fields ↔
      (∀ f ∈ fields, ':' ∉ f) ∧ '\x27' ∉ [':'].intercalate fields ∧
        '\x5c' ∉ ([':'].intercalate fields).dropLast := by
  have hbare : ([':'].intercalate fields).map Marked.bare =
      [.bare ':'].intercalate (fields.map (List.map .bare)) := map_intercalate _ _ _
  have hne' : fields.map (List.map Marked.bare) ≠ [] := by simpa using hne
  have hback : (fields.map (List.map Marked.bare)).map (fun piece => piece.map Marked.char) =
      fields := by
    rw [List.map_map]
    refine List.map_id'' (fun f => ?_) fields
    rw [Function.comp_apply, List.map_map]
    exact List.map_id'' (fun _ => rfl) f
  constructor
  · intro h
    -- nothing but separators may get lost, so the reading drops no character
    have hpieces := congrArg List.length h
    have hflat := congrArg (fun l => (List.flatten l).length) h
    have hsplit := length_flatten_splitMarked ':' (unquote false ([':'].intercalate fields))
    have hjoin := length_intercalate ':' hne
    rw [splitOptions, List.length_map] at hpieces
    simp only [splitOptions, ← List.map_flatten, List.length_map] at hflat
    have hlength : (unquote false ([':'].intercalate fields)).length =
        ([':'].intercalate fields).length := by omega
    have hkept := unquote_of_length hlength
    refine ⟨?_, hkept⟩
    rw [unquote_eq_map hkept.1 hkept.2, hbare] at hpieces
    have hnone := not_divides_of_length hne' (by rw [hpieces, List.length_map])
    intro f hf hcolon
    exact hnone _ (List.mem_map_of_mem hf) _ (List.mem_map_of_mem hcolon)
      (Marked.divides_bare.mpr rfl)
  · rintro ⟨hcolon, hquote, hslash⟩
    rw [splitOptions, unquote_eq_map hquote hslash, hbare, splitMarked_intercalate hne', hback]
    intro p hp m hm
    obtain ⟨f, hf, rfl⟩ := List.mem_map.mp hp
    obtain ⟨c, hc, rfl⟩ := List.mem_map.mp hm
    rw [Marked.divides_bare]
    rintro rfl
    exact hcolon f hf hc

/-! ## Burned text -/

/-- One reading takes the text as the value, whatever follows it, and nothing in the text ends the
arguments of a filter. -/
def Reads (text value : List Char) : Prop :=
  ∀ rest, ∃ ms : List Marked, unquote false (text ++ rest) = ms ++ unquote false rest ∧
    ms.map Marked.char = value ∧ ∀ m ∈ ms, m.ends = false

namespace Reads

variable {text value text' value' : List Char}

theorem append (h : Reads text value) (h' : Reads text' value') :
    Reads (text ++ text') (value ++ value') := by
  intro rest
  obtain ⟨ms, hread, hvalue, hends⟩ := h (text' ++ rest)
  obtain ⟨ms', hread', hvalue', hends'⟩ := h' rest
  refine ⟨ms ++ ms', ?_, by rw [List.map_append, hvalue, hvalue'], ?_⟩
  · rw [List.append_assoc, hread, hread', List.append_assoc]
  · intro m hm
    exact (List.mem_append.mp hm).elim (hends m) (hends' m)

theorem plain (h : (text.all fun c => isOrdinary c && !endsArguments c) = true) :
    Reads text text := by
  have hplain : ∀ c ∈ text, isOrdinary c = true ∧ endsArguments c = false := by simpa using h
  intro rest
  refine ⟨text.map .bare,
    unquote_append (List.all_eq_true.mpr fun c hc => (hplain c hc).1) rest, ?_, ?_⟩
  · rw [List.map_map]
    exact List.map_id'' (fun _ => rfl) text
  · intro m hm
    obtain ⟨c, hc, rfl⟩ := List.mem_map.mp hm
    simp [Marked.ends, Marked.bare, (hplain c hc).2]

theorem digits (n : Nat) : Reads (toString n).toList (toString n).toList := by
  rw [Nat.toString_eq_ofList_toDigits, String.toList_ofList]
  exact plain (all_toDigits (by decide) n)

theorem escaped (s : String) : Reads (escape s).toList s.toList := by
  intro rest
  rw [escape, String.toList_ofList]
  refine ⟨_, unquote_escapeChars s.toList rest, ?_, ?_⟩
  · rw [List.map_map]
    exact List.map_id'' (fun _ => rfl) _
  · intro m hm
    obtain ⟨c, -, rfl⟩ := List.mem_map.mp hm
    cases hc : isSpecial c with
    | true => exact Bool.and_false _
    | false =>
      simp only [isSpecial, Bool.or_eq_false_iff] at hc
      simp [Marked.ends, endsArguments, hc]

theorem keyed {text value : String} (key : String)
    (hkey : ((key ++ "=").toList.all fun c => isOrdinary c && !endsArguments c) = true)
    (h : Reads text.toList value.toList) :
    Reads (Playout.keyed key text).text.toList (key ++ "=" ++ value).toList := by
  have htext : (Playout.keyed key text).text = key ++ "=" ++ text := rfl
  rw [htext, String.toList_append, String.toList_append (t := value)]
  exact (plain hkey).append h

theorem intercalate {texts values : List (List Char)} (h : List.Forall₂ Reads texts values) :
    Reads ([':'].intercalate texts) ([':'].intercalate values) := by
  induction h with
  | nil => exact plain rfl
  | @cons text value texts values hfield hfields ih =>
    cases hfields with
    | nil =>
      rw [List.intercalate_singleton, List.intercalate_singleton]
      exact hfield
    | cons =>
      rw [List.intercalate_cons_of_ne_nil (List.cons_ne_nil _ _),
        List.intercalate_cons_of_ne_nil (List.cons_ne_nil _ _)]
      exact (hfield.append (plain (by decide))).append ih

/-- Such a text is cut out whole in front of anything that ends the arguments. -/
theorem cutOut_eq (h : Reads text value) {rest : List Char}
    (hrest : ∀ c ∈ rest.head?, endsArguments c = true) :
    ∃ ms, cutOut (text ++ rest) = (ms, unquote false rest) ∧ ms.map Marked.char = value := by
  obtain ⟨ms, hread, hvalue, hends⟩ := h rest
  refine ⟨ms, ?_, hvalue⟩
  have hgo : ∀ m ∈ ms, (!m.ends) = true := fun m hm => by rw [hends m hm]; rfl
  have hstop : (unquote false rest).takeWhile (fun m => !m.ends) = [] ∧
      (unquote false rest).dropWhile (fun m => !m.ends) = unquote false rest := by
    cases rest with
    | nil => exact ⟨rfl, rfl⟩
    | cons c r =>
      have hc := hrest c rfl
      have hord : isOrdinary c = true := by
        simp only [endsArguments, Bool.or_eq_true, beq_iff_eq] at hc
        rcases hc with ((rfl | rfl) | rfl) | rfl <;> rfl
      have hstays : ¬(!(Marked.bare c).ends) = true := by simp [Marked.ends, Marked.bare, hc]
      rw [unquote_cons hord]
      exact ⟨List.takeWhile_cons_of_neg hstays, List.dropWhile_cons_of_neg hstays⟩
  rw [cutOut, hread, List.takeWhile_append_of_pos hgo, List.dropWhile_append_of_pos hgo, hstop.1,
    hstop.2, List.append_nil]

end Reads

namespace VideoFilter

def subtitleOptions (path : String) (index : UInt32) (fonts : Option String) : List String :=
  [path, "si=" ++ toString index.toNat] ++ fonts.toList.map ("fontsdir=" ++ ·)

/-- The path has nothing that divides, quotes or escapes; nor has the folder, but for a backslash at
its end. -/
structure SurvivesReading (path : String) (fonts : Option String) : Prop where
  path : ':' ∉ path.toList ∧ '\x27' ∉ path.toList ∧ '\x5c' ∉ path.toList
  folder : ∀ folder ∈ fonts,
    ':' ∉ folder.toList ∧ '\x27' ∉ folder.toList ∧ '\x5c' ∉ folder.toList.dropLast

variable (f : Frame) (path : String) (index : UInt32) (fonts : Option String)

theorem exists_subtitles_text :
    ∃ moves, (subtitles f path index fonts).text =
      moves ++ ("subtitles=" ++ (FilterWork.subtitlesCall path index fonts).argumentsText) := by
  obtain ⟨moves, hmoves⟩ : ∃ moves, (subtitles f path index fonts).text =
      moves ++ (FilterWork.subtitlesCall path index fonts).text :=
    Call.exists_chainText_append _ (List.cons_ne_nil _ _)
  exact ⟨moves, by rw [hmoves, Call.text_eq (by simp [FilterWork.subtitlesCall])]; rfl⟩

theorem reads_subtitlesCall :
    Reads (FilterWork.subtitlesCall path index fonts).argumentsText.toList
      (":".intercalate (subtitleOptions path index fonts)).toList := by
  have hindex := Reads.keyed "si" (by decide) (Reads.digits index.toNat)
  rw [Call.argumentsText, String.toList_intercalate, String.toList_intercalate]
  refine Reads.intercalate ?_
  cases fonts with
  | none => exact .cons (.escaped path) (.cons hindex .nil)
  | some folder =>
    have hfolder := Reads.keyed "fontsdir" (by decide +kernel) (.escaped folder)
    exact .cons (.escaped path) (.cons hindex (.cons hfolder .nil))

theorem mem_dropLast_append {c : Char} {a : List Char} (ha : c ∉ a) (b : List Char) :
    c ∈ (a ++ b).dropLast ↔ c ∈ b.dropLast := by
  by_cases hb : b = []
  · rw [hb, List.append_nil]
    exact ⟨fun h => absurd ((List.dropLast_sublist a).mem h) ha, fun h => absurd h List.not_mem_nil⟩
  · rw [List.dropLast_append_of_ne_nil hb, List.mem_append, or_iff_right ha]

theorem keeps_iff {key : List Char} (hne : key ≠ []) (hquote : '\x27' ∉ key)
    (hslash : '\x5c' ∉ key) (path value : List Char) :
    '\x27' ∉ path ++ (key ++ value) ∧ '\x5c' ∉ (path ++ (key ++ value)).dropLast ↔
      ('\x27' ∉ path ∧ '\x5c' ∉ path) ∧ '\x27' ∉ value ∧ '\x5c' ∉ value.dropLast := by
  rw [List.dropLast_append_of_ne_nil (by simp [hne]), List.mem_append, List.mem_append,
    List.mem_append, mem_dropLast_append hslash]
  simp only [hquote, false_or, not_or]
  exact and_and_and_comm

/-- **The second reading leaves the options alone** exactly if they survive it. -/
theorem splitOptions_subtitleOptions_iff :
    splitOptions (":".intercalate (subtitleOptions path index fonts)).toList =
        (subtitleOptions path index fonts).map String.toList ↔ SurvivesReading path fonts := by
  have hoptions : (subtitleOptions path index fonts).map String.toList =
      [path.toList, "si=".toList ++ (toString index.toNat).toList] ++
        fonts.toList.map fun folder => "fontsdir=".toList ++ folder.toList := by
    rw [subtitleOptions, List.map_append, List.map_map]
    simp only [Function.comp_def, String.toList_append, List.map_cons, List.map_nil]
  have hsep : ":".toList = [':'] := rfl
  have hcolon := not_mem_toString (c := ':') (by decide) index.toNat
  have hquote := not_mem_toString (c := '\x27') (by decide) index.toNat
  have hslash := not_mem_toString (c := '\x5c') (by decide) index.toNat
  rw [String.toList_intercalate, hsep, hoptions]
  generalize (toString index.toNat).toList = digits at hcolon hquote hslash
  cases fonts with
  | none =>
    have hjoin : [':'].intercalate [path.toList, "si=".toList ++ digits] =
        path.toList ++ (":si=".toList ++ digits) := by simp [List.intercalate]
    have hlast : '\x5c' ∉ digits.dropLast := fun h => hslash ((List.dropLast_sublist _).mem h)
    rw [Option.toList_none, List.map_nil, List.append_nil,
      splitOptions_intercalate_iff (List.cons_ne_nil _ _), hjoin,
      keeps_iff (by decide) (by decide) (by decide)]
    constructor
    · rintro ⟨hfields, hpath, -⟩
      exact ⟨⟨hfields _ List.mem_cons_self, hpath⟩, by simp⟩
    · rintro ⟨⟨hpath, hkept⟩, -⟩
      exact ⟨by simp [hpath, hcolon], hkept, hquote, hlast⟩
  | some folder =>
    have hjoin : [':'].intercalate [path.toList, "si=".toList ++ digits,
          "fontsdir=".toList ++ folder.toList] =
        path.toList ++ ((":si=".toList ++ digits ++ ":fontsdir=".toList) ++ folder.toList) := by
      simp [List.intercalate]
    rw [Option.toList_some, List.map_singleton, List.cons_append, List.singleton_append,
      splitOptions_intercalate_iff (List.cons_ne_nil _ _), hjoin,
      keeps_iff (by simp) (by simp [hquote]) (by simp [hslash])]
    constructor
    · rintro ⟨hfields, hpath, hfolder⟩
      have hlast := hfields _ (List.mem_cons_of_mem _ (List.mem_cons_of_mem _ List.mem_cons_self))
      refine ⟨⟨hfields _ List.mem_cons_self, hpath⟩, ?_⟩
      rintro _ ⟨⟩
      exact ⟨fun h => hlast (List.mem_append_right _ h), hfolder⟩
    · rintro ⟨⟨hpath, hkept⟩, hfolder⟩
      obtain ⟨hcol, hkeptFolder⟩ := hfolder folder rfl
      exact ⟨by simp [hpath, hcolon, hcol], hkept, hkeptFolder⟩

/-- **Burned text is cut out of the graph whole, and its options are as they were before.**  They
are split again as they were joined exactly if they survive a reading more. -/
theorem subtitles_read_twice {rest : List Char}
    (hrest : ∀ c ∈ rest.head?, endsArguments c = true) :
    ∃ moves taken,
      (subtitles f path index fonts).text =
        moves ++ ("subtitles=" ++ (FilterWork.subtitlesCall path index fonts).argumentsText) ∧
      cutOut ((FilterWork.subtitlesCall path index fonts).argumentsText.toList ++ rest) =
        (taken, unquote false rest) ∧
      taken.map Marked.char = (":".intercalate (subtitleOptions path index fonts)).toList ∧
      (splitOptions (taken.map Marked.char) =
          (subtitleOptions path index fonts).map String.toList ↔ SurvivesReading path fonts) := by
  obtain ⟨moves, hmoves⟩ := exists_subtitles_text f path index fonts
  obtain ⟨taken, hcut, hvalue⟩ := (reads_subtitlesCall path index fonts).cutOut_eq hrest
  refine ⟨moves, taken, hmoves, hcut, hvalue, ?_⟩
  rw [hvalue]
  exact splitOptions_subtitleOptions_iff path index fonts

def plainFrame : Frame :=
  .ofSource { index := 0, codec := "h264", frameSize := ⟨1920, 1080⟩ } false false

/-- The text of a film survives both readings. -/
theorem filmText_read_twice :
    (∀ c ∈ "[v]".toList.head?, endsArguments c = true) ∧
      ∃ taken,
        cutOut "film.srt:si=0:fontsdir=/fonts[v]".toList = (taken, unquote false "[v]".toList) ∧
        splitOptions (taken.map Marked.char) =
          ["film.srt", "si=0", "fontsdir=/fonts"].map String.toList := by
  have hrest : ∀ c ∈ "[v]".toList.head?, endsArguments c = true := by simp [endsArguments]
  obtain ⟨_, taken, -, hcut, -, hread⟩ :=
    subtitles_read_twice plainFrame "film.srt" 0 (some "/fonts") hrest
  have hkept : SurvivesReading "film.srt" (some "/fonts") := by
    refine ⟨by decide +kernel, ?_⟩
    rintro _ ⟨⟩
    decide +kernel
  have harguments : (FilterWork.subtitlesCall "film.srt" 0 (some "/fonts")).argumentsText =
      "film.srt:si=0:fontsdir=/fonts" := by decide +kernel
  rw [harguments, ← String.toList_append] at hcut
  exact ⟨hrest, taken, hcut, hread.mpr hkept⟩

/-- A path with a colon and a quote is cut out whole, but split within. -/
theorem quotedPath_misread :
    (subtitles plainFrame "/media/Show: Pilot\x27s.srt" 0 none).text =
        "subtitles=/media/Show\x5c: Pilot\x5c\x27s.srt:si=0" ∧
      splitOptions ((cutOut "/media/Show\x5c: Pilot\x5c\x27s.srt:si=0".toList).1.map
          Marked.char) =
        ["/media/Show", " Pilots.srt:si=0"].map String.toList ∧
      subtitleOptions "/media/Show: Pilot\x27s.srt" 0 none =
        ["/media/Show: Pilot\x27s.srt", "si=0"] := by
  decide +kernel

end VideoFilter

end Playout
