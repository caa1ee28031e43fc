import Mathlib.Data.List.Sort
import Playout.Proofs.Device.Entry

/-!
# Names in a listing

A listing is read as the names of its entries, whatever stands on the other lines, and in whatever
order the lines come.  A listing with more lines lists no fewer names, and lets an accelerator do no
less.

* `mem_namesOf_iff`: the names of a text are those of its lines, without the `=` of a legend.
* `pairwise_namesOf`, `namesOf_congr`: they are ascending, so that their set determines them.
* `ListingPart`, `mem_namesOf_listing`: entries among other lines are read back.
* `LinesWithin`, `namesOf_subset`, `CodecListing.capabilities_mono`: what more lines add.
* `listings_read_back`: all of this.
-/

namespace Playout

/-! ## Ascending names -/

theorem pairwise_insertName {names : List String} (h : names.Pairwise (· < ·)) (name : String) :
    (insertName name names).Pairwise (· < ·) := by
  induction names with
  | nil => exact List.pairwise_singleton _ _
  | cons m rest ih =>
    obtain ⟨hm, hrest⟩ := List.pairwise_cons.mp h
    unfold insertName
    split
    · exact h
    · next hne =>
      split
      · next hlt =>
        refine List.pairwise_cons.mpr ⟨List.forall_mem_cons.mpr ⟨hlt, fun x hx => ?_⟩, h⟩
        exact String.lt_trans hlt (hm x hx)
      · next hnlt =>
        -- what is neither equal nor smaller is greater
        have hlt : m < name := by
          by_contra hle
          exact hne (String.le_antisymm (String.not_lt.mp hle) (String.not_lt.mp hnlt))
        refine List.pairwise_cons.mpr ⟨fun x hx => ?_, ih hrest⟩
        rcases mem_insertName.mp hx with rfl | hx
        · exact hlt
        · exact hm x hx

/-- The names of a listing, without the `=` of its legend. -/
def collectNames (names : List String) (found : List String) : List String :=
  found.foldl (fun names name => if name = "=" then names else insertName name names) names

theorem mem_collectNames {names found : List String} {x : String} :
    x ∈ collectNames names found ↔ x ∈ names ∨ x ≠ "=" ∧ x ∈ found := by
  induction found generalizing names with
  | nil => simp [collectNames]
  | cons name rest ih =>
    rw [collectNames, List.foldl_cons, ← collectNames, ih]
    split
    · next he =>
      subst he
      grind
    · next hne =>
      rw [mem_insertName, List.mem_cons]
      grind

theorem pairwise_collectNames {names : List String} (h : names.Pairwise (· < ·))
    (found : List String) : (collectNames names found).Pairwise (· < ·) := by
  induction found generalizing names with
  | nil => exact h
  | cons name rest ih =>
    rw [collectNames, List.foldl_cons, ← collectNames]
    split
    · exact ih h
    · exact ih (pairwise_insertName h name)

/-! ## Lines -/

theorem splitAt_eq_splitOn (sep : Char) (cs : List Char) : splitAt sep cs = cs.splitOn sep := by
  induction cs with
  | nil => exact (List.splitOn_nil sep).symm
  | cons c rest ih =>
    rw [splitAt, ih, List.splitOn_cons_eq_if_modifyHead]
    by_cases hc : c = sep
    · rw [if_pos hc, if_pos (beq_iff_eq.mpr hc)]
    · rw [if_neg hc, if_neg (mt beq_iff_eq.mp hc)]
      obtain ⟨piece, pieces, he⟩ := List.exists_cons_of_ne_nil (List.splitOn_ne_nil sep rest)
      rw [he]
      rfl

/-- Carriage returns at the ends of lines are not read. -/
theorem filterMap_name?_linesOf (text : String) :
    (linesOf text).filterMap ListingLine.name? =
      (splitAt '\n' text.toList).filterMap ListingLine.name? := by
  have hreturn : ∀ line,
      ListingLine.name? (linesOf.withoutReturn line) = ListingLine.name? line := by
    intro line
    unfold linesOf.withoutReturn
    split
    · next hlast =>
      conv_rhs => rw [← List.dropLast_append_getLast? _ hlast]
      exact (ListingLine.name?_append_return _).symm
    · rfl
  rw [linesOf, List.filterMap_append, List.filterMap_map]
  simp only [Function.comp_def, hreturn]
  rw [← List.filterMap_append]
  congr 1
  cases hlast : (splitAt '\n' text.toList).getLast? with
  | none => rw [List.getLast?_eq_none_iff.mp hlast]; rfl
  | some last => exact List.dropLast_append_getLast? _ hlast

theorem namesOf_eq_collectNames (text : String) :
    namesOf text = collectNames [] ((splitAt '\n' text.toList).filterMap ListingLine.name?) := by
  rw [← filterMap_name?_linesOf]
  rfl

/-- **The names of a text are those of its lines**, without the `=` of a legend. -/
theorem mem_namesOf_iff {text name : String} :
    name ∈ namesOf text ↔
      name ≠ "=" ∧ ∃ line ∈ splitAt '\n' text.toList, ListingLine.name? line = some name := by
  rw [namesOf_eq_collectNames, mem_collectNames, List.mem_filterMap]
  simp

theorem pairwise_namesOf (text : String) : (namesOf text).Pairwise (· < ·) := by
  rw [namesOf_eq_collectNames]
  exact pairwise_collectNames List.Pairwise.nil _

/-- Names are ascending, and so they are determined by what they are. -/
theorem namesOf_congr {a b : String} (h : ∀ name, name ∈ namesOf a ↔ name ∈ namesOf b) :
    namesOf a = namesOf b :=
  (pairwise_namesOf a).eq_of_mem_iff (pairwise_namesOf b) h

/-! ## Entries among other lines -/

/-- A line of a listing: an entry, or a line on which no entry is written. -/
inductive ListingPart where
  | entry (entry : ListingEntry)
  | other (line : List Char) (plain : ∀ e : ListingEntry, e.line ≠ line)

namespace ListingPart

def line : ListingPart → List Char
  | entry e => e.line
  | other line _ => line

def name? : ListingPart → Option String
  | entry e => some (String.ofList e.name)
  | other _ _ => none

theorem name?_line (p : ListingPart) : ListingLine.name? p.line = p.name? := by
  cases p with
  | entry e => exact ListingLine.name?_line e
  | other line plain => exact ListingLine.name?_eq_none_iff.mpr plain

end ListingPart

def listingText (parts : List ListingPart) : String :=
  String.ofList (['\n'].intercalate (parts.map ListingPart.line))

/-- **Entries among other lines are read back.** -/
theorem mem_namesOf_listing {parts : List ListingPart} (h : ∀ p ∈ parts, '\n' ∉ p.line)
    {name : String} :
    name ∈ namesOf (listingText parts) ↔
      name ≠ "=" ∧ ∃ e, .entry e ∈ parts ∧ String.ofList e.name = name := by
  have hparts : (∃ p ∈ parts, p.name? = some name) ↔
      ∃ e, .entry e ∈ parts ∧ String.ofList e.name = name := by
    constructor
    · rintro ⟨p, hp, hname⟩
      cases p with
      | entry e => exact ⟨e, hp, Option.some.inj hname⟩
      | other line plain => cases hname
    · rintro ⟨e, he, rfl⟩
      exact ⟨_, he, rfl⟩
  rw [mem_namesOf_iff, ← hparts, listingText, String.toList_ofList, splitAt_eq_splitOn]
  by_cases hne : parts = []
  · subst hne
    have hempty : ListingLine.name? [] = none := rfl
    simp [hempty]
  · rw [List.splitOn_intercalate '\n' (List.forall_mem_map.mpr h) (by simpa using hne)]
    simp only [List.mem_map, exists_exists_and_eq_and, ListingPart.name?_line]

/-! ## More lines -/

/-- Every line of the one text is a line of the other. -/
def LinesWithin (a b : String) : Prop := splitAt '\n' a.toList ⊆ splitAt '\n' b.toList

theorem splitAt_joined (a b : String) :
    splitAt '\n' (a ++ "\n" ++ b).toList = splitAt '\n' a.toList ++ splitAt '\n' b.toList := by
  have hbreak : "\n".toList = ['\n'] := rfl
  rw [String.toList_append, String.toList_append, hbreak, List.append_assoc, List.singleton_append]
  simp only [splitAt_eq_splitOn]
  exact List.splitOn_append_cons_self _ _

/-- Texts that are joined keep their lines. -/
theorem linesWithin_joined (a b : String) :
    LinesWithin a (a ++ "\n" ++ b) ∧ LinesWithin b (a ++ "\n" ++ b) := by
  unfold LinesWithin
  rw [splitAt_joined]
  exact ⟨List.subset_append_left _ _, List.subset_append_right _ _⟩

/-- **Texts that are joined list the names of both.** -/
theorem mem_namesOf_joined {a b name : String} :
    name ∈ namesOf (a ++ "\n" ++ b) ↔ name ∈ namesOf a ∨ name ∈ namesOf b := by
  simp only [mem_namesOf_iff, splitAt_joined, List.mem_append, or_and_right, exists_or, and_or_left]

/-- With more lines no name is lost. -/
theorem namesOf_subset {a b : String} (h : LinesWithin a b) : namesOf a ⊆ namesOf b := by
  intro name hname
  obtain ⟨hne, line, hline, hread⟩ := mem_namesOf_iff.mp hname
  exact mem_namesOf_iff.mpr ⟨hne, line, h hline, hread⟩

namespace CodecListing

variable {l m : CodecListing}

theorem encodes_mono (h : l.encoders ⊆ m.encoders) {a : Accelerator} {format : VideoFormat}
    (he : l.encodes a format = true) : m.encodes a format = true := by
  unfold encodes at he ⊢
  split at he
  · rw [Bool.and_eq_true, List.contains_iff_mem] at he ⊢
    exact ⟨he.1, h he.2⟩
  · cases he

theorem decodes_mono (henc : l.encoders ⊆ m.encoders) (hdec : l.decoders ⊆ m.decoders)
    {a : Accelerator} {format : VideoFormat} (hd : l.decodes a format = true) :
    m.decodes a format = true := by
  unfold decodes at hd ⊢
  split at hd
  · cases hd
  · cases a with
    | nvenc | qsv =>
      rw [List.contains_iff_mem] at hd ⊢
      exact hdec hd
    | vaapi | videoToolbox =>
      rw [Bool.and_eq_true, List.contains_iff_mem] at hd ⊢
      exact ⟨henc hd.1, hd.2⟩
    | none | amf => cases hd

/-- **A longer listing lets an accelerator do no less.** -/
theorem capabilities_mono (henc : l.encoders ⊆ m.encoders) (hdec : l.decoders ⊆ m.decoders)
    (a : Accelerator) :
    (l.capabilities a).encoders ⊆ (m.capabilities a).encoders ∧
      (l.capabilities a).decoders ⊆ (m.capabilities a).decoders :=
  ⟨List.map_subset _ (List.monotone_filter_right _ fun _ => encodes_mono henc).subset,
    List.map_subset _ (List.monotone_filter_right _ fun _ => decodes_mono henc hdec).subset⟩

end CodecListing

/-- **Listings are read back.**  Of entries among other lines the names are read, without the `=` of
a legend, ascending and once each.  Listings that are joined list the names of both; the order of
lines does not matter, nor how often they come; and with more lines no accelerator decodes or
encodes less. -/
theorem listings_read_back :
    (∀ parts : List ListingPart, (∀ p ∈ parts, '\n' ∉ p.line) → ∀ name,
      (name ∈ namesOf (listingText parts) ↔
        name ≠ "=" ∧ ∃ e, .entry e ∈ parts ∧ String.ofList e.name = name)) ∧
    (∀ text, (namesOf text).Pairwise (· < ·)) ∧
    (∀ a b name, name ∈ namesOf (a ++ "\n" ++ b) ↔ name ∈ namesOf a ∨ name ∈ namesOf b) ∧
    (∀ a b, LinesWithin a b → LinesWithin b a → namesOf a = namesOf b) ∧
    (∀ a b, LinesWithin a (a ++ "\n" ++ b) ∧ LinesWithin b (a ++ "\n" ++ b)) ∧
    ∀ e d e' d', LinesWithin e e' → LinesWithin d d' → ∀ a : Accelerator,
      ((CodecListing.parse e d).capabilities a).encoders ⊆
          ((CodecListing.parse e' d').capabilities a).encoders ∧
        ((CodecListing.parse e d).capabilities a).decoders ⊆
          ((CodecListing.parse e' d').capabilities a).decoders := by
  refine ⟨fun parts h name => mem_namesOf_listing h, pairwise_namesOf,
    fun a b name => mem_namesOf_joined, fun a b hab hba => ?_, linesWithin_joined,
    fun e d e' d' he hd a => ?_⟩
  · exact namesOf_congr fun name => ⟨fun h => namesOf_subset hab h, fun h => namesOf_subset hba h⟩
  · have henc : (CodecListing.parse e d).encoders ⊆ (CodecListing.parse e' d').encoders :=
      namesOf_subset he
    have hdec : (CodecListing.parse e d).decoders ⊆ (CodecListing.parse e' d').decoders :=
      namesOf_subset hd
    exact CodecListing.capabilities_mono henc hdec a

/-- A heading, a line of the legend, and an encoder of an accelerator. -/
def shortListing : List ListingPart := [
  .other "Encoders:".toList (ListingLine.name?_eq_none_iff.mp (by decide)),
  .entry {
    indent := [' ']
    kind := 'V'
    flags := ['.', '.', '.', '.', '.']
    gap := [' ']
    name := ['=']
    rest := [' ', 'V', 'i', 'd', 'e', 'o']
    indent_blank := by simp [isBlank]
    kind_mem := by decide
    flags_length := rfl
    flags_mem := by simp
    gap_ne_nil := by decide
    gap_blank := by simp [isBlank]
    name_ne_nil := by decide
    name_not_blank := by simp [isBlank]
    rest_blank := by simp [isBlank] },
  .entry {
    indent := [' ']
    kind := 'V'
    flags := ['.', '.', '.', '.', 'D']
    gap := [' ', '\t']
    name := ['h', '2', '6', '4', '_', 'n', 'v', 'e', 'n', 'c']
    rest := []
    indent_blank := by simp [isBlank]
    kind_mem := by decide
    flags_length := rfl
    flags_mem := by simp
    gap_ne_nil := by decide
    gap_blank := by simp [isBlank]
    name_ne_nil := by decide
    name_not_blank := by simp [isBlank]
    rest_blank := nofun }]

/-- The encoder is read and the legend is not; repeating the lines changes nothing, and the
accelerator keeps its encoder when other listings are added. -/
theorem shortListing_read_back :
    "h264_nvenc" ∈ namesOf (listingText shortListing) ∧
      "=" ∉ namesOf (listingText shortListing) ∧
      namesOf (listingText shortListing ++ "\n" ++ listingText shortListing) =
        namesOf (listingText shortListing) ∧
      ∀ more, ⟨.h264, [8]⟩ ∈
        ((CodecListing.parse (listingText shortListing ++ "\n" ++ more) "").capabilities
          .nvenc).encoders := by
  obtain ⟨hread, -, -, hsame, hjoined, hmore⟩ := listings_read_back
  have hname := hread shortListing (by decide)
  refine ⟨(hname _).mpr ⟨by decide, _, List.mem_of_getElem? (i := 2) rfl, rfl⟩,
    fun h => ((hname _).mp h).1 rfl, hsame _ _ ?_ (hjoined _ _).1, fun more => ?_⟩
  · unfold LinesWithin
    rw [splitAt_joined, List.append_subset]
    exact ⟨List.Subset.refl _, List.Subset.refl _⟩
  · have hlisted : ⟨.h264, [8]⟩ ∈
        ((CodecListing.parse (listingText shortListing) "").capabilities .nvenc).encoders := by
      decide
    have hkept := hmore (listingText shortListing) "" _ "" (hjoined _ more).1
      (List.Subset.refl (splitAt '\n' "".toList)) .nvenc
    exact hkept.1 hlisted

end Playout
