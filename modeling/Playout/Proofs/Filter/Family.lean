import Playout.Proofs.Filter.LastFormat

/-!
# Families of filters

A filter is built for one memory, and its name says for which: the filters of the host and those
of an accelerator have but `setsar` in common.

* `FilterWork.calls_eq`: work calls filters of its family.
* `belongs_iff`: the text of such calls is of the family whose memory it is.
* `FilterWork.calledNames_calls`: the names that are read off the text of work.
-/

namespace Playout

open Transfer

def hostFamily : List String :=
  ["yadif", "zscale", "tonemap", "scale", "format", "pad", "crop", "subtitles", "setsar"]

def deviceFamily : Backend → List String
  | .software => []
  | .cuda => ["yadif_cuda", "hwupload", "libplacebo", "scale_cuda", "setsar"]
  | .qsv => ["deinterlace_qsv", "vpp_qsv", "scale_qsv", "setsar"]
  | .vaapi => ["deinterlace_vaapi", "hwmap", "tonemap_opencl", "scale_vaapi", "pad_vaapi", "setsar"]

/-- The filters that take frames from a memory. -/
def familyIn (b : Backend) : Memory → List String
  | .hardware => deviceFamily b
  | .software => hostFamily

/-- The names a body can start with. -/
def Opens (b : Backend) (name : String) : Prop :=
  name ∈ familyIn b b.memory ∧ name ∉ ["setsar", "format"]

instance (b : Backend) (name : String) : Decidable (Opens b name) :=
  inferInstanceAs (Decidable (_ ∧ _))

theorem isNameChar_of_mem_family {b : Backend} {n : String}
    (h : n ∈ deviceFamily b ++ hostFamily) : n.toList.all isNameChar = true := by
  revert n
  cases b <;> decide

theorem eq_setsar {b : Backend} {n : String} (hd : n ∈ deviceFamily b) (hh : n ∈ hostFamily) :
    n = "setsar" := by
  revert n
  cases b <;> decide

theorem mem_family {b : Backend} {m : Memory} {n : String} (h : n ∈ familyIn b m) :
    n ∈ deviceFamily b ++ hostFamily := by
  cases m with
  | hardware => exact List.mem_append_left _ h
  | software => exact List.mem_append_right _ h

/-- A family works on its own memory or on the host's. -/
theorem familyIn_memory {b b' : Backend} (h : b' = b ∨ b' = .software) :
    familyIn b' b'.memory = familyIn b b'.memory := by
  obtain rfl | rfl := h <;> rfl

/-! ## Work -/

namespace FilterWork

def suits (b : Backend) : FilterWork → Bool
  | convert _ => b.isHardware
  | pad _ => b == .software || b == .vaapi
  | crop _ | subtitles _ _ _ => b == .software
  | deinterlace | tonemap _ _ | scale _ _ _ => true

def names (b : Backend) : FilterWork → List String
  | deinterlace => [(deinterlaceCall b).name]
  | tonemap _ _ =>
    match b with
    | .software => ["zscale", "tonemap", "zscale", "format"]
    | .cuda => ["hwupload", "libplacebo", "hwupload"]
    | .qsv => ["vpp_qsv"]
    | .vaapi => ["hwmap", "tonemap_opencl", "hwmap"]
  | scale _ _ (some _) => [scaler b, "setsar", scaler b]
  | scale _ _ none => [scaler b]
  | convert _ =>
    match b with
    | .software => ["format"]
    | .qsv => ["vpp_qsv"]
    | b => [scaler b]
  | pad _ => [if b = .vaapi then "pad_vaapi" else "pad"]
  | crop _ => ["crop"]
  | subtitles _ _ _ => ["subtitles"]

variable {b : Backend} {w : FilterWork}

theorem map_name_calls (b : Backend) (w : FilterWork) :
    (w.calls b).map Call.name = w.names b := by
  cases w with
  | scale r p square => cases square <;> cases b <;> rfl
  | _ => cases b <;> rfl

theorem names_eq (h : w.suits b = true) :
    ∃ n rest, w.names b = n :: rest ∧ Opens b n ∧ ∀ x ∈ n :: rest, x ∈ familyIn b b.memory := by
  cases w with
  | deinterlace | tonemap algorithm p =>
    cases b <;> exact ⟨_, _, rfl, by decide, by decide⟩
  | scale r p square =>
    cases square <;> cases b <;> exact ⟨_, _, rfl, by decide, by decide⟩
  | convert p =>
    cases b with
    | software => cases h
    | cuda | qsv | vaapi => exact ⟨_, _, rfl, by decide, by decide⟩
  | pad size =>
    cases b with
    | cuda | qsv => cases h
    | software | vaapi => exact ⟨_, _, rfl, by decide, by decide⟩
  | crop size | subtitles path index fonts =>
    cases b with
    | cuda | qsv | vaapi => cases h
    | software => exact ⟨_, _, rfl, by decide, by decide⟩

end FilterWork

theorem FilterWork.calls_eq {b : Backend} {w : FilterWork} (h : w.suits b = true) :
    ∃ c rest, w.calls b = c :: rest ∧ Opens b c.name ∧
      ∀ d ∈ c :: rest, d.name ∈ familyIn b b.memory := by
  obtain ⟨n, names, hn, ho, hall⟩ := names_eq h
  rw [← map_name_calls] at hn
  obtain ⟨c, rest, hc, rfl, hrest⟩ := List.map_eq_cons_iff.mp hn
  refine ⟨c, rest, hc, ho, ?_⟩
  intro d hd
  apply hall
  rw [← hrest, ← List.map_cons]
  exact List.mem_map_of_mem hd

/-! ## Texts -/

/-- Whether the text is one of calls to these filters. -/
def Belongs (family : List String) (cs : List Char) : Prop :=
  ∃ calls : List Call, calls ≠ [] ∧ (∀ c ∈ calls, c.name ∈ family) ∧ Call.chars calls = cs

theorem Belongs.firstName_mem {b : Backend} {family : List String}
    (hsub : ∀ n ∈ family, n ∈ deviceFamily b ++ hostFamily) {cs : List Char}
    (h : Belongs family cs) : ∃ n ∈ family, firstName cs = n.toList := by
  obtain ⟨calls, hne, hmem, rfl⟩ := h
  cases calls with
  | nil => exact absurd rfl hne
  | cons c rest =>
    have hc := hmem c List.mem_cons_self
    exact ⟨c.name, hc, Call.firstName_chars (isNameChar_of_mem_family (hsub _ hc)) rest⟩

/-- The families keep the text of their calls apart. -/
theorem belongs_iff {b b' : Backend} (hb : b' = b ∨ b' = .software) {c : Call} {rest : List Call}
    (hc : c.name ≠ "setsar") (hall : ∀ d ∈ c :: rest, d.name ∈ familyIn b' b'.memory) :
    (Belongs (deviceFamily b) (Call.chars (c :: rest)) ↔ b'.memory = .hardware) ∧
      (Belongs hostFamily (Call.chars (c :: rest)) ↔ b'.memory = .software) := by
  have hname : ∀ {family : List String}, (∀ n ∈ family, n ∈ deviceFamily b ++ hostFamily) →
      Belongs family (Call.chars (c :: rest)) → c.name ∈ family := by
    intro family hsub h
    obtain ⟨n, hn, hfirst⟩ := h.firstName_mem hsub
    rw [Call.firstName_chars (isNameChar_of_mem_family (mem_family (hall c List.mem_cons_self)))]
      at hfirst
    rw [String.toList_inj.mp hfirst]
    exact hn
  have hdev : ∀ n ∈ deviceFamily b, n ∈ deviceFamily b ++ hostFamily :=
    fun n hn => List.mem_append_left _ hn
  have hhost : ∀ n ∈ hostFamily, n ∈ deviceFamily b ++ hostFamily :=
    fun n hn => List.mem_append_right _ hn
  -- a text of one family is none of the other
  have hnot : ¬(Belongs (deviceFamily b) (Call.chars (c :: rest)) ∧
      Belongs hostFamily (Call.chars (c :: rest))) :=
    fun h => hc (eq_setsar (hname hdev h.1) (hname hhost h.2))
  cases hm : b'.memory with
  | hardware =>
    have hbb : b' = b := hb.resolve_right fun hs => by rw [hs] at hm; cases hm
    have hd : Belongs (deviceFamily b) (Call.chars (c :: rest)) := by
      refine ⟨c :: rest, List.cons_ne_nil _ _, ?_, rfl⟩
      rwa [hm, hbb] at hall
    exact ⟨iff_of_true hd rfl, iff_of_false (fun h => hnot ⟨hd, h⟩) (by decide)⟩
  | software =>
    have hs : Belongs hostFamily (Call.chars (c :: rest)) := by
      refine ⟨c :: rest, List.cons_ne_nil _ _, ?_, rfl⟩
      rwa [hm] at hall
    exact ⟨iff_of_false (fun h => hnot ⟨h, hs⟩) (by decide), iff_of_true hs rfl⟩

/-! ## Names between commas -/

def FilterWork.withoutTexts : FilterWork → FilterWork
  | tonemap _ p => tonemap "" p
  | w => w.withoutPaths

def VideoFilter.withoutTexts : VideoFilter → VideoFilter
  | work b lead w => work b lead w.withoutTexts
  | move t => move t

theorem not_comma_text (p : PixelFormat) : ',' ∉ p.text.toList :=
  not_comma_of_all (all_text p)

theorem not_comma_placeNat (n : Nat) : ',' ∉ (placeNat n).text.toList :=
  not_comma_of_all (all_toString n)

theorem not_comma_keyed {k v : String} (hk : ',' ∉ k.toList) (hv : ',' ∉ v.toList) :
    ',' ∉ (keyed k v).text.toList := by
  show ',' ∉ (k ++ "=" ++ v).toList
  rw [String.toList_append, String.toList_append, List.append_assoc, List.mem_append,
    List.mem_append, not_or, not_or]
  exact ⟨hk, by decide, hv⟩

theorem not_comma_keyedNat {k : String} (hk : ',' ∉ k.toList) (n : Nat) :
    ',' ∉ (keyedNat k n).text.toList :=
  not_comma_keyed hk (not_comma_of_all (all_toString n))

theorem not_comma_keyed_format (p : PixelFormat) :
    ',' ∉ (keyed "format" p.text).text.toList :=
  not_comma_keyed (by decide) (not_comma_text p)

theorem not_comma_formatCall (p : PixelFormat) : ',' ∉ (formatCall p).text.toList := by
  refine Call.not_comma_text (by decide : ',' ∉ "format".toList) ?_
  intro a ha
  rw [List.mem_singleton.mp ha]
  exact not_comma_text p

namespace FilterWork

variable {b : Backend} {w : FilterWork}

theorem not_comma_tonemapCalls (p : PixelFormat) (b : Backend) :
    ∀ c ∈ tonemapCalls "" p b, ',' ∉ c.text.toList := by
  cases b with
  | software =>
    simp only [tonemapCalls, List.forall_mem_cons]
    exact ⟨by decide, by decide, by decide, not_comma_formatCall p, List.forall_mem_nil _⟩
  | cuda =>
    simp only [tonemapCalls, List.forall_mem_cons]
    refine ⟨by decide, Call.not_comma_text (by decide) ?_, by decide, List.forall_mem_nil _⟩
    simp only [List.forall_mem_cons]
    exact ⟨by decide, by decide, by decide, by decide, not_comma_keyed_format p,
      List.forall_mem_nil _⟩
  | qsv =>
    simp only [tonemapCalls, List.forall_mem_cons]
    refine ⟨Call.not_comma_text (by decide) ?_, List.forall_mem_nil _⟩
    simp only [List.forall_mem_cons]
    exact ⟨by decide, not_comma_keyed_format p, List.forall_mem_nil _⟩
  | vaapi =>
    simp only [tonemapCalls, List.forall_mem_cons]
    refine ⟨by decide, Call.not_comma_text (by decide) ?_, by decide, List.forall_mem_nil _⟩
    simp only [List.forall_mem_cons]
    exact ⟨by decide, by decide, by decide, by decide, not_comma_keyed_format p,
      List.forall_mem_nil _⟩

theorem not_comma_resizeCall (r : Resize) (p : Option PixelFormat) (b : Backend) :
    ',' ∉ (resizeCall r p b).text.toList := by
  refine Call.not_comma_text ?_ (forall_arguments_resizeCall not_comma_placeNat
    (not_comma_keyedNat (by decide)) (not_comma_keyedNat (by decide)) (by decide) ?_
    (fun q _ => not_comma_keyed_format q) r b)
  · show ',' ∉ (scaler b).toList
    cases b <;> decide
  · intro x
    cases x <;> decide

theorem not_comma_convertCall (p : PixelFormat) (b : Backend) :
    ',' ∉ (convertCall p b).text.toList := by
  cases b with
  | software => exact not_comma_formatCall p
  | cuda | qsv | vaapi =>
    refine Call.not_comma_text (by decide) ?_
    intro a ha
    rw [List.mem_singleton.mp ha]
    exact not_comma_keyed_format p

theorem not_comma_padCall (size : Size) (b : Backend) : ',' ∉ (padCall size b).text.toList := by
  cases b with
  | vaapi =>
    refine Call.not_comma_text (by decide) ?_
    simp only [List.forall_mem_cons]
    exact ⟨not_comma_keyedNat (by decide) _, not_comma_keyedNat (by decide) _, by decide,
      by decide, by decide, List.forall_mem_nil _⟩
  | software | cuda | qsv =>
    refine Call.not_comma_text (by decide) ?_
    simp only [List.forall_mem_cons]
    exact ⟨not_comma_placeNat _, not_comma_placeNat _, by decide, by decide, by decide,
      List.forall_mem_nil _⟩

theorem not_comma_subtitlesCall (index : UInt32) (fonts : Option String) :
    ',' ∉ (subtitlesCall "" index (fonts.map fun _ => "")).text.toList := by
  refine Call.not_comma_text (by decide) ?_
  cases fonts with
  | none =>
    simp only [Option.map_none, List.forall_mem_append, List.forall_mem_cons]
    exact ⟨⟨by decide, not_comma_keyedNat (by decide) _, List.forall_mem_nil _⟩,
      List.forall_mem_nil _⟩
  | some folder =>
    simp only [Option.map_some, List.forall_mem_append, List.forall_mem_cons]
    exact ⟨⟨by decide, not_comma_keyedNat (by decide) _, List.forall_mem_nil _⟩, by decide,
      List.forall_mem_nil _⟩

theorem not_comma_calls (b : Backend) (w : FilterWork) :
    ∀ c ∈ w.withoutTexts.calls b, ',' ∉ c.text.toList := by
  cases w with
  | deinterlace =>
    show ∀ c ∈ [deinterlaceCall b], _
    cases b <;> decide
  | tonemap algorithm p => exact not_comma_tonemapCalls p b
  | scale r p square =>
    cases square with
    | none => exact List.forall_mem_singleton.mpr (not_comma_resizeCall r p b)
    | some byHeight =>
      refine List.forall_mem_append.mpr ⟨?_, List.forall_mem_singleton.mpr
        (not_comma_resizeCall r p b)⟩
      cases byHeight <;> cases b <;> decide
  | convert p => exact List.forall_mem_singleton.mpr (not_comma_convertCall p b)
  | pad size => exact List.forall_mem_singleton.mpr (not_comma_padCall size b)
  | crop size =>
    refine List.forall_mem_singleton.mpr (Call.not_comma_text (by decide) ?_)
    simp only [List.forall_mem_cons]
    exact ⟨not_comma_placeNat _, not_comma_placeNat _, List.forall_mem_nil _⟩
  | subtitles path index fonts =>
    exact List.forall_mem_singleton.mpr (not_comma_subtitlesCall index fonts)

theorem suits_withoutTexts (h : w.suits b = true) : w.withoutTexts.suits b = true := by
  cases w <;> exact h

theorem calledNames_calls (h : w.suits b = true) :
    ∀ n ∈ calledNames (Call.chars (w.withoutTexts.calls b)),
      n ∈ (familyIn b b.memory).map String.toList := by
  obtain ⟨c, rest, hc, -, hall⟩ := calls_eq (suits_withoutTexts h)
  rw [Call.calledNames_chars (calls_ne_nil b _) (not_comma_calls b w) ?_, hc]
  · intro n hn
    obtain ⟨d, hd, rfl⟩ := List.mem_map.mp hn
    exact List.mem_map_of_mem (hall d hd)
  · rw [hc]
    exact fun d hd => isNameChar_of_mem_family (mem_family (hall d hd))

end FilterWork

end Playout
