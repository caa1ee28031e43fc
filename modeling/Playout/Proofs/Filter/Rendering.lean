import Playout.Proofs.Filter.Family

/-!
# The text of a filter and what it does

A filter's text is read without the filter: how it starts, what it calls after that, and which
pixel format it names last.  `TextAgrees` says that the text tells what the filter does to frames.

* `plain_reading`, `download_reading`, `upload_reading`: how the three kinds of text are read.
* `on_reading`: which kind the text of work is.
* `textAgrees_on`, `textAgrees_download`, `textAgrees_upload`: the filters of a main path.
-/

namespace Playout

open Transfer

/-! ## Readings -/

def downloadStart : String := "hwdownload,format="

def uploadStarts : Backend → List String
  | .software => []
  | .cuda => "hwupload_cuda" :: PixelLayout.all.map fun l => "format=" ++ l.text ++ ",hwupload_cuda"
  | .qsv => PixelLayout.all.map fun l => "format=" ++ l.text ++ ",hwupload=extra_hw_frames=64"
  | .vaapi => PixelLayout.all.map fun l => "format=" ++ l.text ++ "|vaapi,hwupload"

def Downloads (cs : List Char) : Prop := downloadStart.toList <+: cs

def Uploads (b : Backend) (cs : List Char) : Prop := ∃ u ∈ uploadStarts b, u.toList <+: cs

instance (cs : List Char) : Decidable (Downloads cs) :=
  inferInstanceAs (Decidable (_ <+: _))

instance (b : Backend) (cs : List Char) : Decidable (Uploads b cs) :=
  inferInstanceAs (Decidable (∃ u ∈ _, _))

def leadLength (b : Backend) (cs : List Char) : Nat :=
  if Downloads cs then 2
  else if Uploads b cs then (if "hwupload_cuda".toList <+: cs then 1 else 2)
  else 0

/-- The text without the move at its start. -/
def body (b : Backend) (cs : List Char) : List Char := afterCommas (leadLength b cs) cs

namespace VideoFilter

/-- **The text agrees with the state.**  The text starts with a download or an upload if the frames
are moved down or up; the calls after that are such of the accelerator or of the host, as the
frames lie there or here, and so is every name between the commas, the texts of the request aside;
and the last format in it is the one the frames have afterwards, or it names none and they keep
theirs. -/
structure TextAgrees (b : Backend) (f : Frame) (v : VideoFilter) : Prop where
  download : Downloads v.text.toList ↔ f.memory = .hardware ∧ (v.next f).memory = .software
  upload : Uploads b v.text.toList ↔ f.memory = .software ∧ (v.next f).memory = .hardware
  device : body b v.text.toList ≠ [] →
    (Belongs (deviceFamily b) (body b v.text.toList) ↔ (v.next f).memory = .hardware)
  host : body b v.text.toList ≠ [] →
    (Belongs hostFamily (body b v.text.toList) ↔ (v.next f).memory = .software)
  called : body b v.withoutTexts.text.toList ≠ [] →
    ∀ n ∈ calledNames (body b v.withoutTexts.text.toList),
      n ∈ (familyIn b (v.next f).memory).map String.toList
  format : ∀ x, v.lastFormat = some x → ∃ p, (v.next f).pixelFormat = some p ∧ p.text.toList = x
  unchanged : v.lastFormat = none → (v.next f).pixelFormat = f.pixelFormat

end VideoFilter

theorem firstName_format (s t : String) :
    firstName ("format=" ++ s ++ t).toList = "format".toList := by
  have hkey : "format=".toList = "format".toList ++ ['='] := by decide
  rw [String.toList_append, String.toList_append, hkey, List.append_assoc, List.append_assoc]
  refine firstName_append (by decide) ?_
  intro x hx
  cases hx
  rfl

theorem firstName_mem_of_upload {b : Backend} {u : String} (hu : u ∈ uploadStarts b) :
    firstName u.toList ∈ ["format".toList, "hwupload_cuda".toList] := by
  have hformat : ∀ s t : String, firstName ("format=" ++ s ++ t).toList ∈
      ["format".toList, "hwupload_cuda".toList] := by
    intro s t
    rw [firstName_format]
    exact List.mem_cons_self
  cases b with
  | software => cases hu
  | cuda =>
    rcases List.mem_cons.mp hu with rfl | hu
    · decide
    · obtain ⟨l, -, rfl⟩ := List.mem_map.mp hu
      exact hformat _ _
  | qsv =>
    obtain ⟨l, -, rfl⟩ := List.mem_map.mp hu
    exact hformat _ _
  | vaapi =>
    obtain ⟨l, -, rfl⟩ := List.mem_map.mp hu
    exact hformat _ _

theorem not_prefix_of_opens {b b' : Backend} {n : String} (h : Opens b' n) {u : String}
    (hu : u ∈ downloadStart :: uploadStarts b) : ¬firstName u.toList <+: n.toList := by
  have hall : ∀ b', ∀ n ∈ familyIn b' b'.memory, n ∉ ["setsar", "format"] →
      ∀ cs ∈ ["hwdownload".toList, "format".toList, "hwupload_cuda".toList], ¬cs <+: n.toList := by
    intro b'
    cases b' <;> decide
  have hmem : firstName u.toList ∈ ["hwdownload".toList, "format".toList,
      "hwupload_cuda".toList] := by
    rcases List.mem_cons.mp hu with rfl | hu
    · decide
    · exact List.mem_cons_of_mem _ (firstName_mem_of_upload hu)
  exact hall b' n h.1 h.2 _ hmem

/-! ## The three kinds of text -/

theorem plain_reading {b b' : Backend} {c : Call} (hc : Opens b' c.name) (rest : List Call) :
    ¬Downloads (Call.chars (c :: rest)) ∧ ¬Uploads b (Call.chars (c :: rest)) ∧
      body b (Call.chars (c :: rest)) = Call.chars (c :: rest) := by
  have hname := Call.firstName_chars (isNameChar_of_mem_family (mem_family hc.1)) rest
  have hno : ∀ u ∈ downloadStart :: uploadStarts b, ¬u.toList <+: Call.chars (c :: rest) := by
    intro u hu hp
    have hn := firstName_prefix hp
    rw [hname] at hn
    exact not_prefix_of_opens hc hu hn
  have hd : ¬Downloads (Call.chars (c :: rest)) := hno _ List.mem_cons_self
  have hup : ¬Uploads b (Call.chars (c :: rest)) := by
    rintro ⟨u, hu, hp⟩
    exact hno u (List.mem_cons_of_mem _ hu) hp
  refine ⟨hd, hup, ?_⟩
  rw [body, leadLength, if_neg hd, if_neg hup, afterCommas]

theorem prefix_chars_append {a : List Call} (ha : a ≠ []) (b : List Call) :
    Call.chars a <+: Call.chars (a ++ b) := by
  by_cases hb : b = []
  · exact ⟨[], by rw [hb, List.append_nil, List.append_nil]⟩
  · rw [Call.chars_append ha hb]
    exact List.prefix_append _ _

theorem chars_pair (c d : Call) : Call.chars [c, d] = (c.text ++ "," ++ d.text).toList := by
  show (",".intercalate [c.text, d.text]).toList = _
  rw [String.intercalate_cons_cons, String.intercalate_singleton]

theorem text_format (t : String) : (⟨"format", [place t]⟩ : Call).text = "format=" ++ t := by
  have hkey : "format" ++ "=" = "format=" := by decide
  show "format" ++ "=" ++ ":".intercalate [t] = _
  rw [String.intercalate_singleton, hkey]

theorem download_reading (b : Backend) (source : PixelFormat) (rest : List Call) :
    Downloads (Call.chars (⟨"hwdownload", []⟩ :: formatCall source :: rest)) ∧
      ¬Uploads b (Call.chars (⟨"hwdownload", []⟩ :: formatCall source :: rest)) ∧
      body b (Call.chars (⟨"hwdownload", []⟩ :: formatCall source :: rest)) =
        Call.chars rest := by
  have hd : Downloads (Call.chars (⟨"hwdownload", []⟩ :: formatCall source :: rest)) := by
    refine List.IsPrefix.trans ?_ (prefix_chars_append (a := [⟨"hwdownload", []⟩,
      formatCall source]) (List.cons_ne_nil _ _) rest)
    have hstart : "hwdownload" ++ "," ++ ("format=" ++ source.text) =
        downloadStart ++ source.text := by
      rw [← String.append_assoc]
      rfl
    rw [chars_pair, formatCall, text_format]
    show _ <+: ("hwdownload" ++ "," ++ ("format=" ++ source.text)).toList
    rw [hstart, String.toList_append]
    exact List.prefix_append _ _
  refine ⟨hd, ?_, ?_⟩
  · rintro ⟨u, hu, hp⟩
    have hn := firstName_prefix hp
    rw [Call.firstName_chars (by decide)] at hn
    have hall : ∀ cs ∈ ["format".toList, "hwupload_cuda".toList],
        ¬cs <+: "hwdownload".toList := by
      decide
    exact hall _ (firstName_mem_of_upload hu) hn
  · rw [body, leadLength, if_pos hd]
    refine Call.afterCommas_chars (a := [⟨"hwdownload", []⟩, formatCall source]) ?_ rest
    intro c hc
    rcases List.mem_cons.mp hc with rfl | hc
    · decide
    · rw [List.mem_singleton.mp hc]
      exact not_comma_formatCall source

theorem chars_uploadCalls {b : Backend} (hb : b.isHardware = true)
    (requested : Option PixelFormat) :
    ∃ u ∈ uploadStarts b, Call.chars (uploadCalls b requested) = u.toList := by
  cases b with
  | software => cases hb
  | cuda =>
    cases requested with
    | none => exact ⟨_, List.mem_cons_self, rfl⟩
    | some p =>
      refine ⟨_, List.mem_cons_of_mem _ (List.mem_map_of_mem p.wire.mem_all), ?_⟩
      show Call.chars [formatCall p, ⟨"hwupload_cuda", []⟩] = _
      rw [chars_pair, formatCall, text_format, String.append_assoc]
      rfl
  | qsv =>
    obtain ⟨q, hq⟩ : ∃ q, q = (requested.getD .yuv420p).semiPlanar := ⟨_, rfl⟩
    refine ⟨_, List.mem_map_of_mem q.wire.mem_all, ?_⟩
    show Call.chars [formatCall _, _] = _
    rw [chars_pair, formatCall, text_format, String.append_assoc, ← hq]
    rfl
  | vaapi =>
    obtain ⟨q, hq⟩ : ∃ q, q = (requested.getD .yuv420p).semiPlanar := ⟨_, rfl⟩
    refine ⟨_, List.mem_map_of_mem q.wire.mem_all, ?_⟩
    show Call.chars [⟨"format", [place _]⟩, _] = _
    rw [chars_pair, text_format, String.append_assoc, String.append_assoc, String.append_assoc,
      ← hq]
    rfl

theorem uploadCalls_eq {b : Backend} (hb : b.isHardware = true) (requested : Option PixelFormat) :
    (∃ c d, uploadCalls b requested = [c, d] ∧ c.name = "format") ∨
      uploadCalls b requested = [⟨"hwupload_cuda", []⟩] := by
  cases b with
  | software => cases hb
  | cuda =>
    cases requested with
    | none => exact Or.inr rfl
    | some p => exact Or.inl ⟨_, _, rfl, rfl⟩
  | qsv | vaapi => exact Or.inl ⟨_, _, rfl, rfl⟩

theorem not_comma_mem_uploadCalls {b : Backend} (requested : Option PixelFormat) :
    ∀ c ∈ uploadCalls b requested, ',' ∉ c.text.toList := by
  have hmove : ∀ c ∈ [⟨"hwupload_cuda", []⟩, ⟨"hwupload", [keyed "extra_hw_frames" "64"]⟩,
      (⟨"hwupload", []⟩ : Call)], ',' ∉ c.text.toList := by
    decide
  have hsurface : ∀ p : PixelFormat,
      ',' ∉ (⟨"format", [place (p.text ++ "|vaapi")]⟩ : Call).text.toList := by
    intro p
    refine Call.not_comma_text (by decide) ?_
    intro a ha
    rw [List.mem_singleton.mp ha]
    show ',' ∉ (p.text ++ "|vaapi").toList
    rw [String.toList_append, List.mem_append, not_or]
    exact ⟨not_comma_text p, by decide⟩
  intro c hc
  cases b with
  | software => cases hc
  | cuda =>
    cases requested with
    | none => exact hmove c (by simpa [uploadCalls] using Or.inl hc)
    | some p =>
      rcases List.mem_cons.mp hc with rfl | hc
      · exact not_comma_formatCall p
      · exact hmove c (List.mem_cons.mpr (Or.inl (List.mem_singleton.mp hc)))
  | qsv =>
    rcases List.mem_cons.mp hc with rfl | hc
    · exact not_comma_formatCall _
    · rw [List.mem_singleton.mp hc]
      exact hmove _ (by simp)
  | vaapi =>
    rcases List.mem_cons.mp hc with rfl | hc
    · exact hsurface _
    · rw [List.mem_singleton.mp hc]
      exact hmove _ (by simp)

theorem upload_reading {b : Backend} (hb : b.isHardware = true) (requested : Option PixelFormat)
    (rest : List Call) :
    ¬Downloads (Call.chars (uploadCalls b requested ++ rest)) ∧
      Uploads b (Call.chars (uploadCalls b requested ++ rest)) ∧
      body b (Call.chars (uploadCalls b requested ++ rest)) = Call.chars rest := by
  have hcommas := Call.afterCommas_chars (not_comma_mem_uploadCalls (b := b) requested) rest
  have hup : Uploads b (Call.chars (uploadCalls b requested ++ rest)) := by
    obtain ⟨u, hu, ht⟩ := chars_uploadCalls hb requested
    refine ⟨u, hu, ht ▸ prefix_chars_append ?_ rest⟩
    rcases uploadCalls_eq hb requested with ⟨c, d, h, -⟩ | h <;> rw [h] <;>
      exact List.cons_ne_nil _ _
  -- the name at the start tells an upload from a download, and how long it is
  have hname : ∀ {c : Call} {n : String} (more : List Call), c.name = n →
      n ∈ ["format", "hwupload_cuda"] →
      ¬Downloads (Call.chars (c :: more)) ∧
        ("hwupload_cuda".toList <+: Call.chars (c :: more) → n = "hwupload_cuda") := by
    rintro c n more rfl hn
    have hall : ∀ n ∈ ["format", "hwupload_cuda"], n.toList.all isNameChar = true ∧
        ¬firstName downloadStart.toList <+: n.toList ∧
        (firstName "hwupload_cuda".toList <+: n.toList → n = "hwupload_cuda") := by
      decide
    obtain ⟨hchars, hdown, hcuda⟩ := hall c.name hn
    have hfirst := Call.firstName_chars hchars more
    exact ⟨fun hp => hdown (hfirst ▸ firstName_prefix hp),
      fun hp => hcuda (hfirst ▸ firstName_prefix hp)⟩
  rcases uploadCalls_eq hb requested with ⟨c, d, h, hc⟩ | h
  · rw [h] at hcommas hup ⊢
    have hdown : ¬Downloads (Call.chars ([c, d] ++ rest)) := (hname ([d] ++ rest) hc (by decide)).1
    have hlong : ¬"hwupload_cuda".toList <+: Call.chars ([c, d] ++ rest) := by
      intro hp
      exact absurd ((hname ([d] ++ rest) hc (by decide)).2 hp) (by decide)
    refine ⟨hdown, hup, ?_⟩
    rw [body, leadLength, if_neg hdown, if_pos hup, if_neg hlong]
    exact hcommas
  · rw [h] at hcommas hup ⊢
    have hdown : ¬Downloads (Call.chars ([⟨"hwupload_cuda", []⟩] ++ rest)) :=
      (hname rest rfl (by decide)).1
    have hshort : "hwupload_cuda".toList <+: Call.chars ([⟨"hwupload_cuda", []⟩] ++ rest) :=
      prefix_chars_append (a := [⟨"hwupload_cuda", []⟩]) (List.cons_ne_nil _ _) rest
    refine ⟨hdown, hup, ?_⟩
    rw [body, leadLength, if_neg hdown, if_pos hup, if_pos hshort]
    exact hcommas

/-! ## Agreement -/

namespace VideoFilter

variable {b : Backend} {f : Frame}

/-- The text names the format that the frames have, if the filter declares that one. -/
theorem format_agrees {v : VideoFilter}
    (h : (v.next f).pixelFormat = v.declared?.or f.pixelFormat) :
    (∀ x, v.lastFormat = some x → ∃ p, (v.next f).pixelFormat = some p ∧ p.text.toList = x) ∧
      (v.lastFormat = none → (v.next f).pixelFormat = f.pixelFormat) := by
  rw [v.lastFormat_eq, h]
  cases v.declared? with
  | none => exact ⟨fun x hx => (by cases hx), fun _ => rfl⟩
  | some p => exact ⟨fun x hx => ⟨p, rfl, Option.some.inj hx⟩, fun hn => (by cases hn)⟩

theorem on_reading {b' : Backend} {w : FilterWork} (hb : b' = b ∨ b' = .software)
    (hw : w.suits b' = true) :
    (Downloads (on b' f w).text.toList ↔ f.memory = .hardware ∧ b'.memory = .software) ∧
      (Uploads b (on b' f w).text.toList ↔ f.memory = .software ∧ b'.memory = .hardware) ∧
      body b (on b' f w).text.toList = Call.chars (w.calls b') := by
  obtain ⟨c, rest, hc, ho, -⟩ := w.calls_eq hw
  have htext : (on b' f w).text.toList =
      Call.chars ((Transfer.toward? b' f b'.memory).elim [] Transfer.calls ++ c :: rest) := by
    rw [← hc]
    show Call.chars ((work b' (Transfer.toward? b' f b'.memory) w).calls) = _
    cases Transfer.toward? b' f b'.memory <;> rfl
  rw [htext, hc]
  by_cases hs : f.memory = b'.memory
  · -- no move
    rw [toward?_self b' hs, hs]
    obtain ⟨hd, hu, hbody⟩ := plain_reading (b := b) ho rest
    refine ⟨iff_of_false hd ?_, iff_of_false hu ?_, hbody⟩ <;>
      cases b'.memory <;> decide
  rcases Frame.memory_cases hs with ⟨hh, hm, hf⟩ | ⟨hm, hf⟩
  · -- a move up, by the family of the path
    have hbb : b' = b := hb.resolve_right fun hs => by rw [hs] at hh; cases hh
    rw [hm, hf, toward?_up hh hf]
    subst hbb
    obtain ⟨hd, hu, hbody⟩ := upload_reading hh (requestedBy b' f) (c :: rest)
    exact ⟨iff_of_false hd (by decide), iff_of_true hu ⟨rfl, rfl⟩, hbody⟩
  · -- a move down
    rw [hm, hf, toward?_down b' hf]
    obtain ⟨hd, hu, hbody⟩ := download_reading b (f.pixelFormat.getD .nv12) (c :: rest)
    exact ⟨iff_of_true hd ⟨rfl, rfl⟩, iff_of_false hu (by decide), hbody⟩

/-- **Work, with the move it needs.**  Frames that come down from an accelerator have a known
format. -/
theorem textAgrees_on {b' : Backend} {w : FilterWork} (hb : b' = b ∨ b' = .software)
    (hw : w.suits b' = true)
    (hp : b'.memory = .software → f.memory = .hardware → f.pixelFormat.isSome) :
    (on b' f w).TextAgrees b f := by
  obtain ⟨hformat, hunchanged⟩ := format_agrees (pixelFormat_next_on w hp)
  obtain ⟨c, rest, hc, ho, hall⟩ := w.calls_eq hw
  obtain ⟨hdevice, hhost⟩ := belongs_iff hb
    (fun h => ho.2 (by rw [h]; decide) : c.name ≠ "setsar") hall
  have hm : ((on b' f w).next f).memory = b'.memory := next_work_memory _ _ _ _
  obtain ⟨hdownload, hupload, hbody⟩ := on_reading (b := b) (f := f) hb hw
  constructor
  · rw [hm]
    exact hdownload
  · rw [hm]
    exact hupload
  · intro _
    rw [hm, hbody, hc]
    exact hdevice
  · intro _
    rw [hm, hbody, hc]
    exact hhost
  · intro _
    have hbare : body b (on b' f w).withoutTexts.text.toList =
        Call.chars (w.withoutTexts.calls b') :=
      (on_reading (f := f) hb (FilterWork.suits_withoutTexts hw)).2.2
    rw [hm, hbare, ← familyIn_memory hb]
    exact FilterWork.calledNames_calls hw
  · exact hformat
  · exact hunchanged

/-- **A download of its own** may convert the frames on the host. -/
theorem textAgrees_download (hf : f.memory = .hardware) (target : Option PixelFormat) :
    (download f target).TextAgrees b f := by
  obtain ⟨hformat, hunchanged⟩ := format_agrees (pixelFormat_next_download f target)
  obtain ⟨source, hs⟩ : ∃ s, s = f.pixelFormat.getD .nv12 := ⟨_, rfl⟩
  obtain ⟨more, hmore⟩ : ∃ m : Option PixelFormat,
      (download f target).text.toList =
        Call.chars (⟨"hwdownload", []⟩ :: formatCall source :: (m.map formatCall).toList) := by
    refine ⟨(target.filter fun t => !t.sameWire source).filter fun t => !t.sameWire source, ?_⟩
    show Call.chars (downloadCalls _ _) = _
    rw [downloadCalls_eq, hs]
  have hm : ((download f target).next f).memory = .software := rfl
  obtain ⟨hd, hu, hbody⟩ := download_reading b source (more.map formatCall).toList
  rw [← hmore] at hd hu hbody
  -- behind the move stands a conversion on the host, or nothing
  have hfamilies : body b (download f target).text.toList ≠ [] →
      ¬Belongs (deviceFamily b) (body b (download f target).text.toList) ∧
        Belongs hostFamily (body b (download f target).text.toList) ∧
        ∀ n ∈ calledNames (body b (download f target).text.toList),
          n ∈ hostFamily.map String.toList := by
    intro hne
    rw [hbody] at hne ⊢
    cases more with
    | none => exact absurd rfl hne
    | some p =>
      have hname : ∀ d ∈ [formatCall p], d.name ∈ hostFamily := by
        intro d hd
        rw [List.mem_singleton.mp hd]
        show "format" ∈ hostFamily
        decide
      have hne : (formatCall p).name ≠ "setsar" := by
        show "format" ≠ "setsar"
        decide
      have hfamily : Backend.software = b ∨ Backend.software = .software := .inr rfl
      obtain ⟨hdev, hhost⟩ := belongs_iff hfamily hne hname
      refine ⟨fun h => absurd (hdev.mp h) (by decide), hhost.mpr rfl, ?_⟩
      show ∀ n ∈ calledNames (Call.chars [formatCall p]), _
      rw [Call.calledNames_chars (List.cons_ne_nil _ _)
        (List.forall_mem_singleton.mpr (not_comma_formatCall p))
        (fun d hd => isNameChar_of_mem_family (b := b) (mem_family (m := .software) (hname d hd)))]
      intro n hn
      obtain ⟨d, hd, rfl⟩ := List.mem_map.mp hn
      exact List.mem_map_of_mem (hname d hd)
  constructor
  · rw [hm, hf]
    exact iff_of_true hd ⟨rfl, rfl⟩
  · rw [hm, hf]
    exact iff_of_false hu (by decide)
  · intro hne
    rw [hm]
    exact iff_of_false (hfamilies hne).1 (by decide)
  · intro hne
    rw [hm]
    exact iff_of_true (hfamilies hne).2.1 rfl
  · intro hne
    rw [hm]
    exact (hfamilies hne).2.2
  · exact hformat
  · exact hunchanged

/-- **An upload of its own.** -/
theorem textAgrees_upload (hb : b.isHardware = true) (hf : f.memory = .software)
    (p : PixelFormat) : (upload b (some p)).TextAgrees b f := by
  obtain ⟨hformat, hunchanged⟩ := format_agrees (pixelFormat_next_upload hb p f)
  have hm : ((upload b (some p)).next f).memory = .hardware := by
    show ((Transfer.upload b (some p)).next f).memory = _
    rw [Transfer.next, hb]
    rfl
  have htext : (upload b (some p)).text.toList = Call.chars (uploadCalls b (some p) ++ []) := by
    rw [List.append_nil]
    rfl
  obtain ⟨hd, hu, hbody⟩ := upload_reading hb (some p) []
  rw [← htext] at hd hu hbody
  have hempty : body b (upload b (some p)).text.toList = [] := hbody
  constructor
  · rw [hm, hf]
    exact iff_of_false hd (by decide)
  · rw [hm, hf]
    exact iff_of_true hu ⟨rfl, rfl⟩
  · exact fun hne => absurd hempty hne
  · exact fun hne => absurd hempty hne
  · exact fun hne => absurd hempty hne
  · exact hformat
  · exact hunchanged

end VideoFilter

end Playout
