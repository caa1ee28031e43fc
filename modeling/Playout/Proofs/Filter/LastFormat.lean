import Playout.Proofs.Filter.Picture
import Playout.Proofs.Filter.Reading

/-!
# The last format in a filter's text

A filter that changes the pixel format names the new one in its text, behind the word `format`;
and no format is named after that one.

* `VideoFilter.lastFormat_eq`: the last format that a text names is the one the filter declares.
* `VideoFilter.pixelFormat_next_on` and the lemmas after it: the frames have the declared format.
-/

namespace Playout

open Transfer

/-! ## Reading the format -/

/-- The work without the path of subtitles and the folder of their fonts. -/
def FilterWork.withoutPaths : FilterWork → FilterWork
  | subtitles _ index fonts => subtitles "" index (fonts.map fun _ => "")
  | w => w

namespace VideoFilter

def withoutPaths : VideoFilter → VideoFilter
  | work b lead w => work b lead w.withoutPaths
  | move t => move t

/-- The last pixel format that the filter's text names: the word after the last `format`. -/
def lastFormat (v : VideoFilter) : Option (List Char) :=
  lastAfter "format".toList (words v.withoutPaths.text.toList)

end VideoFilter

/-! ## Words of arguments -/

theorem key_ne_text (p : PixelFormat) : "format".toList ≠ p.text.toList := by
  unfold PixelFormat.text
  cases p.wire <;> decide

theorem all_text (p : PixelFormat) :
    (p.text.toList.all fun x => !isSeparator x) = true := by
  unfold PixelFormat.text
  cases p.wire <;> decide

theorem words_text (p : PixelFormat) : words p.text.toList = [p.text.toList] :=
  words_eq_singleton (all_text p)

theorem key_ne_toString (n : Nat) : "format".toList ≠ (toString n).toList := by
  intro h
  have hf : 'f' ∈ (toString n).toList := h ▸ by decide
  rw [Nat.toString_eq_ofList_toDigits, String.toList_ofList] at hf
  exact absurd (Nat.isDigit_of_mem_toDigits (by decide) (by decide) hf) (by decide)

/-- An argument that is no number, or a number, does not name the key. -/
theorem key_not_mem_placeNat (n : Nat) : "format".toList ∉ (placeNat n).words := by
  rw [placeNat, Argument.words_place, words_toString, List.mem_singleton]
  exact key_ne_toString n

theorem key_not_mem_keyedNat {k : String} (hk : "format".toList ∉ words k.toList) (n : Nat) :
    "format".toList ∉ (keyedNat k n).words := by
  rw [keyedNat, Argument.words_keyed, words_toString, List.mem_append, List.mem_singleton]
  exact not_or.mpr ⟨hk, key_ne_toString n⟩

theorem words_key : words "format".toList = ["format".toList] := by
  decide

theorem words_keyed_format (p : PixelFormat) :
    (keyed "format" p.text).words = ["format".toList, p.text.toList] := by
  rw [Argument.words_keyed, words_text]
  rfl

/-! ## Declared formats -/

def Transfer.declared? : Transfer → Option PixelFormat
  | upload .software _ => none
  | upload .cuda requested => requested
  | upload .qsv requested | upload .vaapi requested => some (requested.getD .yuv420p).semiPlanar
  | download source target => some ((target.filter fun t => !t.sameWire source).getD source)

def FilterWork.declared? : FilterWork → Option PixelFormat
  | tonemap _ p | convert p => some p
  | scale _ p _ => p
  | deinterlace | pad _ | crop _ | subtitles _ _ _ => none

/-- The format that a filter leaves, if it names one. -/
def VideoFilter.declared? : VideoFilter → Option PixelFormat
  | work _ lead w => w.declared?.or (lead.bind Transfer.declared?)
  | move t => t.declared?

/-- What the words of calls say about a format. -/
def Declares (p : Option PixelFormat) (ws : List (List Char)) : Prop :=
  match p with
  | some p => Marks "format".toList p.text.toList ws
  | none => "format".toList ∉ ws

namespace Declares

variable {p q : Option PixelFormat} {ws us : List (List Char)}

theorem lastAfter_eq (h : Declares p ws) :
    lastAfter "format".toList ws = p.map fun p => p.text.toList := by
  cases p with
  | none => exact Playout.lastAfter_eq_none h
  | some p => exact Marks.lastAfter_eq h

/-- The later words decide, if they name a format. -/
theorem append (h : Declares p ws) (hu : Declares q us) : Declares (q.or p) (ws ++ us) := by
  cases q with
  | some q => exact Marks.append_left hu ws
  | none =>
    cases p with
    | some p => exact Marks.append_right h hu
    | none => exact fun hm => (List.mem_append.mp hm).elim h hu

theorem none_append (h : "format".toList ∉ ws) (hu : Declares q us) :
    Declares q (ws ++ us) := by
  have hn : Declares none ws := h
  have := hn.append hu
  rwa [Option.or_none] at this

theorem append_none (h : Declares p ws) (hu : "format".toList ∉ us) :
    Declares p (ws ++ us) := by
  have hn : Declares none us := hu
  exact h.append hn

end Declares

theorem declares_keyed_format (ws : List (List Char)) (p : PixelFormat) :
    Declares (some p) (ws ++ (keyed "format" p.text).words) := by
  refine ⟨ws, [], by rw [words_keyed_format], ?_⟩
  rw [List.mem_singleton]
  exact key_ne_text p

theorem declares_formatCall (p : PixelFormat) : Declares (some p) (formatCall p).words := by
  refine ⟨[], [], ?_, ?_⟩
  · show words "format".toList ++ [place p.text].flatMap Argument.words = _
    rw [List.flatMap_singleton, Argument.words_place, words_text, words_key]
    rfl
  · rw [List.mem_singleton]
    exact key_ne_text p

/-- A call whose last argument is a format declares it. -/
theorem declares_call (name : String) (before : List Argument) (p : PixelFormat) :
    Declares (some p) (⟨name, before ++ [keyed "format" p.text]⟩ : Call).words := by
  show Declares (some p) (words name.toList ++ (before ++ [keyed "format" p.text]).flatMap _)
  rw [List.flatMap_append, List.flatMap_singleton, ← List.append_assoc]
  exact declares_keyed_format _ p

theorem key_not_mem_call {name : String} {args : List Argument}
    (hn : "format".toList ∉ words name.toList) (ha : ∀ a ∈ args, "format".toList ∉ a.words) :
    "format".toList ∉ (⟨name, args⟩ : Call).words := by
  intro h
  rcases List.mem_append.mp h with h | h
  · exact hn h
  · obtain ⟨a, hm, hw⟩ := List.mem_flatMap.mp h
    exact ha a hm hw

theorem words_surface (p : PixelFormat) :
    words (p.text ++ "|vaapi").toList = [p.text.toList, "vaapi".toList] := by
  have hbar : "|vaapi".toList = '|' :: "vaapi".toList := by decide
  have hw : words "vaapi".toList = ["vaapi".toList] := by decide
  rw [String.toList_append, hbar, words_append rfl, words_text, hw]
  rfl

/-! ## The calls of moves and of work -/

/-- A download names what the surfaces carry, and then what is to become of it. -/
theorem Transfer.downloadCalls_eq (source : PixelFormat) (target : Option PixelFormat) :
    downloadCalls source target = ⟨"hwdownload", []⟩ :: formatCall source ::
      ((target.filter fun t => !t.sameWire source).map formatCall).toList := by
  cases target with
  | none => rfl
  | some t =>
    rw [downloadCalls, Option.filter_some]
    cases t.sameWire source <;> rfl

theorem Transfer.declares (t : Transfer) : Declares t.declared? (t.calls.flatMap Call.words) := by
  cases t with
  | upload b requested =>
    cases b with
    | software => exact List.not_mem_nil
    | cuda =>
      cases requested with
      | none =>
        show "format".toList ∉ _
        decide
      | some p =>
        show Declares (some p) ((formatCall p).words ++ _)
        exact (declares_formatCall p).append_none (by decide)
    | qsv =>
      show Declares (some _) ((formatCall _).words ++ _)
      exact (declares_formatCall _).append_none (by decide)
    | vaapi =>
      show Declares (some (requested.getD .yuv420p).semiPlanar)
        ((words "format".toList ++ ([place _].flatMap Argument.words)) ++ _)
      rw [List.flatMap_singleton, Argument.words_place, words_surface, words_key]
      refine ⟨[], _, rfl, ?_⟩
      rw [List.mem_cons, not_or]
      exact ⟨key_ne_text _, by decide⟩
  | download source target =>
    have hd : "format".toList ∉ (⟨"hwdownload", []⟩ : Call).words := by decide
    rw [declared?, calls, downloadCalls_eq, List.flatMap_cons, List.flatMap_cons]
    refine Declares.none_append hd ?_
    cases target.filter fun t => !t.sameWire source with
    | none => exact (declares_formatCall source).append_none List.not_mem_nil
    | some t =>
      show Declares (some t) (_ ++ [formatCall t].flatMap Call.words)
      rw [List.flatMap_singleton]
      exact Marks.append_left (declares_formatCall t) _

namespace FilterWork

theorem declares_tonemap (algorithm : String) (p : PixelFormat) (b : Backend) :
    Declares (some p) ((tonemapCalls algorithm p b).flatMap Call.words) := by
  cases b with
  | software =>
    simp only [tonemapCalls, List.flatMap_cons, List.flatMap_nil, List.append_nil]
    exact ((declares_formatCall p).append_left _).append_left _ |>.append_left _
  | cuda =>
    simp only [tonemapCalls, List.flatMap_cons, List.flatMap_nil, List.append_nil]
    refine Marks.append_left (Marks.append_right ?_ (by decide)) _
    exact declares_call "libplacebo" [keyed "tonemapping" algorithm, keyed "colorspace" "bt709",
      keyed "color_primaries" "bt709", keyed "color_trc" "bt709"] p
  | qsv =>
    rw [tonemapCalls, List.flatMap_singleton]
    exact declares_call "vpp_qsv" [keyed "tonemap" "1"] p
  | vaapi =>
    simp only [tonemapCalls, List.flatMap_cons, List.flatMap_nil, List.append_nil]
    refine Marks.append_left (Marks.append_right ?_ (by decide)) _
    exact declares_call "tonemap_opencl" [keyed "tonemap" algorithm, keyed "transfer" "bt709",
      keyed "matrix" "bt709", keyed "primaries" "bt709"] p

theorem key_not_mem_scaler (b : Backend) : "format".toList ∉ words (scaler b).toList := by
  cases b <;> decide

theorem key_not_mem_squareCalls (byHeight : Bool) (b : Backend) :
    "format".toList ∉ (squareCalls byHeight b).flatMap Call.words := by
  cases byHeight <;> cases b <;> decide

/-- What holds of all that a scaling filter can be told holds of what one is told. -/
theorem forall_arguments_resizeCall {P : Argument → Prop} {p : Option PixelFormat}
    (hplace : ∀ n, P (placeNat n)) (hwidth : ∀ n, P (keyedNat "w" n))
    (hheight : ∀ n, P (keyedNat "h" n)) (hflags : P (keyed "flags" "fast_bilinear"))
    (haspect : ∀ x : KeepAspect, P (keyed "force_original_aspect_ratio" x.text))
    (hformat : ∀ q, p = some q → P (keyed "format" q.text)) (r : Resize) (b : Backend) :
    ∀ a ∈ (resizeCall r p b).arguments, P a := by
  have hp : ∀ a ∈ formatArgument p, P a := by
    intro a ha
    cases p with
    | none => cases ha
    | some q =>
      rw [List.mem_singleton.mp ha]
      exact hformat q rfl
  have hbox : ∀ a ∈ [placeNat r.box.width.toNat, placeNat r.box.height.toNat], P a := by
    simp only [List.forall_mem_cons]
    exact ⟨hplace _, hplace _, List.forall_mem_nil _⟩
  have hscale : ∀ c : Backend, c ≠ .qsv → ∀ a ∈ (resizeCall r p c).arguments, P a := by
    intro c hc
    cases hr : r.aspect with
    | none =>
      cases c with
      | qsv => exact absurd rfl hc
      | software =>
        simp only [resizeCall, hr, if_true, List.forall_mem_append, List.forall_mem_singleton]
        exact ⟨⟨⟨hbox, hflags⟩, List.forall_mem_nil _⟩, hp⟩
      | cuda | vaapi =>
        simp only [resizeCall, hr, reduceCtorEq, if_false, List.forall_mem_append]
        exact ⟨⟨⟨hbox, List.forall_mem_nil _⟩, List.forall_mem_nil _⟩, hp⟩
    | some x =>
      cases c with
      | qsv => exact absurd rfl hc
      | software =>
        simp only [resizeCall, hr, if_true, List.forall_mem_append, List.forall_mem_singleton]
        exact ⟨⟨⟨hbox, hflags⟩, haspect x⟩, hp⟩
      | cuda | vaapi =>
        simp only [resizeCall, hr, reduceCtorEq, if_false, List.forall_mem_append,
          List.forall_mem_singleton]
        exact ⟨⟨⟨hbox, List.forall_mem_nil _⟩, haspect x⟩, hp⟩
  by_cases hb : b = .qsv
  · subst hb
    simp only [resizeCall, List.forall_mem_append, List.forall_mem_cons]
    exact ⟨⟨hwidth _, hheight _, List.forall_mem_nil _⟩, hp⟩
  · exact hscale b hb

theorem declares_resizeCall (r : Resize) (p : Option PixelFormat) (b : Backend) :
    Declares p (resizeCall r p b).words := by
  cases p with
  | some p => exact declares_call (scaler b) _ p
  | none =>
    refine key_not_mem_call (key_not_mem_scaler b) (forall_arguments_resizeCall
      key_not_mem_placeNat (key_not_mem_keyedNat (by decide)) (key_not_mem_keyedNat (by decide))
      (by decide) ?_ ?_ r b)
    · intro x
      cases x <;> decide
    · intro q hq
      cases hq

theorem declares_convertCall (p : PixelFormat) (b : Backend) :
    Declares (some p) (convertCall p b).words := by
  cases b with
  | software => exact declares_formatCall p
  | qsv => exact declares_call "vpp_qsv" [] p
  | cuda => exact declares_call "scale_cuda" [] p
  | vaapi => exact declares_call "scale_vaapi" [] p

theorem key_not_mem_padCall (size : Size) (b : Backend) :
    "format".toList ∉ (padCall size b).words := by
  cases b with
  | vaapi =>
    refine key_not_mem_call (by decide) ?_
    simp only [List.forall_mem_cons]
    exact ⟨key_not_mem_keyedNat (by decide) _, key_not_mem_keyedNat (by decide) _,
      by decide, by decide, by decide, by simp⟩
  | software | cuda | qsv =>
    refine key_not_mem_call (by decide) ?_
    simp only [List.forall_mem_cons]
    exact ⟨key_not_mem_placeNat _, key_not_mem_placeNat _, by decide, by decide,
      by decide, by simp⟩

theorem key_not_mem_subtitlesCall (index : UInt32) (fonts : Option String) :
    "format".toList ∉ (subtitlesCall "" index (fonts.map fun _ => "")).words := by
  refine key_not_mem_call (by decide) ?_
  intro a ha
  rcases List.mem_append.mp ha with ha | ha
  · rcases List.mem_cons.mp ha with rfl | ha
    · decide
    · rw [List.mem_singleton.mp ha]
      exact key_not_mem_keyedNat (by decide) _
  · cases fonts with
    | none => cases ha
    | some folder =>
      rw [List.mem_singleton.mp ha]
      show "format".toList ∉ (keyed "fontsdir" (escape "")).words
      decide

theorem declares (b : Backend) (w : FilterWork) :
    Declares w.declared? ((w.withoutPaths.calls b).flatMap Call.words) := by
  cases w with
  | deinterlace =>
    show "format".toList ∉ _
    cases b <;> decide
  | tonemap algorithm p => exact declares_tonemap algorithm p b
  | scale r p square =>
    cases square with
    | none =>
      show Declares p ([resizeCall r p b].flatMap Call.words)
      rw [List.flatMap_singleton]
      exact declares_resizeCall r p b
    | some byHeight =>
      show Declares p ((squareCalls byHeight b ++ [resizeCall r p b]).flatMap Call.words)
      rw [List.flatMap_append, List.flatMap_singleton]
      exact Declares.none_append (key_not_mem_squareCalls byHeight b) (declares_resizeCall r p b)
  | convert p =>
    show Declares (some p) ([convertCall p b].flatMap Call.words)
    rw [List.flatMap_singleton]
    exact declares_convertCall p b
  | pad size =>
    show "format".toList ∉ [padCall size b].flatMap Call.words
    rw [List.flatMap_singleton]
    exact key_not_mem_padCall size b
  | crop size =>
    show "format".toList ∉ [(⟨"crop", _⟩ : Call)].flatMap Call.words
    rw [List.flatMap_singleton]
    refine key_not_mem_call (by decide) ?_
    simp only [List.forall_mem_cons]
    exact ⟨key_not_mem_placeNat _, key_not_mem_placeNat _, by simp⟩
  | subtitles path index fonts =>
    show "format".toList ∉ [subtitlesCall "" index (fonts.map fun _ => "")].flatMap Call.words
    rw [List.flatMap_singleton]
    exact key_not_mem_subtitlesCall index fonts

theorem calls_ne_nil (b : Backend) (w : FilterWork) : w.calls b ≠ [] := by
  cases w with
  | tonemap algorithm p => cases b <;> exact List.cons_ne_nil _ _
  | scale r p square => exact List.append_ne_nil_of_right_ne_nil _ (List.cons_ne_nil _ _)
  | _ => exact List.cons_ne_nil _ _

theorem next_pixelFormat (w : FilterWork) (f : Frame) :
    (w.next f).pixelFormat = w.declared?.or f.pixelFormat := by
  cases w <;> rfl

end FilterWork

/-! ## Filters -/

namespace Transfer

/-- The frames that a filter's family works on have the format that the move names, or their own.
Surfaces that are brought to the host must have a known one. -/
theorem pixelFormat_moved {b : Backend} {f : Frame}
    (h : b.memory = .software → f.memory = .hardware → f.pixelFormat.isSome) :
    (moved b f b.memory).pixelFormat =
      ((toward? b f b.memory).bind declared?).or f.pixelFormat := by
  by_cases hs : f.memory = b.memory
  · rw [toward?_self b hs, moved_self b hs]
    rfl
  rcases Frame.memory_cases hs with ⟨hb, hm, hf⟩ | ⟨hm, hf⟩
  · rw [hm, toward?_up hb hf, moved_up hb hf]
    cases b with
    | software => cases hb
    | cuda => rfl
    | qsv | vaapi => simp [uploaded, requestedBy, declared?]
  · obtain ⟨p, hp⟩ := Option.isSome_iff_exists.mp (h hm hf)
    rw [hm, toward?_down b hf, moved_down b hf, hp]
    rfl

end Transfer

namespace VideoFilter

/-- **The last format that a text names is the one the filter declares.** -/
theorem lastFormat_eq (v : VideoFilter) :
    v.lastFormat = v.declared?.map fun p => p.text.toList := by
  have hwords : ∀ {calls : List Call} {p : Option PixelFormat}, calls ≠ [] →
      Declares p (calls.flatMap Call.words) →
      lastAfter "format".toList (words (Call.chars calls)) = p.map fun p => p.text.toList := by
    intro calls p hne hp
    rw [Call.words_chars hne]
    exact hp.lastAfter_eq
  cases v with
  | work b lead w =>
    have hw := w.declares b
    have hne : w.withoutPaths.calls b ≠ [] := w.withoutPaths.calls_ne_nil b
    cases lead with
    | none =>
      have hd : (work b none w).declared? = w.declared? := Option.or_none
      rw [hd]
      exact hwords hne hw
    | some t =>
      refine hwords (List.append_ne_nil_of_right_ne_nil _ hne) ?_
      show Declares (w.declared?.or t.declared?)
        ((t.calls ++ w.withoutPaths.calls b).flatMap Call.words)
      rw [List.flatMap_append]
      exact t.declares.append hw
  | move t =>
    by_cases hne : t.calls = []
    · have hd : t.declared? = none := by
        have := t.declares
        rw [hne] at this
        cases hd : t.declared? with
        | none => rfl
        | some p =>
          rw [hd] at this
          obtain ⟨a, b, hab, -⟩ := this
          cases a <;> cases hab
      show lastAfter _ (words (Call.chars t.calls)) = t.declared?.map _
      rw [hne, hd]
      decide
    · exact hwords hne t.declares

theorem pixelFormat_next_on {b : Backend} {f : Frame} (w : FilterWork)
    (h : b.memory = .software → f.memory = .hardware → f.pixelFormat.isSome) :
    ((on b f w).next f).pixelFormat = (on b f w).declared?.or f.pixelFormat := by
  show (w.next (moved b f b.memory)).pixelFormat =
    (w.declared?.or ((toward? b f b.memory).bind Transfer.declared?)).or f.pixelFormat
  rw [w.next_pixelFormat, pixelFormat_moved h, Option.or_assoc]

theorem pixelFormat_next_download (f : Frame) (target : Option PixelFormat) :
    ((download f target).next f).pixelFormat =
      (download f target).declared?.or f.pixelFormat := by
  show some ((target.filter _).getD _) = (some (((target.filter _).filter _).getD _)).or _
  rw [Option.filter_filter]
  simp

theorem pixelFormat_next_upload {b : Backend} (hb : b.isHardware = true) (p : PixelFormat)
    (f : Frame) :
    ((upload b (some p)).next f).pixelFormat =
      (upload b (some p)).declared?.or f.pixelFormat := by
  have hn : ((upload b (some p)).next f).pixelFormat = uploaded b f.pixelFormat (some p) := by
    show ((Transfer.upload b (some p)).next f).pixelFormat = _
    rw [Transfer.next, hb]
    rfl
  rw [hn]
  cases b with
  | software => cases hb
  | cuda | qsv | vaapi => rfl

end VideoFilter

end Playout
