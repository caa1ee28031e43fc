import Playout.Proofs.Command.Amounts

/-!
# The options of inputs

An option that is added to an input is kept if it applies there, and what an input carries into a
command is told by the options that it has kept.

* `InputFile.options_withOptions`: the options of a new input are those that apply, in their order.
* `tells_append`, `tells_flatMap`: what words tell that are laid end to end.
* `Pipeline.inputWords`: the words before the path of an input.
* `Pipeline.Suits`: the options of an input apply to it, and its words are those of its kind;
  `Pipeline.suits_of_applies`: that the options apply is all that it takes.
-/

namespace Playout

namespace InputFile

/-! ## Options that are added -/

theorem options_foldl_add (os : List InputOption) (f : InputFile) :
    (os.foldl add f).options = f.options ++ os.filter fun o => o.appliesTo f.kind := by
  induction os generalizing f with
  | nil => simp
  | cons o rest ih =>
    rw [List.foldl_cons, ih, options_add, kind_add, List.append_assoc, ← List.filter_append,
      List.singleton_append]

/-- **The options of a new input** are those that apply to it, in the order in which they came. -/
theorem options_withOptions (path : String) (kind : InputKind) (os : List InputOption) :
    (withOptions path kind os).options = os.filter fun o => o.appliesTo kind :=
  options_foldl_add os ⟨path, kind, []⟩

theorem mem_options_withOptions {path : String} {kind : InputKind} {os : List InputOption}
    {o : InputOption} :
    o ∈ (withOptions path kind os).options ↔ o ∈ os ∧ o.appliesTo kind = true := by
  rw [options_withOptions, List.mem_filter]

def Applies (f : InputFile) : Prop := ∀ o ∈ f.options, o.appliesTo f.kind = true

theorem applies_of_options_eq_nil {f : InputFile} (h : f.options = []) : f.Applies := by
  intro o ho
  rw [h] at ho
  cases ho

theorem applies_withOptions (path : String) (kind : InputKind) (os : List InputOption) :
    (withOptions path kind os).Applies := by
  intro o ho
  rw [kind_withOptions]
  exact (mem_options_withOptions.mp ho).2

end InputFile

/-! ## What words tell -/

section

variable {words rest : List String} {option value w v : String}

theorem tells_append (h : ∀ w ∈ rest.head?, IsOption w) :
    Tells (words ++ rest) option value ↔ Tells words option value ∨ Tells rest option value := by
  unfold Tells
  rw [List.infix_append_iff, ← or_and_right]
  constructor
  · rintro ⟨hw | hr | ⟨before, behind, heq, hsuffix, hprefix⟩, hv⟩
    · exact ⟨.inl hw, hv⟩
    · exact ⟨.inr hr, hv⟩
    · -- the seam lies before the option, or behind it, or behind the value
      rcases before with _ | ⟨x, _ | ⟨y, tail⟩⟩
      · rw [List.nil_append] at heq
        exact ⟨.inr (heq ▸ hprefix.isInfix), hv⟩
      · have hbehind : [value] = behind := (List.cons.inj heq).2
        obtain ⟨tail, rfl⟩ := hbehind ▸ hprefix
        exact absurd (h value rfl) hv
      · have htail : [] = tail ++ behind := (List.cons.inj (List.cons.inj heq).2).2
        rw [(List.append_eq_nil_iff.mp htail.symm).2, List.append_nil] at heq
        exact ⟨.inl (heq ▸ hsuffix.isInfix), hv⟩
  · rintro ⟨hw | hr, hv⟩
    · exact ⟨.inl hw, hv⟩
    · exact ⟨.inr (.inl hr), hv⟩

theorem tells_pair :
    Tells [w, v] option value ↔ option = w ∧ value = v ∧ ¬IsOption value := by
  simp [Tells, List.infix_cons_iff, and_assoc]

theorem Tells.option_mem (h : Tells words option value) : option ∈ words :=
  h.1.subset List.mem_cons_self

theorem tells_flatMap {α : Type} {l : List α} {f : α → List String}
    (h : ∀ x ∈ l, Phrase (fun _ => True) (f x)) :
    Tells (l.flatMap f) option value ↔ ∃ x ∈ l, Tells (f x) option value := by
  induction l with
  | nil => simp [Tells]
  | cons x l ih =>
    rw [List.forall_mem_cons] at h
    rw [List.flatMap_cons, tells_append (Phrase.flatMap h.2).starts, ih h.2,
      List.exists_mem_cons_iff]

end

/-! ## The words of an input -/

theorem not_isOption_size (s : Size) : ¬IsOption s.text := by
  have hs : s.text.toList = (toString s.width.toNat).toList ++
      ("x".toList ++ (toString s.height.toNat).toList) := by
    rw [Size.text, String.toList_append, String.toList_append, List.append_assoc]
  exact not_isOption_of_digits hs (toList_toString_ne_nil _) (not_mem_toString (by decide) _)

theorem ne_of_isOption {w v : String} (hw : IsOption w) (hv : ¬IsOption v) : w ≠ v := by
  rintro rfl
  exact hv hw

namespace InputOption

variable {o : InputOption} {k : InputKind} {w value : String}

/-- The options of the command that an input option writes, with values that look like one. -/
def flags (o : InputOption) (k : InputKind) : List String :=
  match o with
  | seek _ => ["-ss"]
  | copyTimestamps => ["-copyts"]
  | infiniteLoop => if k.isStill then ["-loop"] else ["-stream_loop", "-1"]
  | readrate _ => ["-readrate", "-readrate_initial_burst"]
  | doNotIgnoreLoop => ["-ignore_loop"]
  | concatFormat => ["-f", "-safe", "-protocol_whitelist", "-probesize"]
  | lavfiFormat => ["-f"]
  | rawVideoFormat => ["-f", "-pix_fmt", "-s", "-r"]

/-- What looks like an option among the words of an input option is one of these. -/
theorem mem_flags (hw : IsOption w) (h : w ∈ o.arguments k) : w ∈ o.flags k := by
  cases o with
  | seek start =>
    rcases List.mem_pair.mp h with rfl | rfl
    · exact List.mem_cons_self
    · exact absurd hw (not_isOption_clock start)
  | copyTimestamps => exact h
  | infiniteLoop =>
    have hstill : ∀ w ∈ ["-loop", "1"], IsOption w → w ∈ ["-loop"] := by decide
    by_cases hk : k.isStill = true
    · rw [arguments, if_pos hk] at h
      rw [flags, if_pos hk]
      exact hstill w h hw
    · rw [arguments, if_neg hk] at h
      rw [flags, if_neg hk]
      exact h
  | readrate burst =>
    have hvalue : ¬IsOption "1.0" := by decide
    have hburst := not_isOption_toString burst.toNat
    dsimp only [arguments, flags] at h ⊢
    rcases List.mem_append.mp h with h | h
    · rcases List.mem_pair.mp h with rfl | rfl
      · exact List.mem_cons_self
      · exact absurd hw hvalue
    · split at h
      · rcases List.mem_pair.mp h with rfl | rfl
        · exact List.mem_cons_of_mem _ List.mem_cons_self
        · exact absurd hw hburst
      · cases h
  | doNotIgnoreLoop =>
    have hloop : ∀ w ∈ ["-ignore_loop", "0"], IsOption w → w ∈ ["-ignore_loop"] := by decide
    exact hloop w h hw
  | concatFormat =>
    have hconcat : ∀ w ∈ ["-f", "concat", "-safe", "0", "-protocol_whitelist",
        "file,http,tcp,https,tcp,tls", "-probesize", "32"],
        IsOption w → w ∈ ["-f", "-safe", "-protocol_whitelist", "-probesize"] := by decide
    exact hconcat w h hw
  | lavfiFormat =>
    have hlavfi : ∀ w ∈ ["-f", "lavfi"], IsOption w → w ∈ ["-f"] := by decide
    exact hlavfi w h hw
  | rawVideoFormat =>
    cases k with
    | graphics size rate =>
      have hsize := not_isOption_size size
      have hrate := not_isOption_toString rate.toNat
      have hvalues : ¬IsOption "rawvideo" ∧ ¬IsOption "bgra" := by decide
      simp only [arguments, List.mem_cons, List.not_mem_nil, or_false] at h
      rcases h with rfl | rfl | rfl | rfl | rfl | rfl | rfl | rfl <;>
        simp_all [flags]
    | _ => cases h

/-- The format of an input is told by three options only. -/
theorem tells_format (h : Tells (o.arguments k) "-f" value) :
    (o = concatFormat ∧ value = "concat") ∨ (o = lavfiFormat ∧ value = "lavfi") ∨
      (o = rawVideoFormat ∧ value = "rawvideo") := by
  have hf : "-f" ∈ o.flags k := mem_flags (by decide) h.option_mem
  cases o with
  | concatFormat =>
    have hvalue : value = "concat" ∧ ¬IsOption value := by
      simpa [arguments, Tells, List.infix_cons_iff] using h
    exact .inl ⟨rfl, hvalue.1⟩
  | lavfiFormat => exact .inr (.inl ⟨rfl, (tells_pair.mp h).2.1⟩)
  | rawVideoFormat =>
    cases k with
    | graphics size rate =>
      have hsize : "-f" ≠ size.text := ne_of_isOption (by decide) (not_isOption_size size)
      have hvalue : value = "rawvideo" ∧ ¬IsOption value := by
        simpa [arguments, Tells, List.infix_cons_iff, hsize] using h
      exact .inr (.inr ⟨rfl, hvalue.1⟩)
    | _ => simp [arguments, Tells] at h
  | infiniteLoop =>
    by_cases hk : k.isStill = true
    · simp [flags, hk] at hf
    · simp [flags, hk] at hf
  | _ => simp [flags] at hf

/-- The start of an input is told by one option only. -/
theorem tells_start_iff :
    Tells (o.arguments k) "-ss" value ↔ ∃ start, o = seek start ∧ value = start.clock := by
  constructor
  · intro h
    have hs : "-ss" ∈ o.flags k := mem_flags (by decide) h.option_mem
    cases o with
    | seek start => exact ⟨start, rfl, (tells_pair.mp h).2.1⟩
    | infiniteLoop =>
      by_cases hk : k.isStill = true
      · simp [flags, hk] at hs
      · simp [flags, hk] at hs
    | _ => simp [flags] at hs
  · rintro ⟨start, rfl, rfl⟩
    exact tells_pair.mpr ⟨rfl, rfl, not_isOption_clock start⟩

/-- What applies to a still image writes two options only. -/
theorem mem_flags_of_still (ho : o.appliesTo k = true) (hk : k.isStill = true)
    (h : w ∈ o.flags k) : w = "-copyts" ∨ w = "-loop" := by
  cases o with
  | copyTimestamps => exact .inl (List.mem_singleton.mp h)
  | infiniteLoop =>
    rw [flags, if_pos hk] at h
    exact .inr (List.mem_singleton.mp h)
  | _ => cases k <;> simp_all [appliesTo, InputKind.isStill]

theorem loop_not_mem_flags (hk : k.isStill = false) : "-loop" ∉ o.flags k := by
  cases o <;> simp [flags, hk]

theorem not_mem_flags_of_decoder (hw : w ∈ ["-c:v", "-deint"]) : w ∉ o.flags k := by
  rcases List.mem_pair.mp hw with rfl | rfl
  all_goals
    cases o with
    | infiniteLoop => cases hk : k.isStill <;> simp [flags, hk]
    | _ => simp [flags]

end InputOption

theorem Decoder.mem_options {d : Decoder} {w : String} (hw : IsOption w) (h : w ∈ d.options) :
    w = "-c:v" ∨ w = "-deint" := by
  rcases List.mem_append.mp h with h | h
  · split at h
    · next name hname =>
      rcases List.mem_pair.mp h with rfl | rfl
      · exact .inl rfl
      · exact absurd hw (not_isOption_name hname)
    · cases h
  · split at h
    · rcases List.mem_pair.mp h with rfl | rfl
      · exact .inr rfl
      · exact absurd hw (by decide)
    · cases h

theorem Step.mem_inputOptions {s : Step} {k : InputKind} {w : String} (hw : IsOption w)
    (h : w ∈ s.inputOptions k) : (w = "-c:v" ∨ w = "-deint") ∧ k.isVideo = true := by
  cases s with
  | decoder d =>
    dsimp only [inputOptions] at h
    split at h
    · next hk => exact ⟨Decoder.mem_options hw h, hk⟩
    · cases h
  | _ => cases h

namespace Pipeline

variable {p : Pipeline} {f : InputFile} {option value w : String}

def inputWords (p : Pipeline) (f : InputFile) : List String :=
  f.arguments ++ p.steps.flatMap fun s => s.inputOptions f.kind

theorem inputArguments_eq (p : Pipeline) (f : InputFile) :
    p.inputArguments f = p.inputWords f ++ ["-i", f.path] := rfl

theorem infix_inputWords {o : InputOption} (h : o ∈ f.options) :
    o.arguments f.kind <:+: p.inputWords f :=
  (infix_flatMap h fun o => o.arguments f.kind).trans (List.prefix_append _ _).isInfix

/-- **What looks like an option before the path of an input** is written by one of its options, or
by the decoder of the video. -/
theorem mem_inputWords (hw : IsOption w) (h : w ∈ p.inputWords f) :
    (∃ o ∈ f.options, w ∈ o.flags f.kind) ∨
      ((w = "-c:v" ∨ w = "-deint") ∧ f.kind.isVideo = true) := by
  rcases List.mem_append.mp h with h | h
  · obtain ⟨o, ho, hword⟩ := List.mem_flatMap.mp h
    exact .inl ⟨o, ho, InputOption.mem_flags hw hword⟩
  · obtain ⟨s, -, hword⟩ := List.mem_flatMap.mp h
    exact .inr (s.mem_inputOptions hw hword)

/-- **What the words of an input tell** beside its decoder and its path is told by one of its
options. -/
theorem tells_inputArguments_iff (ho : IsOption option)
    (hothers : option ∉ ["-i", "-c:v", "-deint"]) :
    Tells (p.inputArguments f) option value ↔
      ∃ o ∈ f.options, Tells (o.arguments f.kind) option value := by
  simp only [List.mem_cons, List.not_mem_nil, or_false, not_or] at hothers
  have hpath : ¬Tells ["-i", f.path] option value := fun h => hothers.1 (tells_pair.mp h).1
  have hsteps : ¬Tells (p.steps.flatMap fun s => s.inputOptions f.kind) option value := by
    intro h
    obtain ⟨s, -, hword⟩ := List.mem_flatMap.mp h.option_mem
    exact not_or.mpr hothers.2 (s.mem_inputOptions ho hword).1
  have hphrase : Phrase (fun _ => True) (p.steps.flatMap fun s => s.inputOptions f.kind) :=
    .flatMap fun s _ => s.phrase_inputOptions fun _ _ _ _ _ => trivial
  rw [inputArguments_eq, tells_append (by simp [IsOption]), or_iff_left hpath, inputWords,
    tells_append hphrase.starts, or_iff_left hsteps, InputFile.arguments,
    tells_flatMap fun o _ => o.phrase_arguments f.kind]

/-! ## Options that suit their input -/

/-- The options of an input apply to it, and the words before its path are those of its kind: a
still image is looped as one and not sought, paced or played again, what moves is not looped as a
still image is, raw frames and generated sound are read from inputs of their own only, and only the
video has a decoder. -/
structure Suits (p : Pipeline) (f : InputFile) : Prop where
  applies : f.Applies
  still : f.kind.isStill = true →
    ∀ w ∈ ["-ss", "-readrate", "-stream_loop", "-ignore_loop"], w ∉ p.inputWords f
  moving : f.kind.isStill = false → "-loop" ∉ p.inputWords f
  rawVideo : Tells (p.inputArguments f) "-f" "rawvideo" → ∃ size rate, f.kind = .graphics size rate
  lavfi : Tells (p.inputArguments f) "-f" "lavfi" → f.kind = .silence
  decoder : ∀ w ∈ ["-c:v", "-deint"], w ∈ p.inputWords f → f.kind.isVideo = true

theorem not_mem_of_still (h : f.Applies) (hk : f.kind.isStill = true) (hw : IsOption w)
    (hothers : w ∉ ["-copyts", "-loop", "-c:v", "-deint"]) : w ∉ p.inputWords f := by
  intro hword
  rcases mem_inputWords hw hword with ⟨o, ho, hflag⟩ | ⟨hdecoder, -⟩
  · rcases InputOption.mem_flags_of_still (h o ho) hk hflag with rfl | rfl <;> simp at hothers
  · rcases hdecoder with rfl | rfl <;> simp at hothers

/-- **An input whose options apply to it is suited by its words.** -/
theorem suits_of_applies (h : f.Applies) : p.Suits f where
  applies := h
  still := by
    intro hk w hw
    simp only [List.mem_cons, List.not_mem_nil, or_false] at hw
    rcases hw with rfl | rfl | rfl | rfl <;>
      exact not_mem_of_still h hk (by decide) (by decide)
  moving := by
    intro hk hword
    rcases mem_inputWords (by decide) hword with ⟨o, -, hflag⟩ | ⟨hdecoder, -⟩
    · exact InputOption.loop_not_mem_flags hk hflag
    · revert hdecoder
      decide
  rawVideo := by
    intro htells
    obtain ⟨o, ho, htells⟩ := (tells_inputArguments_iff (by decide) (by decide)).mp htells
    have happlies := h o ho
    rcases InputOption.tells_format htells with ⟨-, he⟩ | ⟨-, he⟩ | ⟨rfl, -⟩
    · exact absurd he (by decide)
    · exact absurd he (by decide)
    · cases hk : f.kind <;> simp_all [InputOption.appliesTo]
  lavfi := by
    intro htells
    obtain ⟨o, ho, htells⟩ := (tells_inputArguments_iff (by decide) (by decide)).mp htells
    have happlies := h o ho
    rcases InputOption.tells_format htells with ⟨-, he⟩ | ⟨rfl, -⟩ | ⟨-, he⟩
    · exact absurd he (by decide)
    · cases hk : f.kind <;> simp_all [InputOption.appliesTo]
    · exact absurd he (by decide)
  decoder := by
    intro w hw hword
    have hoption : IsOption w := by rcases List.mem_pair.mp hw with rfl | rfl <;> decide
    rcases mem_inputWords hoption hword with ⟨o, -, hflag⟩ | ⟨-, hk⟩
    · exact absurd hflag (InputOption.not_mem_flags_of_decoder hw)
    · exact hk

end Pipeline

end Playout
