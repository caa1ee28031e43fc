import Mathlib.Data.List.Chain
import Playout.Proofs.Plan.Machinery

/-!
# The codecs that a command names

A command is a list of words, and each part of it begins with an option.  So a word that looks like
an option, in a path or a profile, is never followed by a codec; what follows `-c:v` is the name of
the decoder, among the words of an input, and of the encoder, among those of the output.

* `NamesCodec`: a codec is named among words.
* `Phrase`: words that are laid end to end, and the codecs they may name.
* `Pipeline.namesCodec_inputs_iff`, `Pipeline.namesCodec_output_iff`: the codecs named by a command
  are those of its steps; `Pipeline.namesCodec_of_arguments`: no other words name one.
-/

namespace Playout

def IsOption (word : String) : Prop := word.toList.head? = some '-'

instance (word : String) : Decidable (IsOption word) := inferInstanceAs (Decidable (_ = _))

/-- A codec for the video is named: it follows `-c:v`, and is no option itself. -/
def NamesCodec (words : List String) (name : String) : Prop :=
  ["-c:v", name] <:+: words ∧ ¬IsOption name

instance (words : List String) (name : String) : Decidable (NamesCodec words name) :=
  inferInstanceAs (Decidable (_ ∧ _))

/-- What may follow a word: beside an option, only a codec after `-c:v`. -/
def Follows (P : String → Prop) (word next : String) : Prop :=
  word = "-c:v" → P next ∨ IsOption next

/-- Words that begin with an option, and name codecs of a kind only. -/
structure Phrase (P : String → Prop) (words : List String) : Prop where
  chain : words.IsChain (Follows P)
  starts : ∀ w ∈ words.head?, IsOption w

namespace Phrase

variable {P : String → Prop} {words rest : List String}

theorem nil : Phrase P [] := ⟨.nil, nofun⟩

/-- Phrases are laid end to end, whatever word the first one ends in. -/
theorem append (h : Phrase P words) (hr : Phrase P rest) : Phrase P (words ++ rest) := by
  refine ⟨List.isChain_append.mpr ⟨h.chain, hr.chain, ?_⟩, ?_⟩
  · intro x _ y hy _
    exact .inr (hr.starts y hy)
  · cases words with
    | nil => exact hr.starts
    | cons w words => exact h.starts

theorem flatten {pieces : List (List String)} (h : ∀ w ∈ pieces, Phrase P w) :
    Phrase P pieces.flatten := by
  induction pieces with
  | nil => exact nil
  | cons w pieces ih =>
    rw [List.forall_mem_cons] at h
    exact h.1.append (ih h.2)

theorem flatMap {α : Type} {l : List α} {f : α → List String} (h : ∀ x ∈ l, Phrase P (f x)) :
    Phrase P (l.flatMap f) := by
  rw [List.flatMap_def]
  exact flatten (List.forall_mem_map.mpr h)

theorem mono {Q : String → Prop} (h : Phrase P words) (hPQ : ∀ name, P name → Q name) :
    Phrase Q words :=
  ⟨h.chain.imp fun _ _ hf hw => (hf hw).imp_left (hPQ _), h.starts⟩

theorem of_namesCodec {name : String} (h : Phrase P words) (hn : NamesCodec words name) :
    P name := by
  have hpair := h.chain.infix hn.1
  rw [List.isChain_pair] at hpair
  exact (hpair rfl).resolve_right hn.2

theorem flag {word : String} (hw : IsOption word) : Phrase P [word] :=
  ⟨.singleton word, fun _ hm => Option.some.inj hm ▸ hw⟩

/-- An option with its value, which may be any word. -/
theorem option {word value : String} (hw : IsOption word) (hne : word ≠ "-c:v") :
    Phrase P [word, value] :=
  ⟨List.isChain_pair.mpr fun h => absurd h hne, fun _ hm => Option.some.inj hm ▸ hw⟩

theorem ite {c : Prop} [Decidable c] (h : Phrase P words) (hr : Phrase P rest) :
    Phrase P (if c then words else rest) := by
  split
  · exact h
  · exact hr

theorem codec {name : String} (h : P name) : Phrase P ["-c:v", name] :=
  ⟨List.isChain_pair.mpr fun _ => .inl h, fun _ hm => Option.some.inj hm ▸ (by decide)⟩

end Phrase

/-! ## The words of the steps -/

section

variable {P : String → Prop} {words : List String}

theorem DeviceSetup.phrase_decoding (d : DeviceSetup) (h : Phrase P words) :
    Phrase P (d.decodingOptions words) :=
  .ite h .nil

theorem DeviceSetup.phrase_options (d : DeviceSetup) : Phrase P d.options := by
  unfold options
  split
  · exact .ite ((Phrase.option (by decide) (by decide)).append (.option (by decide) (by decide)))
      (.option (by decide) (by decide))
  · refine (Phrase.append ?_ (.option (by decide) (by decide))).append (d.phrase_decoding
      ((Phrase.option (by decide) (by decide)).append (.option (by decide) (by decide))))
    split
    · exact (Phrase.option (by decide) (by decide)).append (.option (by decide) (by decide))
    · exact .option (by decide) (by decide)
  · exact (d.phrase_decoding ((Phrase.option (by decide) (by decide)).append
      (.option (by decide) (by decide)))).append (.option (by decide) (by decide))
  · exact d.phrase_decoding (.option (by decide) (by decide))
  · exact .nil
  · exact .nil

theorem GlobalOption.phrase_options (o : GlobalOption) : Phrase P o.options := by
  cases o with
  | device setup => exact setup.phrase_options
  | threads n | generateTimestamps => exact .option (by decide) (by decide)
  | quiet => constructor <;> simp [options, Follows, IsOption]
  | report folder => exact .nil

theorem Graph.phrase_options (g : Graph) : Phrase P g.options :=
  (Phrase.ite .nil (.option (by decide) (by decide))).append
    (.flatMap fun _ _ => .option (by decide) (by decide))

theorem OutputOption.phrase_metadata (m : Metadata) : Phrase P (metadataArguments m) := by
  unfold metadataArguments
  refine (((Phrase.option (by decide) (by decide)).append ?_).append ?_).append ?_
  all_goals
    split
    · exact .option (by decide) (by decide)
    · exact .nil

theorem OutputOption.phrase_options (o : OutputOption) : Phrase P o.options := by
  cases o with
  | metadata m => exact phrase_metadata m
  | fastStart fragmented => cases fragmented <;> exact .option (by decide) (by decide)
  | subtitleCodec m =>
    cases m with
    | burn => exact .nil
    | _ => exact .option (by decide) (by decide)
  | _ => constructor <;> simp [options, Follows, IsOption]

theorem AudioEncoder.phrase_options (e : AudioEncoder) : Phrase P e.options :=
  .option (by decide) (by decide)

theorem Container.phrase_arguments {k : Container} (hk : ∀ path, k ≠ .file path)
    (h : k.arguments = .ok words) : Phrase P words := by
  cases k with
  | file path => exact absurd rfl (hk path)
  | hls output =>
    cases hf : output.segmentFrames with
    | error x =>
      rw [arguments, hf] at h
      cases h
    | ok frames =>
      rw [arguments, hf] at h
      cases h
      constructor <;> simp [HlsOutput.arguments, Follows, IsOption]
  | _ =>
    cases h
    constructor <;> simp [Follows, IsOption]

theorem VideoEncoder.phrase_family (a : Accelerator) (s : EncoderSettings) :
    Phrase P (familyOptions a s) := by
  cases a with
  | none => exact .ite (.option (by decide) (by decide)) .nil
  | qsv => exact (Phrase.option (by decide) (by decide)).append (.option (by decide) (by decide))
  | vaapi =>
    unfold familyOptions
    cases s.rateControl with
    | none => exact .nil
    | some r => exact .option (by decide) (by decide)
  | _ => exact .nil

theorem VideoEncoder.phrase_settings (a : Accelerator) (s : EncoderSettings) :
    Phrase P (settingsOptions a s) := by
  unfold settingsOptions
  refine ((Phrase.append (.ite ?_ .nil) (phrase_family a s)).append ?_).append ?_
  · exact .option (by decide) (by decide)
  · split
    · exact .option (by decide) (by decide)
    · exact .nil
  · split
    · exact .ite (.option (by decide) (by decide)) .nil
    · exact .nil

/-- The words for an encoder name it, and no other codec. -/
theorem VideoEncoder.phrase_options {e : VideoEncoder} (h : ∀ name, e.name? = some name → P name) :
    Phrase P e.options := by
  unfold options
  split
  · exact .nil
  · next name hname =>
    refine (Phrase.codec (h name hname)).append ?_
    split
    · exact phrase_settings _ _
    · exact .nil

theorem Decoder.phrase_options {d : Decoder} (h : ∀ name, d.name? = some name → P name) :
    Phrase P d.options := by
  unfold options
  refine Phrase.append ?_ ?_
  · split
    · next name hname => exact .codec (h name hname)
    · exact .nil
  · exact .ite (.option (by decide) (by decide)) .nil

theorem InputOption.phrase_arguments (o : InputOption) (k : InputKind) :
    Phrase P (o.arguments k) := by
  cases o with
  | seek start => exact .option (by decide) (by decide)
  | copyTimestamps => exact .flag (by decide)
  | infiniteLoop =>
    exact .ite (.option (by decide) (by decide)) (.option (by decide) (by decide))
  | readrate burst =>
    exact (Phrase.option (by decide) (by decide)).append
      (.ite (.option (by decide) (by decide)) .nil)
  | doNotIgnoreLoop | lavfiFormat => exact .option (by decide) (by decide)
  | concatFormat => constructor <;> simp [arguments, Follows, IsOption]
  | rawVideoFormat =>
    cases k with
    | graphics size rate => constructor <;> simp [arguments, Follows, IsOption]
    | _ => exact .nil

end

/-! ## Names -/

theorem not_isOption_encoderName {a : Accelerator} {format : VideoFormat} {name : String}
    (h : a.encoderName? format = some name) : ¬IsOption name := by
  cases a <;> cases format <;> cases h <;> decide

theorem VideoEncoder.not_isOption_name {e : VideoEncoder} {name : String}
    (h : e.name? = some name) :
    ¬IsOption name := by
  cases e with
  | copy => cases h; decide
  | implicit => cases h
  | explicit a s =>
    cases a with
    | none =>
      have h : softwareEncoder? s.format = some name := h
      cases hf : s.format <;> rw [hf] at h <;> cases h <;> decide
    | _ => exact not_isOption_encoderName (h : Accelerator.encoderName? _ s.format = some name)

theorem Decoder.not_isOption_name {d : Decoder} {name : String} (h : d.name? = some name) :
    ¬IsOption name := by
  cases d with
  | software format | qsv format => cases format <;> cases h <;> decide
  | cuvid format deinterlace => cases format <;> cases h <;> decide
  | _ => cases h

/-! ## Commands -/

namespace Step

/-- The words that a step adds to the output name its encoder, if it is one. -/
theorem phrase_outputOptions {s : Step} {P : String → Prop} {words : List String}
    (hfile : ∀ path, s ≠ .container (.file path))
    (hP : ∀ e name, s = .videoEncoder e → e.name? = some name → P name)
    (h : s.outputOptions = .ok words) : Phrase P words := by
  cases s with
  | output o =>
    cases h
    exact o.phrase_options
  | videoEncoder e =>
    cases h
    exact VideoEncoder.phrase_options fun name hn => hP e name rfl hn
  | audioEncoder e =>
    cases h
    exact e.phrase_options
  | container k => exact Container.phrase_arguments (fun path hk => hfile path (hk ▸ rfl)) h
  | _ =>
    cases h
    exact .nil

/-- The words that a step adds to an input name its decoder, if it is one and the input is the
video. -/
theorem phrase_inputOptions {s : Step} {k : InputKind} {P : String → Prop}
    (hP : ∀ d name, k.isVideo = true → s = .decoder d → d.name? = some name → P name) :
    Phrase P (s.inputOptions k) := by
  cases s with
  | decoder d =>
    unfold inputOptions
    dsimp only
    split
    · next hk => exact Decoder.phrase_options fun name hn => hP d name hk rfl hn
    · exact .nil
  | _ => exact .nil

theorem phrase_globalOptions {P : String → Prop} (s : Step) : Phrase P s.globalOptions := by
  cases s with
  | global o => exact o.phrase_options
  | _ => exact .nil

theorem phrase_filterOptions {P : String → Prop} (s : Step) : Phrase P s.filterOptions := by
  cases s with
  | filter g => exact g.phrase_options
  | _ => exact .nil

end Step

namespace Pipeline

variable {p : Pipeline} {name : String}

theorem mem_of_mapM_eq_ok {α β : Type} {f : α → Except Failure β} {l : List α} {bs : List β}
    (h : l.mapM f = .ok bs) {b : β} : b ∈ bs ↔ ∃ a ∈ l, f a = .ok b := by
  induction l generalizing bs with
  | nil =>
    cases h
    simp
  | cons a rest ih =>
    rw [List.mapM_cons] at h
    obtain ⟨b', hb, h⟩ := bind_eq_ok_iff.mp h
    obtain ⟨bs, hbs, h⟩ := bind_eq_ok_iff.mp h
    cases h
    have hhead : f a = .ok b ↔ b = b' := by
      rw [hb, Except.ok.injEq, eq_comm]
    rw [List.mem_cons, ih hbs, List.exists_mem_cons_iff, hhead]

theorem infix_flatMap {α β : Type} {l : List α} {a : α} (h : a ∈ l) (f : α → List β) :
    f a <:+: l.flatMap f := by
  rw [List.flatMap_def]
  exact List.infix_of_mem_flatten (List.mem_map_of_mem h)

theorem pieces_of_outputArguments {words : List String} (h : p.outputArguments = .ok words) :
    ∃ pieces, p.steps.mapM Step.outputOptions = .ok pieces ∧ pieces.flatten = words := by
  unfold outputArguments at h
  cases hx : p.steps.mapM Step.outputOptions with
  | error x =>
    rw [hx] at h
    cases h
  | ok pieces =>
    rw [hx] at h
    exact ⟨pieces, rfl, Except.ok.inj h⟩

theorem phrase_output (hfile : ∀ path, .container (.file path) ∉ p.steps) {words : List String}
    (h : p.outputArguments = .ok words) :
    Phrase (fun name => ∃ e, .videoEncoder e ∈ p.steps ∧ e.name? = some name) words := by
  obtain ⟨pieces, hpieces, rfl⟩ := pieces_of_outputArguments h
  refine Phrase.flatten fun w hw => ?_
  obtain ⟨s, hs, hword⟩ := (mem_of_mapM_eq_ok hpieces).mp hw
  refine s.phrase_outputOptions (fun path he => hfile path (he ▸ hs)) ?_ hword
  rintro e name rfl hn
  exact ⟨e, hs, hn⟩

theorem phrase_inputs (p : Pipeline) :
    Phrase (fun name => (∃ f ∈ p.inputs, f.kind.isVideo = true) ∧
      ∃ d, .decoder d ∈ p.steps ∧ d.name? = some name) (p.inputs.flatMap p.inputArguments) := by
  refine Phrase.flatMap fun f hf => ?_
  refine ((Phrase.flatMap fun o _ => o.phrase_arguments f.kind).append
    (Phrase.flatMap fun s hs => s.phrase_inputOptions ?_)).append
    (.option (by decide) (by decide))
  rintro d name hk rfl hn
  exact ⟨⟨f, hf, hk⟩, d, hs, hn⟩

/-- **The codecs that the output names are those of the encoders.** -/
theorem namesCodec_output_iff (hfile : ∀ path, .container (.file path) ∉ p.steps)
    {words : List String} (h : p.outputArguments = .ok words) :
    NamesCodec words name ↔ ∃ e, .videoEncoder e ∈ p.steps ∧ e.name? = some name := by
  refine ⟨(phrase_output hfile h).of_namesCodec, ?_⟩
  rintro ⟨e, he, hn⟩
  obtain ⟨pieces, hpieces, rfl⟩ := pieces_of_outputArguments h
  have hpiece : e.options ∈ pieces := (mem_of_mapM_eq_ok hpieces).mpr ⟨_, he, rfl⟩
  refine ⟨List.IsInfix.trans ?_ (List.infix_of_mem_flatten hpiece),
    VideoEncoder.not_isOption_name hn⟩
  unfold VideoEncoder.options
  rw [hn]
  exact (List.prefix_append _ _).isInfix

/-- **The codec that the inputs name is that of the decoder**, if there is a main video. -/
theorem namesCodec_inputs_iff :
    NamesCodec (p.inputs.flatMap p.inputArguments) name ↔
      (∃ f ∈ p.inputs, f.kind.isVideo = true) ∧
        ∃ d, .decoder d ∈ p.steps ∧ d.name? = some name := by
  refine ⟨p.phrase_inputs.of_namesCodec, ?_⟩
  rintro ⟨⟨f, hf, hk⟩, d, hd, hn⟩
  refine ⟨?_, Decoder.not_isOption_name hn⟩
  have hname : ["-c:v", name] <:+: (Step.decoder d).inputOptions f.kind := by
    unfold Step.inputOptions
    dsimp only
    rw [if_pos hk, Decoder.options, hn]
    exact (List.prefix_append _ _).isInfix
  have hsteps : (Step.decoder d).inputOptions f.kind <:+:
      p.steps.flatMap fun s => s.inputOptions f.kind :=
    infix_flatMap hd fun s => s.inputOptions f.kind
  have hfile : (p.steps.flatMap fun s => s.inputOptions f.kind) <:+: p.inputArguments f :=
    List.infix_append _ _ _
  exact ((hname.trans hsteps).trans hfile).trans (infix_flatMap hf _)

/-- **No other words of a command name a codec** than those of its inputs and of its output. -/
theorem namesCodec_of_arguments (hfile : ∀ path, .container (.file path) ∉ p.steps)
    {words : List String} (h : p.arguments = .ok words) (hn : NamesCodec words name) :
    NamesCodec (p.inputs.flatMap p.inputArguments) name ∨
      ∃ output, p.outputArguments = .ok output ∧ NamesCodec output name := by
  unfold arguments at h
  cases ho : p.outputArguments with
  | error x =>
    rw [ho] at h
    cases h
  | ok output =>
    rw [ho] at h
    cases h
    refine (Phrase.of_namesCodec (P := fun name => NamesCodec (p.inputs.flatMap p.inputArguments)
      name ∨ NamesCodec output name) ?_ hn).imp_right fun hout => ⟨output, rfl, hout⟩
    refine ((Phrase.append ?_ ?_).append ?_).append ?_
    · exact .flatMap fun s _ => s.phrase_globalOptions
    · exact p.phrase_inputs.mono fun _ hin => .inl (namesCodec_inputs_iff.mpr hin)
    · exact .flatMap fun s _ => s.phrase_filterOptions
    · exact (phrase_output hfile ho).mono fun _ hout =>
        .inr ((namesCodec_output_iff hfile ho).mpr hout)

end Pipeline

end Playout
