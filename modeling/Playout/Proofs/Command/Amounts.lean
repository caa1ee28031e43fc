import Playout.Proofs.Command.Codecs
import Playout.Proofs.Item.Clock

/-!
# The amounts that a command tells

Channels, rates, the sizes of buffers, the distances of keyframes and the length are told to the
output by options of their own, and the number of threads to the whole command.  A value stands
behind its option, and words that are laid end to end begin with an option each; so an amount that a
command tells is told by one of its steps, whatever looks like an option in a path or a profile.

* `Tells`: a command gives an option a value.
* `told`: the amounts that words tell, read from left to right; `mem_told_iff`, `told_append`.
* `Step.amounts`: the amounts of a step; `Step.mem_amounts_iff` says which kind of step has which,
  and `Step.told_outputOptions` that its words tell them.
* `Pipeline.told_arguments`, `Pipeline.tells_iff`: the amounts that a command tells are those of
  its steps; `Pipeline.tells_channels_iff` and its siblings read them off for each kind of step.
-/

namespace Playout

def amountOptions : List String :=
  ["-ac", "-ar", "-b:v", "-maxrate:v", "-bufsize:v", "-b:a", "-maxrate:a", "-bufsize:a", "-g",
    "-keyint_min", "-t", "-threads"]

/-- A command gives an option a value: it stands behind the option, and is no option itself. -/
def Tells (words : List String) (option value : String) : Prop :=
  [option, value] <:+: words ∧ ¬IsOption value

instance (words : List String) (option value : String) : Decidable (Tells words option value) :=
  inferInstanceAs (Decidable (_ ∧ _))

/-- The amounts that words tell, with their options. -/
def told : List String → List (String × String)
  | option :: value :: rest =>
    (if option ∈ amountOptions ∧ ¬IsOption value then [(option, value)] else [])
      ++ told (value :: rest)
  | _ => []

variable {words rest : List String} {option value : String}

theorem mem_told_iff :
    (option, value) ∈ told words ↔ option ∈ amountOptions ∧ Tells words option value := by
  induction words with
  | nil => simp [told, Tells]
  | cons w words ih =>
    cases words with
    | nil => simp [told, Tells, List.infix_cons_iff]
    | cons v words =>
      have hinfix : [option, value] <:+: w :: v :: words ↔
          (option = w ∧ value = v) ∨ [option, value] <:+: v :: words := by
        rw [List.infix_cons_iff, List.cons_prefix_cons, List.cons_prefix_cons,
          and_iff_left List.nil_prefix]
      rw [told, List.mem_append, ih, Tells, Tells, hinfix]
      constructor
      · rintro (hm | ⟨ho, htail, hv⟩)
        · split at hm
          · next h =>
            obtain ⟨rfl, rfl⟩ := Prod.mk.inj (List.mem_singleton.mp hm)
            exact ⟨h.1, .inl ⟨rfl, rfl⟩, h.2⟩
          · cases hm
        · exact ⟨ho, .inr htail, hv⟩
      · rintro ⟨ho, ⟨rfl, rfl⟩ | htail, hv⟩
        · rw [if_pos ⟨ho, hv⟩]
          exact .inl List.mem_cons_self
        · exact .inr ⟨ho, htail, hv⟩

theorem told_append (h : ∀ w ∈ rest.head?, IsOption w) :
    told (words ++ rest) = told words ++ told rest := by
  induction words with
  | nil => rfl
  | cons w words ih =>
    cases words with
    | nil =>
      cases rest with
      | nil => rfl
      | cons v rest =>
        have hv : IsOption v := h v rfl
        simp [told, hv]
    | cons v words =>
      rw [List.cons_append] at ih
      simp only [List.cons_append, told, ih, List.append_assoc]

theorem told_flatMap {α : Type} {l : List α} {f : α → List String}
    (h : ∀ x ∈ l, Phrase (fun _ => True) (f x)) :
    told (l.flatMap f) = l.flatMap fun x => told (f x) := by
  induction l with
  | nil => rfl
  | cons x l ih =>
    rw [List.forall_mem_cons] at h
    rw [List.flatMap_cons, List.flatMap_cons, told_append (Phrase.flatMap h.2).starts, ih h.2]

theorem told_flatMap_eq_nil {α : Type} {l : List α} {f : α → List String}
    (h : ∀ x ∈ l, Phrase (fun _ => True) (f x)) (hnil : ∀ x ∈ l, told (f x) = []) :
    told (l.flatMap f) = [] := by
  rw [told_flatMap h]
  exact List.flatMap_eq_nil_iff.mpr hnil

theorem told_pair (h : option ∉ amountOptions) : told [option, value] = [] := by
  simp [told, h]

theorem told_amount (h : option ∈ amountOptions) (hv : ¬IsOption value) :
    told [option, value] = [(option, value)] := by
  simp [told, h, hv]

/-- A text that begins with a number is no option. -/
theorem not_isOption_of_digits {s : String} {digits rest : List Char}
    (hs : s.toList = digits ++ rest) (hne : digits ≠ []) (hminus : '-' ∉ digits) : ¬IsOption s := by
  intro h
  rw [IsOption, hs, List.head?_append_of_ne_nil _ hne] at h
  exact hminus (List.mem_of_mem_head? h)

theorem not_isOption_toString (n : Nat) : ¬IsOption (toString n) :=
  not_isOption_of_digits (List.append_nil _).symm (toList_toString_ne_nil n)
    (not_mem_toString (by decide) n)

theorem not_isOption_thousands (n : UInt32) : ¬IsOption (OutputOption.thousands n) :=
  not_isOption_of_digits String.toList_append (toList_toString_ne_nil n.toNat)
    (not_mem_toString (by decide) n.toNat)

theorem not_isOption_kilo (n : Nat) : ¬IsOption (OutputOption.kilo n) := by
  unfold OutputOption.kilo
  split
  · exact not_isOption_of_digits String.toList_append (toList_toString_ne_nil (n / 1000))
      (not_mem_toString (by decide) (n / 1000))
  · exact not_isOption_toString n

theorem not_isOption_clock (d : Duration) : ¬IsOption d.clock :=
  not_isOption_of_digits (ClockTime.toList_clock d) (padded_ne_nil _ _)
    (not_mem_padded (by decide) _ _)

/-! ## The words of the steps -/

theorem DeviceSetup.told_options (d : DeviceSetup) : told d.options = [] := by
  obtain ⟨a, decodes, device, driver⟩ := d
  cases a <;> cases decodes <;> cases device <;>
    simp [options, decodingOptions, told, amountOptions, IsOption]

theorem InputOption.told_arguments (o : InputOption) (k : InputKind) :
    told (o.arguments k) = [] := by
  cases o with
  | rawVideoFormat => cases k <;> simp [arguments, told, amountOptions, IsOption]
  | infiniteLoop =>
    dsimp only [arguments]
    split <;> exact told_pair (by decide)
  | readrate burst =>
    dsimp only [arguments]
    split <;> simp [told, amountOptions]
  | _ => simp [arguments, told, amountOptions]

theorem Decoder.told_options (d : Decoder) : told d.options = [] := by
  unfold options
  split <;> split <;> simp [told, amountOptions, IsOption]

theorem Graph.told_options (g : Graph) : told g.options = [] := by
  have hmaps : ∀ target ∈ g.maps, Phrase (fun _ => True) ["-map", target] :=
    fun _ _ => .option (by decide) (by decide)
  unfold options
  rw [told_append (Phrase.flatMap hmaps).starts,
    told_flatMap_eq_nil hmaps fun _ _ => told_pair (by decide), List.append_nil]
  split
  · rfl
  · exact told_pair (by decide)

theorem VideoEncoder.told_family (a : Accelerator) (s : EncoderSettings) :
    told (familyOptions a s) = [] := by
  unfold familyOptions
  split
  · split <;> simp [told, amountOptions]
  · simp [told, amountOptions]
  · split <;> simp [told, amountOptions]
  all_goals rfl

theorem VideoEncoder.told_settings (a : Accelerator) (s : EncoderSettings) :
    told (settingsOptions a s) = [] := by
  unfold settingsOptions
  rw [told_append, told_append, told_append (phrase_family (P := fun _ => True) a s).starts,
    told_family]
  · split <;> split <;> split <;> try split
    all_goals simp [told, amountOptions]
  · split <;> simp [IsOption]
  · split
    · split <;> simp [IsOption]
    · simp

theorem VideoEncoder.told_options (e : VideoEncoder) : told e.options = [] := by
  unfold options
  split
  · rfl
  · split
    · rw [told_append (phrase_settings (P := fun _ => True) _ _).starts, told_settings,
        told_pair (by decide)]
      rfl
    · exact told_pair (by decide)

theorem OutputOption.told_metadata (m : Metadata) : told (metadataArguments m) = [] := by
  obtain ⟨provider, name, language⟩ := m
  cases provider <;> cases name <;> cases language <;>
    simp [metadataArguments, told, amountOptions, IsOption]

namespace Step

open OutputOption (thousands)

def amounts : Step → List (String × String)
  | global (.threads count) => [("-threads", toString count.toNat)]
  | output (.videoBitrate rate size) =>
    [("-b:v", thousands rate), ("-maxrate:v", thousands rate), ("-bufsize:v", thousands size)]
  | output (.audioChannels count) => [("-ac", toString count.toNat)]
  | output (.audioBitrate rate size) =>
    [("-b:a", thousands rate), ("-maxrate:a", thousands rate), ("-bufsize:a", thousands size)]
  | output (.sampleRate rate) => [("-ar", OutputOption.kilo rate.toNat)]
  | output (.duration length) => [("-t", length.clock)]
  | container (.hls h) =>
    [("-g", toString (h.frameRate.toNat * h.segmentSeconds.toNat)),
      ("-keyint_min", toString (h.frameRate.toNat * h.segmentSeconds.toNat))]
  | _ => []

section

variable {s : Step}

/-- **Who tells what**: each amount belongs to one kind of step. -/
theorem mem_amounts_iff {x : String × String} :
    x ∈ s.amounts ↔
      (∃ n, s = global (.threads n) ∧ x = ("-threads", toString n.toNat)) ∨
      (∃ rate size, s = output (.videoBitrate rate size) ∧
        x ∈ [("-b:v", thousands rate), ("-maxrate:v", thousands rate),
          ("-bufsize:v", thousands size)]) ∨
      (∃ n, s = output (.audioChannels n) ∧ x = ("-ac", toString n.toNat)) ∨
      (∃ rate size, s = output (.audioBitrate rate size) ∧
        x ∈ [("-b:a", thousands rate), ("-maxrate:a", thousands rate),
          ("-bufsize:a", thousands size)]) ∨
      (∃ rate, s = output (.sampleRate rate) ∧ x = ("-ar", OutputOption.kilo rate.toNat)) ∨
      (∃ d, s = output (.duration d) ∧ x = ("-t", d.clock)) ∨
      ∃ h, s = container (.hls h) ∧ (x.1 = "-g" ∨ x.1 = "-keyint_min") ∧
        x.2 = toString (h.frameRate.toNat * h.segmentSeconds.toNat) := by
  cases s with
  | global o => cases o <;> simp [amounts]
  | output o => cases o <;> simp [amounts]
  | container k => cases k <;> simp [amounts, Prod.ext_iff, or_and_right]
  | _ => simp [amounts]

theorem channels_mem_amounts :
    ("-ac", value) ∈ s.amounts ↔
      ∃ n, s = output (.audioChannels n) ∧ value = toString n.toNat := by
  simp [mem_amounts_iff]

theorem videoRates_mem_amounts :
    (("-b:v", value) ∈ s.amounts ↔
      ∃ rate size, s = output (.videoBitrate rate size) ∧ value = thousands rate) ∧
    (("-bufsize:v", value) ∈ s.amounts ↔
      ∃ rate size, s = output (.videoBitrate rate size) ∧ value = thousands size) := by
  simp [mem_amounts_iff]

theorem audioRates_mem_amounts :
    (("-b:a", value) ∈ s.amounts ↔
      ∃ rate size, s = output (.audioBitrate rate size) ∧ value = thousands rate) ∧
    (("-bufsize:a", value) ∈ s.amounts ↔
      ∃ rate size, s = output (.audioBitrate rate size) ∧ value = thousands size) := by
  simp [mem_amounts_iff]

theorem length_mem_amounts :
    ("-t", value) ∈ s.amounts ↔ ∃ d, s = output (.duration d) ∧ value = d.clock := by
  simp [mem_amounts_iff]

theorem threads_mem_amounts :
    ("-threads", value) ∈ s.amounts ↔ ∃ n, s = global (.threads n) ∧ value = toString n.toNat := by
  simp [mem_amounts_iff]

theorem keyframes_mem_amounts (ho : option = "-g" ∨ option = "-keyint_min") :
    (option, value) ∈ s.amounts ↔
      ∃ h, s = container (.hls h) ∧
        value = toString (h.frameRate.toNat * h.segmentSeconds.toNat) := by
  rcases ho with rfl | rfl <;> simp [mem_amounts_iff]

end

theorem told_global (o : GlobalOption) : told o.options = (global o).amounts := by
  cases o with
  | device setup => exact setup.told_options
  | threads n => exact told_amount (by decide) (not_isOption_toString _)
  | _ => simp [GlobalOption.options, told, amounts, amountOptions]

theorem told_output (o : OutputOption) : told o.options = (output o).amounts := by
  cases o with
  | metadata m => exact OutputOption.told_metadata m
  | fastStart fragmented => cases fragmented <;> exact told_pair (by decide)
  | subtitleCodec m =>
    cases m with
    | burn => rfl
    | _ => exact told_pair (by decide)
  | videoBitrate rate size =>
    simp +decide [OutputOption.options, told, amounts, not_isOption_thousands]
  | audioBitrate rate size =>
    simp +decide [OutputOption.options, told, amounts, not_isOption_thousands]
  | audioChannels count => exact told_amount (by decide) (not_isOption_toString _)
  | sampleRate rate => exact told_amount (by decide) (not_isOption_kilo _)
  | duration d => exact told_amount (by decide) (not_isOption_clock d)
  | _ => simp [OutputOption.options, told, amounts, amountOptions, IsOption]

theorem told_hls {h : HlsOutput} {frames : Nat} (hf : h.segmentFrames = .ok frames) :
    told (h.arguments frames) = (container (.hls h)).amounts := by
  have hframes : frames = h.frameRate.toNat * h.segmentSeconds.toNat := by
    unfold HlsOutput.segmentFrames at hf
    split at hf
    · exact (Except.ok.inj hf).symm
    · cases hf
  obtain ⟨others, hwords, hstarts, hnone⟩ : ∃ others,
      h.arguments frames =
        ["-g", toString frames] ++ (["-keyint_min", toString frames] ++ others) ∧
      (∀ w ∈ others.head?, IsOption w) ∧ told others = [] :=
    ⟨_, rfl, by simp [IsOption], by simp [told, amountOptions, IsOption]⟩
  rw [hwords, told_append (by simp [IsOption]), told_append hstarts, hnone,
    told_amount (by decide) (not_isOption_toString _),
    told_amount (by decide) (not_isOption_toString _), hframes]
  rfl

theorem told_container {k : Container} (h : k.arguments = .ok words) :
    told words = (container k).amounts := by
  cases k with
  | hls output =>
    cases hf : output.segmentFrames with
    | error x =>
      rw [Container.arguments, hf] at h
      cases h
    | ok frames =>
      rw [Container.arguments, hf] at h
      cases h
      exact told_hls hf
  | _ =>
    cases h
    simp [told, amounts, amountOptions]

def isGlobal : Step → Bool
  | global _ => true
  | _ => false

/-- **The words of a step for the output** tell its amounts. -/
theorem told_outputOptions {s : Step} (hs : s.isGlobal = false) (h : s.outputOptions = .ok words) :
    told words = s.amounts := by
  cases s with
  | global o => cases hs
  | output o =>
    cases h
    exact told_output o
  | videoEncoder e =>
    cases h
    exact e.told_options
  | audioEncoder e =>
    cases h
    exact told_pair (by decide)
  | container k => exact told_container h
  | _ =>
    cases h
    rfl

theorem told_globalOptions (steps : List Step) :
    told (steps.flatMap globalOptions) = (steps.filter isGlobal).flatMap amounts := by
  rw [told_flatMap fun s _ => s.phrase_globalOptions]
  induction steps with
  | nil => rfl
  | cons s steps ih =>
    rw [List.flatMap_cons, ih]
    cases s with
    | global o =>
      show told o.options ++ _ = _
      rw [told_global]
      rfl
    | _ => rfl

theorem told_inputOptions (s : Step) (k : InputKind) : told (s.inputOptions k) = [] := by
  cases s with
  | decoder d =>
    dsimp only [inputOptions]
    split
    · exact d.told_options
    · rfl
  | _ => rfl

theorem told_filterOptions (s : Step) : told s.filterOptions = [] := by
  cases s with
  | filter g => exact g.told_options
  | _ => rfl

theorem told_pieces {steps : List Step} {pieces : List (List String)}
    (h : steps.mapM outputOptions = .ok pieces) :
    pieces.flatMap told = (steps.filter fun s => !s.isGlobal).flatMap amounts := by
  induction steps generalizing pieces with
  | nil =>
    cases h
    rfl
  | cons s steps ih =>
    rw [List.mapM_cons] at h
    obtain ⟨piece, hpiece, h⟩ := bind_eq_ok_iff.mp h
    obtain ⟨pieces, hpieces, h⟩ := bind_eq_ok_iff.mp h
    cases h
    rw [List.flatMap_cons, ih hpieces]
    cases hs : s.isGlobal with
    | true =>
      rw [List.filter_cons_of_neg (by simp [hs])]
      cases s with
      | global o =>
        cases hpiece
        rfl
      | _ => cases hs
    | false =>
      rw [List.filter_cons_of_pos (by simp [hs]), List.flatMap_cons, told_outputOptions hs hpiece]

end Step

/-! ## Commands -/

namespace Pipeline

variable {p : Pipeline}

theorem told_outputArguments (hfile : ∀ path, .container (.file path) ∉ p.steps)
    (h : p.outputArguments = .ok words) :
    told words = (p.steps.filter fun s => !s.isGlobal).flatMap Step.amounts := by
  obtain ⟨pieces, hpieces, rfl⟩ := pieces_of_outputArguments h
  have hphrases : ∀ piece ∈ pieces, Phrase (fun _ => True) piece := by
    intro piece hpiece
    obtain ⟨s, hs, hword⟩ := (mem_of_mapM_eq_ok hpieces).mp hpiece
    exact s.phrase_outputOptions (fun path he => hfile path (he ▸ hs)) (fun _ _ _ _ => trivial)
      hword
  have hflatten : told pieces.flatten = pieces.flatMap told := by
    rw [← List.flatMap_id]
    exact told_flatMap hphrases
  rw [hflatten, Step.told_pieces hpieces]

theorem phrase_input (p : Pipeline) (f : InputFile) :
    Phrase (fun _ => True) (p.inputArguments f) := by
  refine ((Phrase.flatMap fun o _ => o.phrase_arguments f.kind).append
    (Phrase.flatMap fun s _ => s.phrase_inputOptions fun _ _ _ _ _ => trivial)).append
    (.option (by decide) (by decide))

theorem told_inputs (p : Pipeline) : told (p.inputs.flatMap p.inputArguments) = [] := by
  refine told_flatMap_eq_nil (fun f _ => p.phrase_input f) ?_
  intro f _
  have hphrase : ∀ s ∈ p.steps, Phrase (fun _ => True) (s.inputOptions f.kind) :=
    fun s _ => s.phrase_inputOptions fun _ _ _ _ _ => trivial
  have hoptions : told f.arguments = [] :=
    told_flatMap_eq_nil (fun o _ => o.phrase_arguments f.kind) fun o _ => o.told_arguments f.kind
  have hsteps : told (p.steps.flatMap fun s => s.inputOptions f.kind) = [] :=
    told_flatMap_eq_nil hphrase fun s _ => s.told_inputOptions f.kind
  rw [inputArguments, told_append (by simp [IsOption]), told_append (Phrase.flatMap hphrase).starts,
    hoptions, hsteps, told_pair (by decide)]
  rfl

/-- **The amounts that a command tells are those of its steps.** -/
theorem told_arguments (hfile : ∀ path, .container (.file path) ∉ p.steps)
    (h : p.arguments = .ok words) : (told words).Perm (p.steps.flatMap Step.amounts) := by
  unfold arguments at h
  cases ho : p.outputArguments with
  | error x =>
    rw [ho] at h
    cases h
  | ok output =>
    rw [ho] at h
    cases h
    have hinputs : Phrase (fun _ => True) (p.inputs.flatMap p.inputArguments) :=
      .flatMap fun f _ => p.phrase_input f
    have hfilters : ∀ s ∈ p.steps, Phrase (fun _ => True) s.filterOptions :=
      fun s _ => s.phrase_filterOptions
    have hgraphs : told (p.steps.flatMap Step.filterOptions) = [] :=
      told_flatMap_eq_nil hfilters fun s _ => s.told_filterOptions
    rw [told_append (phrase_output hfile ho).starts, told_append (Phrase.flatMap hfilters).starts,
      told_append hinputs.starts, Step.told_globalOptions, p.told_inputs, hgraphs,
      told_outputArguments hfile ho, List.append_nil, List.append_nil, ← List.flatMap_append]
    exact (List.filter_append_perm Step.isGlobal p.steps).flatMap_right Step.amounts

theorem tells_iff (hfile : ∀ path, .container (.file path) ∉ p.steps)
    (h : p.arguments = .ok words) (ho : option ∈ amountOptions) :
    Tells words option value ↔ ∃ s ∈ p.steps, (option, value) ∈ s.amounts := by
  rw [← List.mem_flatMap, ← (told_arguments hfile h).mem_iff, mem_told_iff, and_iff_right ho]

section

open OutputOption (thousands)

variable (hfile : ∀ path, .container (.file path) ∉ p.steps) (h : p.arguments = .ok words)
include hfile h

theorem tells_channels_iff :
    Tells words "-ac" value ↔
      ∃ n, .output (.audioChannels n) ∈ p.steps ∧ value = toString n.toNat := by
  rw [tells_iff hfile h (by decide)]
  simp only [Step.channels_mem_amounts]
  grind

theorem tells_videoRates_iff :
    (Tells words "-b:v" value ↔
      ∃ rate size, .output (.videoBitrate rate size) ∈ p.steps ∧ value = thousands rate) ∧
    (Tells words "-bufsize:v" value ↔
      ∃ rate size, .output (.videoBitrate rate size) ∈ p.steps ∧ value = thousands size) := by
  rw [tells_iff hfile h (by decide), tells_iff hfile h (by decide)]
  simp only [Step.videoRates_mem_amounts]
  grind

theorem tells_audioRates_iff :
    (Tells words "-b:a" value ↔
      ∃ rate size, .output (.audioBitrate rate size) ∈ p.steps ∧ value = thousands rate) ∧
    (Tells words "-bufsize:a" value ↔
      ∃ rate size, .output (.audioBitrate rate size) ∈ p.steps ∧ value = thousands size) := by
  rw [tells_iff hfile h (by decide), tells_iff hfile h (by decide)]
  simp only [Step.audioRates_mem_amounts]
  grind

theorem tells_length_iff :
    Tells words "-t" value ↔ ∃ d, .output (.duration d) ∈ p.steps ∧ value = d.clock := by
  rw [tells_iff hfile h (by decide)]
  simp only [Step.length_mem_amounts]
  grind

theorem tells_threads_iff :
    Tells words "-threads" value ↔
      ∃ n, .global (.threads n) ∈ p.steps ∧ value = toString n.toNat := by
  rw [tells_iff hfile h (by decide)]
  simp only [Step.threads_mem_amounts]
  grind

theorem tells_keyframes_iff (ho : option = "-g" ∨ option = "-keyint_min") :
    Tells words option value ↔
      ∃ output, .container (.hls output) ∈ p.steps ∧
        value = toString (output.frameRate.toNat * output.segmentSeconds.toNat) := by
  rw [tells_iff hfile h (by rcases ho with rfl | rfl <;> decide)]
  simp only [Step.keyframes_mem_amounts ho]
  grind

end

end Pipeline

end Playout
