import Playout.Proofs.Plan.Agreement
import Playout.Proofs.Plan.Fallback

/-!
# What is refused

A compilation looks at the target and its settings first, then at the source, then at the output;
what it refuses is decided there, and by nothing else.

* `Target.Valid`, `Compilation.Accepted`, `Compilation.Decodable`, `Compilation.Encodable`: what is
  asked of a request.
* `Compilation.encodable_iff`: it is the target that asks for an encoder, but for NUT.
* `Compilation.Outcome`: the ways in which a compilation ends, and `Compilation.outcome`: it ends in
  one of them.
* `Compilation.run_refuses_iff`: what each refusal means.
-/

namespace Playout

/-! ## Targets -/

structure Target.Valid (t : Target) : Prop where
  resolution : t.resolution.isEmpty = false
  bitDepth : t.bitDepth = 8 ∨ t.bitDepth = 10
  videoBitrate : t.videoBitrate ≠ some 0
  videoBufferSize : t.videoBufferSize ≠ some 0
  frameRate : t.frameRate ≠ some 0
  audioChannels : t.audio.channels ≠ 0

theorem Target.problem?_eq_none_iff {t : Target} : t.problem? = none ↔ t.Valid := by
  unfold problem?
  constructor
  · intro h
    split at h
    · cases h
    next hresolution =>
    split at h
    · cases h
    next hdepth =>
    split at h
    · cases h
    next hrate =>
    split at h
    · cases h
    next hframe =>
    split at h
    · cases h
    next hchannels =>
    rw [not_or] at hrate
    exact ⟨(Bool.not_eq_true _).mp hresolution, by omega, hrate.1, hrate.2, hframe, hchannels⟩
  · intro h
    have hdepth := h.bitDepth
    rw [if_neg ((Bool.not_eq_true _).mpr h.resolution), if_neg (by omega),
      if_neg (not_or.mpr ⟨h.videoBitrate, h.videoBufferSize⟩), if_neg h.frameRate,
      if_neg h.audioChannels]

namespace Compilation

variable {c : Compilation}

/-- The target is valid, and HLS has its settings. -/
structure Accepted (c : Compilation) : Prop where
  target : c.request.target.Valid
  settings : ¬(c.request.settings.container = .hls ∧ c.request.settings.hls = none)

theorem accepted_iff :
    c.Accepted ↔ c.request.target.Valid ∧
      ¬(c.request.settings.container = .hls ∧ c.request.settings.hls = none) :=
  ⟨fun h => ⟨h.target, h.settings⟩, fun h => ⟨h.1, h.2⟩⟩

/-- The codec of the source is known, or the source is a still image. -/
def Decodable (c : Compilation) : Prop :=
  VideoFormat.ofCodec? c.request.video.stream.codec ≠ none ∨
    c.request.video.stream.stillImage = true

/-- The accelerator has an encoder for the output, and is said to encode the target's pixels. -/
def EncodesOnAccelerator (c : Compilation) : Prop :=
  (c.request.target.accelerator.encoderName? c.videoFormat).isSome = true ∧
    c.capabilities.encodes c.videoFormat (some c.request.target.pixelFormat) = true

/-- The output needs no encoder of its own, or the host or the accelerator has one. -/
def Encodable (c : Compilation) : Prop :=
  c.videoFormat = .copy ∨ c.videoFormat = .undetermined ∨
    (softwareEncoder? c.videoFormat).isSome = true ∨ c.EncodesOnAccelerator

/-- Raw frames for NUT need no encoder but the host's; else it is the target that asks for one. -/
theorem encodable_iff :
    c.Encodable ↔ c.request.settings.container = .nut ∨
      c.request.target.videoFormat = .copy ∨ c.request.target.videoFormat = .undetermined ∨
      (softwareEncoder? c.request.target.videoFormat).isSome = true ∨
      (c.request.target.accelerator.encoderName? c.request.target.videoFormat).isSome = true ∧
        c.capabilities.encodes c.request.target.videoFormat
          (some c.request.target.pixelFormat) = true := by
  by_cases h : c.request.settings.container = .nut
  · refine iff_of_true (.inr (.inr (.inl ?_))) (.inl h)
    rw [videoFormat_of_nut h]
    rfl
  · rw [or_iff_right h, Encodable, EncodesOnAccelerator, videoFormat_of_ne_nut h]

/-! ## Before the copy -/

theorem container_eq_error
    (h : c.request.settings.container = .hls ∧ c.request.settings.hls = none) :
    c.container = .error (.invalidTarget .hlsSettingsMissing) := by
  unfold container
  rw [h.1, h.2]

theorem exists_container
    (h : ¬(c.request.settings.container = .hls ∧ c.request.settings.hls = none)) :
    ∃ k, c.container = .ok k := by
  unfold container
  cases hk : c.request.settings.container with
  | hls =>
    cases hs : c.request.settings.hls with
    | none => exact absurd ⟨hk, hs⟩ h
    | some hls => exact ⟨_, rfl⟩
  | _ => exact ⟨_, rfl⟩

theorem Accepted.prepared (h : c.Accepted) :
    c.request.target.desired c.request.video.stream c.request.settings = .ok c.desired ∧
      ∃ k, c.container = .ok k :=
  ⟨Target.desired_eq_ok_iff.mpr ⟨Target.problem?_eq_none_iff.mpr h.target, rfl⟩,
    exists_container h.settings⟩

theorem run_of_assembled_error {x : Failure} (h : c.assembled = .error x) : c.run = .error x := by
  rw [run, h]
  rfl

theorem run_of_not_accepted (h : ¬c.Accepted) : ∃ p, c.run = .error (.invalidTarget p) := by
  cases hp : c.request.target.problem? with
  | some p =>
    refine ⟨p, run_of_assembled_error (assembled_of_refused ?_)⟩
    rw [Target.desired, hp]
  | none =>
    have hvalid := Target.problem?_eq_none_iff.mp hp
    have hd : c.request.target.desired c.request.video.stream c.request.settings = .ok c.desired :=
      Target.desired_eq_ok_iff.mpr ⟨hp, rfl⟩
    have hs := Decidable.not_not.mp fun hs => h ⟨hvalid, hs⟩
    exact ⟨_, run_of_assembled_error (assembled_of_uncontained hd (container_eq_error hs))⟩

theorem run_of_copied (h : c.Accepted) (hr : c.reasons c.desired = []) :
    ∃ k, c.run = .ok (c.copied k) := by
  obtain ⟨hd, k, hk⟩ := h.prepared
  refine ⟨k, ?_⟩
  rw [run_eq (assembled_of_copied hd hk hr)]
  exact checked_eq_ok_iff.mpr (c.agrees_copied k)

theorem run_of_transcoded (h : c.Accepted) (hr : c.reasons c.desired ≠ []) :
    ∃ k, c.run = c.transcodedAssembly c.desired k >>= checked := by
  obtain ⟨hd, k, hk⟩ := h.prepared
  exact ⟨k, by rw [run, assembled_of_transcoded hd hk hr]⟩

/-! ## Decoder and encoder -/

theorem decoderSelection_eq_error (h : ¬c.Decodable) :
    c.decoderSelection =
      .error (.unsupported .decoder c.request.video.stream.codec .none) := by
  obtain ⟨hcodec, hstill⟩ := not_or.mp h
  have hcodec := Decidable.not_not.mp hcodec
  rw [decoderSelection, decodingAccelerator_eq_none hcodec, Decoder.select, hcodec]
  exact if_neg hstill

theorem exists_decoderSelection (h : c.Decodable) : ∃ d, c.decoderSelection = .ok d := by
  unfold decoderSelection Decoder.select
  cases hcodec : VideoFormat.ofCodec? c.request.video.stream.codec with
  | none =>
    have hstill := h.resolve_left (not_not_intro hcodec)
    exact ⟨_, if_pos hstill⟩
  | some format =>
    dsimp only
    split
    · exact ⟨_, rfl⟩
    · exact ⟨_, rfl⟩

theorem isHardware_of_encoderName? {a : Accelerator} {format : VideoFormat}
    (h : (a.encoderName? format).isSome = true) : a.isHardware = true := by
  cases a with
  | none => cases format <;> cases h
  | _ => rfl

theorem granted_encoderChoice (c : Compilation) :
    c.encoderChoice.granted = .none ↔ ¬c.EncodesOnAccelerator := by
  have hacc : c.encoderChoice.accelerator = c.encodingAccelerator := rfl
  have hformat : c.encoderChoice.format = c.videoFormat := rfl
  unfold VideoEncoder.Choice.granted
  rw [hacc, hformat, encodingAccelerator, EncodesOnAccelerator]
  cases hn : (c.request.target.accelerator.encoderName? c.videoFormat).isSome with
  | false => simp
  | true =>
    have hh := isHardware_of_encoderName? hn
    cases he : c.capabilities.encodes c.videoFormat (some c.request.target.pixelFormat) with
    | false => simp
    | true =>
      simp only [hh, hn, Bool.and_self, if_true]
      refine iff_of_false (fun ha => ?_) (not_not_intro ⟨trivial, trivial⟩)
      rw [ha] at hh
      cases hh

theorem select_encoderChoice_eq_error (h : ¬c.Encodable) :
    VideoEncoder.select c.encoderChoice =
      .error (.unsupported .encoder c.videoFormat.text .none) := by
  obtain ⟨hcopy, himplicit, hhost, haccelerator⟩ :
      c.videoFormat ≠ .copy ∧ c.videoFormat ≠ .undetermined ∧
        ¬(softwareEncoder? c.videoFormat).isSome = true ∧ ¬c.EncodesOnAccelerator := by
    simpa only [Encodable, not_or] using h
  have hhost : softwareEncoder? c.videoFormat = none := by simpa using hhost
  rw [VideoEncoder.select_eq (c := c.encoderChoice) hcopy himplicit]
  exact if_pos ⟨c.granted_encoderChoice.mpr haccelerator, hhost⟩

theorem exists_select_encoderChoice (h : c.Encodable) :
    ∃ e, VideoEncoder.select c.encoderChoice = .ok e := by
  by_cases hcopy : c.videoFormat = .copy
  · exact ⟨_, VideoEncoder.select_copy hcopy⟩
  by_cases himplicit : c.videoFormat = .undetermined
  · exact ⟨_, VideoEncoder.select_undetermined himplicit⟩
  have hhave := (h.resolve_left hcopy).resolve_left himplicit
  rw [VideoEncoder.select_eq (c := c.encoderChoice) hcopy himplicit]
  refine ⟨_, if_neg ?_⟩
  rintro ⟨hgranted, hnone⟩
  rcases hhave with hhost | haccelerator
  · rw [show softwareEncoder? c.videoFormat = none from hnone] at hhost
    cases hhost
  · exact c.granted_encoderChoice.mp hgranted haccelerator

/-! ## Outcomes -/

/-- A request that nothing is refused of, and whose video is not copied. -/
structure Served (c : Compilation) : Prop where
  accepted : c.Accepted
  transcodes : c.reasons c.desired ≠ []
  decodable : c.Decodable
  encodable : c.Encodable

theorem served_iff :
    c.Served ↔ c.Accepted ∧ c.reasons c.desired ≠ [] ∧ c.Decodable ∧ c.Encodable :=
  ⟨fun h => ⟨h.accepted, h.transcodes, h.decodable, h.encodable⟩,
    fun h => ⟨h.1, h.2.1, h.2.2.1, h.2.2.2⟩⟩

inductive Outcome (c : Compilation) : Prop
  | invalid (p : TargetProblem) : ¬c.Accepted → c.run = .error (.invalidTarget p) → Outcome c
  | copied (k : Container) : c.Accepted → c.reasons c.desired = [] → c.run = .ok (c.copied k) →
      Outcome c
  | undecodable : c.Accepted → c.reasons c.desired ≠ [] → ¬c.Decodable →
      c.run = .error (.unsupported .decoder c.request.video.stream.codec .none) → Outcome c
  | unencodable : c.Accepted → c.reasons c.desired ≠ [] → c.Decodable → ¬c.Encodable →
      c.run = .error (.unsupported .encoder c.videoFormat.text .none) → Outcome c
  | transcoded (p : Pipeline) : c.Served → c.run = .ok p → p.decoder?.isSome = true → Outcome c
  | marginTooLarge : c.Served → c.request.watermark.isSome = true →
      c.run = .error (.fault .marginTooLarge) → Outcome c
  | disagreement (parts : List Disagreement) : c.Served →
      c.run = .error (.fault (.disagreement parts)) → Outcome c

/-- With a decoder and an encoder, all that is left is to lay the watermark and to check. -/
theorem Served.outcome (h : c.Served) : c.Outcome := by
  obtain ⟨k, hrun⟩ := run_of_transcoded h.accepted h.transcodes
  obtain ⟨d, hd⟩ := exists_decoderSelection h.decodable
  obtain ⟨e, he⟩ := exists_select_encoderChoice h.encodable
  have hm := machinery_of_selected hd he
  cases hx : c.run with
  | ok p =>
    obtain ⟨a, ha, rfl⟩ := assembled_of_run hx
    obtain ⟨t⟩ := transcoding_of_assembled ha h.transcodes
    refine .transcoded _ h hx ?_
    rw [t.decoder?_eq]
    rfl
  | error x =>
    rw [hrun] at hx
    rcases bind_eq_error_iff.mp hx with ha | ⟨a, -, hc⟩
    · have ht := (transcodedAssembly_eq_error_iff hm).mp ha
      obtain ⟨rfl, hw⟩ := marginTooLarge_of_transcoded ht
      exact .marginTooLarge h hw (hrun.trans hx)
    · obtain ⟨parts, rfl⟩ := disagreement_of_checked hc
      exact .disagreement parts h (hrun.trans hx)

/-- **Every compilation ends in one of these ways.** -/
theorem outcome (c : Compilation) : c.Outcome := by
  by_cases hacc : c.Accepted
  case neg =>
    obtain ⟨p, hp⟩ := run_of_not_accepted hacc
    exact .invalid p hacc hp
  by_cases hr : c.reasons c.desired = []
  · obtain ⟨k, hk⟩ := run_of_copied hacc hr
    exact .copied k hacc hr hk
  obtain ⟨k, hrun⟩ := run_of_transcoded hacc hr
  by_cases hdec : c.Decodable
  case neg =>
    refine .undecodable hacc hr hdec ?_
    rw [hrun, transcodedAssembly, machinery_of_undecodable (decoderSelection_eq_error hdec)]
    rfl
  by_cases henc : c.Encodable
  case neg =>
    obtain ⟨d, hd⟩ := exists_decoderSelection hdec
    refine .unencodable hacc hr hdec henc ?_
    rw [hrun, transcodedAssembly,
      machinery_of_unencodable hd (select_encoderChoice_eq_error henc)]
    rfl
  exact Served.outcome ⟨hacc, hr, hdec, henc⟩

/-- **What each refusal means.**  The target is refused if it is invalid, or if HLS has no
settings.  Otherwise, unless the video is copied, the decoder is refused if the codec is unknown and
the source is no still image, and then the encoder if the output needs one and neither the host nor
the accelerator has it.  Nothing else is refused: a copy is given as it is, and a transcoding too,
unless the work on it is given up, because of a watermark's margin or in the check at the end. -/
theorem run_refuses_iff (c : Compilation) :
    ((∃ p, c.run = .error (.invalidTarget p)) ↔
      ¬c.request.target.Valid ∨
        (c.request.settings.container = .hls ∧ c.request.settings.hls = none)) ∧
    (∀ text a, c.run = .error (.unsupported .decoder text a) ↔
      c.Accepted ∧ c.reasons c.desired ≠ [] ∧ ¬c.Decodable ∧
        text = c.request.video.stream.codec ∧ a = .none) ∧
    (∀ text a, c.run = .error (.unsupported .encoder text a) ↔
      c.Accepted ∧ c.reasons c.desired ≠ [] ∧ c.Decodable ∧ ¬c.Encodable ∧
        text = c.videoFormat.text ∧ a = .none) ∧
    ((∃ k, c.run = .ok (c.copied k)) ↔ c.Accepted ∧ c.reasons c.desired = []) ∧
    (c.Served ↔
      (∃ p, c.run = .ok p ∧ p.decoder?.isSome = true) ∨
        (c.run = .error (.fault .marginTooLarge) ∧ c.request.watermark.isSome = true) ∨
        ∃ parts, c.run = .error (.fault (.disagreement parts))) := by
  have hacc : ¬c.Accepted ↔ ¬c.request.target.Valid ∨
      (c.request.settings.container = .hls ∧ c.request.settings.hls = none) := by
    rw [accepted_iff, Classical.not_and_iff_not_or_not, Decidable.not_not]
  rw [← hacc]
  cases c.outcome with
  | invalid p h hrun => simp [hrun, h, served_iff]
  | copied k h hr hrun =>
    have hd := c.decoder?_copied k
    have hcopied : ∃ l, c.copied k = c.copied l := ⟨k, rfl⟩
    simp [hrun, h, hr, hd, hcopied, served_iff]
  | undecodable h hr hd hrun =>
    simp [hrun, h, hr, hd, served_iff, @eq_comm String, @eq_comm Accelerator]
  | unencodable h hr hd he hrun =>
    simp [hrun, h, hr, hd, he, served_iff, @eq_comm String, @eq_comm Accelerator]
  | transcoded p h hrun hd =>
    have hno : ∀ k, p ≠ c.copied k := by
      rintro k rfl
      rw [decoder?_copied] at hd
      cases hd
    simp [hrun, h, h.accepted, h.transcodes, h.decodable, h.encodable, hd, hno]
  | marginTooLarge h hw hrun =>
    simp [hrun, h, h.accepted, h.transcodes, h.decodable, h.encodable, hw]
  | disagreement parts h hrun =>
    simp [hrun, h, h.accepted, h.transcodes, h.decodable, h.encodable]

end Compilation

end Playout
