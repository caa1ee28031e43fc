import Playout.Plan.Compile
import Playout.Proofs.Filter.Picture

/-!
# Machinery

What is chosen to decode, encode and filter the video fits together.

* `Decoder.ofFormat_memory`, `VideoEncoder.select_eq_ok`: what the two choices can give.
* `VideoEncoder.select_eq_copy_iff`, `AudioEncoder.select_eq_copy_iff`: when an encoder copies.
* `Machinery.Coherent`: the family of filters works where the encoder takes its frames, or, for
  an encoder that takes them from the host, where the decoder leaves them.
* `Compilation.machinery_coherent`: the machinery of a compilation is coherent.
-/

namespace Playout

theorem bind_eq_ok_iff {ε α β : Type} {x : Except ε α} {f : α → Except ε β} {b : β} :
    (x >>= f) = .ok b ↔ ∃ a, x = .ok a ∧ f a = .ok b := by
  cases x with
  | error e => simp [bind, Except.bind]
  | ok a => simp [bind, Except.bind]

theorem bind_eq_error_iff {ε α β : Type} {x : Except ε α} {f : α → Except ε β} {e : ε} :
    (x >>= f) = .error e ↔ x = .error e ∨ ∃ a, x = .ok a ∧ f a = .error e := by
  cases x with
  | error _ => simp [bind, Except.bind]
  | ok a => simp [bind, Except.bind]

/-- What cannot fail in this way does not add to the ways to fail. -/
theorem bind_eq_error_iff_of_ne {ε α β : Type} {x : Except ε α} {f : α → Except ε β} {e : ε}
    (h : ∀ a, f a ≠ .error e) : (x >>= f) = .error e ↔ x = .error e := by
  rw [bind_eq_error_iff, or_iff_left]
  rintro ⟨a, -, ha⟩
  exact h a ha

theorem toOption_eq_some_iff {α : Type} {y : Except Failure α} {a : α} :
    y.toOption = some a ↔ y = .ok a := by
  cases y <;> simp [Except.toOption]

/-! ## Decoders -/

namespace Decoder

theorem memory_eq_software {d : Decoder} (h : d.isHardware = false) : d.memory = .software := by
  cases d <;> simp_all [isHardware, memory]

/-- An accelerator's decoder leaves frames in the memory of the accelerator's filters. -/
theorem ofFormat_memory {format : VideoFormat} {tenBit : Bool} {a : Accelerator}
    {deinterlace : Bool} (h : (ofFormat format tenBit a deinterlace).isHardware = true) :
    (ofFormat format tenBit a deinterlace).memory = (Backend.ofAccelerator a).memory := by
  cases a <;> cases format <;> cases tenBit <;> first | rfl | cases h

theorem ofFormat_deinterlaces {format : VideoFormat} {tenBit : Bool} {a : Accelerator}
    {deinterlace : Bool} (h : (ofFormat format tenBit a deinterlace).deinterlaces = true) :
    deinterlace = true := by
  cases a <;> cases format <;> cases tenBit <;> first | exact h | cases h

/-- The decoder is the demuxer's, or that of some format. -/
theorem select_eq_ok {stream : VideoStream} {a : Accelerator} {deinterlace : Bool} {d : Decoder}
    (h : select stream a deinterlace = .ok d) :
    d = .implicit ∨ ∃ format,
      d = ofFormat format (stream.bitDepth == 10) a (deinterlace && stream.interlaced) := by
  unfold select at h
  cases hf : VideoFormat.ofCodec? stream.codec with
  | none =>
    simp only [hf] at h
    split at h
    · exact .inl (Except.ok.inj h).symm
    · cases h
  | some format =>
    simp only [hf] at h
    split at h
    · exact .inl (Except.ok.inj h).symm
    · exact .inr ⟨format, (Except.ok.inj h).symm⟩

theorem next_memory {d : Decoder} {f : Frame} (h : f.memory = .software) :
    (d.next f).memory = d.memory := by
  cases d <;> simp [next, isHardware, memory, h]

theorem next_deinterlaced (d : Decoder) (f : Frame) :
    (d.next f).deinterlaced = (f.deinterlaced || d.deinterlaces) := by
  cases d <;> simp [next, isHardware, deinterlaces]

theorem next_pixelFormat (d : Decoder) (f : Frame) :
    (d.next f).pixelFormat =
      if d.isHardware then some (f.pixelFormat.getD .yuv420p).semiPlanar else f.pixelFormat := by
  unfold next
  split <;> rfl

theorem picture_next_congr {f g : Frame} (h : f.picture = g.picture) (d : Decoder) :
    (d.next f).picture = (d.next g).picture := by
  have h' := h
  simp only [Frame.picture, Picture.mk.injEq] at h'
  obtain ⟨hm, hp, hs, hpad, ha, hd, hh⟩ := h'
  unfold next
  split
  · simp [Frame.picture, hm, hp, hs, hpad, ha, hd, hh]
  · exact h

@[simp] theorem next_scaledSize (d : Decoder) (f : Frame) :
    (d.next f).scaledSize = f.scaledSize := by
  unfold next
  split <;> rfl

@[simp] theorem next_paddedSize (d : Decoder) (f : Frame) :
    (d.next f).paddedSize = f.paddedSize := by
  unfold next
  split <;> rfl

end Decoder

/-! ## Encoders -/

namespace VideoEncoder

/-- The accelerator, if it has an encoder for the format. -/
def Choice.granted (c : Choice) : Accelerator :=
  if (c.accelerator.encoderName? c.format).isSome then c.accelerator else .none

theorem Choice.granted_cases (c : Choice) : c.granted = c.accelerator ∨ c.granted = .none := by
  unfold granted
  split
  · exact .inl rfl
  · exact .inr rfl

theorem select_eq {c : Choice} (hcopy : c.format ≠ .copy) (himplicit : c.format ≠ .undetermined) :
    select c =
      if c.granted = .none ∧ softwareEncoder? c.format = none then
        .error (.unsupported .encoder c.format.text .none)
      else .ok (explicit c.granted ⟨c.format, consumed c.granted c.format c.pixelFormat, c.profile,
        c.preset, c.rateControl⟩) := by
  unfold select
  split
  · next h => exact absurd h hcopy
  · next h => exact absurd h himplicit
  · rfl

theorem select_copy {c : Choice} (h : c.format = .copy) : select c = .ok copy := by
  rw [select, h]

theorem select_undetermined {c : Choice} (h : c.format = .undetermined) :
    select c = .ok implicit := by
  rw [select, h]

theorem select_eq_copy_iff {c : Choice} : select c = .ok copy ↔ c.format = .copy := by
  refine ⟨fun h => Decidable.byContradiction fun hcopy => ?_, select_copy⟩
  by_cases himplicit : c.format = .undetermined
  · rw [select_undetermined himplicit] at h
    cases h
  · rw [select_eq hcopy himplicit] at h
    split at h
    · cases h
    · cases h

/-- An encoder of settings runs on the accelerator asked for or on the host, and consumes what
that one makes of the format asked for. -/
theorem select_eq_ok {c : Choice} {e : VideoEncoder} (h : select c = .ok e) :
    e = .copy ∨ e = .implicit ∨
      ∃ a s, e = .explicit a s ∧ (a = c.accelerator ∨ a = .none) ∧ s.format = c.format ∧
        s.pixelFormat = consumed a c.format c.pixelFormat := by
  by_cases hcopy : c.format = .copy
  · rw [select_copy hcopy] at h
    exact .inl (Except.ok.inj h).symm
  by_cases himplicit : c.format = .undetermined
  · rw [select_undetermined himplicit] at h
    exact .inr (.inl (Except.ok.inj h).symm)
  rw [select_eq hcopy himplicit] at h
  split at h
  · cases h
  · exact .inr (.inr ⟨_, _, (Except.ok.inj h).symm, c.granted_cases, rfl, rfl⟩)

/-- Only three accelerators' encoders take frames from an accelerator, and all of them have
filters. -/
theorem ofAccelerator_isHardware {e : VideoEncoder} {q : PixelFormat}
    (h : e.surfaceFormat? = some q) : (Backend.ofAccelerator e.accelerator).isHardware = true := by
  cases e with
  | copy | implicit => cases h
  | explicit a s => cases a <;> first | rfl | cases h

theorem isHardware_of_surfaceFormat? {e : VideoEncoder} {q : PixelFormat}
    (h : e.surfaceFormat? = some q) : e.isHardware = true := by
  cases e with
  | copy | implicit => cases h
  | explicit a s => cases a <;> first | rfl | cases h

theorem memory_ofAccelerator_of_surfaceFormat?_eq_none {e : VideoEncoder}
    (h : e.surfaceFormat? = none) : (Backend.ofAccelerator e.accelerator).memory = .software := by
  cases e with
  | copy | implicit => rfl
  | explicit a s => cases a <;> first | rfl | cases h

theorem surfaceFormat?_eq_some_iff {e : VideoEncoder} {q : PixelFormat} :
    e.surfaceFormat? = some q ↔ e.memory? = some .hardware ∧ e.pixelFormat? = some q := by
  cases e with
  | copy | implicit => simp [surfaceFormat?, memory?]
  | explicit a s => cases a <;> simp [surfaceFormat?, memory?]

theorem surfaceFormat?_eq_none_iff {e : VideoEncoder} :
    e.surfaceFormat? = none ↔ e.memory? ≠ some .hardware := by
  cases e with
  | copy | implicit => simp [surfaceFormat?, memory?]
  | explicit a s => cases a <;> simp [surfaceFormat?, memory?, pixelFormat?, settings?]

theorem accelerator_eq_none {e : VideoEncoder} (h : e.pixelFormat? = none) :
    e.accelerator = .none := by
  cases e with
  | copy | implicit => rfl
  | explicit a s => cases h

end VideoEncoder

namespace AudioEncoder

theorem ofFormat_eq_copy_iff {format : AudioFormat} : ofFormat format = copy ↔ format = .copy := by
  cases format <;> simp [ofFormat]

theorem select_eq_copy_iff {t : AudioTarget} :
    select t.format = some copy ↔ t.audioFormat = some .copy := by
  rw [select, Option.map_eq_some_iff]
  simp only [ofFormat_eq_copy_iff, exists_eq_right]
  rfl

end AudioEncoder

/-! ## Both together -/

/-- The family of filters works where the encoder takes its frames, or, for an encoder that
takes them from the host, where the decoder leaves them. -/
structure Machinery.Coherent (m : Machinery) : Prop where
  family : ∀ q, m.encoder.surfaceFormat? = some q → m.backend = .ofAccelerator m.encoder.accelerator
  host : m.encoder.surfaceFormat? = none → m.decoder.memory = m.backend.memory

namespace Machinery.Coherent

variable {m : Machinery}

theorem isHardware_of_surface (hm : m.Coherent) {q : PixelFormat}
    (h : m.encoder.surfaceFormat? = some q) : m.backend.isHardware = true := by
  rw [hm.family q h]
  exact VideoEncoder.ofAccelerator_isHardware h

end Machinery.Coherent

namespace Compilation

variable {c : Compilation} {m : Machinery}

theorem videoFormat_of_nut (h : c.request.settings.container = .nut) :
    c.videoFormat = .rawvideo :=
  if_pos h

theorem videoFormat_of_ne_nut (h : c.request.settings.container ≠ .nut) :
    c.videoFormat = c.request.target.videoFormat :=
  if_neg h

theorem decodingAccelerator_cases (c : Compilation) :
    c.decodingAccelerator = c.request.target.accelerator ∨ c.decodingAccelerator = .none := by
  unfold decodingAccelerator
  dsimp only
  split
  · split
    · exact .inl rfl
    · exact .inr rfl
  · exact .inr rfl

theorem encodingAccelerator_cases (c : Compilation) :
    c.encodingAccelerator = c.request.target.accelerator ∨ c.encodingAccelerator = .none := by
  unfold encodingAccelerator
  dsimp only
  split
  · exact .inl rfl
  · exact .inr rfl

/-- A machinery is made of the two choices, and of the family of their accelerator. -/
theorem machinery_eq_ok (h : c.machinery = .ok m) :
    Decoder.select c.request.video.stream c.decodingAccelerator c.request.target.deinterlace
        = .ok m.decoder ∧
      VideoEncoder.select c.encoderChoice = .ok m.encoder ∧
      m.backend =
        .ofPipeline c.request.target.accelerator m.decoder.isHardware m.encoder.isHardware := by
  simp only [machinery, bind_eq_ok_iff, pure, Except.pure, Except.ok.injEq] at h
  obtain ⟨d, hd, e, he, rfl⟩ := h
  exact ⟨hd, he, rfl⟩

theorem decoder_memory (h : c.machinery = .ok m) (hd : m.decoder.isHardware = true) :
    m.decoder.memory = (Backend.ofAccelerator c.request.target.accelerator).memory := by
  obtain ⟨hs, -, -⟩ := machinery_eq_ok h
  rcases Decoder.select_eq_ok hs with hi | ⟨format, hf⟩
  · rw [hi] at hd
    cases hd
  · rw [hf] at hd ⊢
    rw [Decoder.ofFormat_memory hd]
    rcases c.decodingAccelerator_cases with ha | ha
    · rw [ha]
    · rw [ha] at hd
      cases format <;> cases hd

theorem decoder_deinterlaces (h : c.machinery = .ok m) (hd : m.decoder.deinterlaces = true) :
    (c.request.target.deinterlace && c.request.video.stream.interlaced) = true := by
  obtain ⟨hs, -, -⟩ := machinery_eq_ok h
  rcases Decoder.select_eq_ok hs with hi | ⟨format, hf⟩
  · rw [hi] at hd
    cases hd
  · rw [hf] at hd
    exact Decoder.ofFormat_deinterlaces hd

theorem encoder_accelerator (h : c.machinery = .ok m) (he : m.encoder.isHardware = true) :
    m.encoder.accelerator = c.request.target.accelerator := by
  obtain ⟨-, hs, -⟩ := machinery_eq_ok h
  rcases VideoEncoder.select_eq_ok hs with hc | hi | ⟨a, s, hx, ha, -⟩
  · rw [hc] at he
    cases he
  · rw [hi] at he
    cases he
  · rw [hx] at he ⊢
    have hn : a ≠ .none := by
      rintro rfl
      cases he
    have ha := ha.resolve_right hn
    show a = _
    rcases c.encodingAccelerator_cases with hc | hc
    · exact ha.trans hc
    · exact absurd (ha.trans hc) hn

/-- **The machinery of a compilation is coherent.** -/
theorem machinery_coherent (h : c.machinery = .ok m) : m.Coherent := by
  obtain ⟨-, -, hb⟩ := machinery_eq_ok h
  refine ⟨?_, ?_⟩
  · intro q hq
    have he := VideoEncoder.isHardware_of_surfaceFormat? hq
    rw [hb, he, Backend.ofPipeline, Bool.or_true, if_pos rfl, encoder_accelerator h he]
  · intro hq
    rw [hb, Backend.ofPipeline]
    cases hd : m.decoder.isHardware with
    | true =>
      rw [Bool.true_or, if_pos rfl]
      exact decoder_memory h hd
    | false =>
      rw [Decoder.memory_eq_software hd, Bool.false_or]
      cases he : m.encoder.isHardware with
      | true =>
        rw [if_pos rfl, ← encoder_accelerator h he,
          VideoEncoder.memory_ofAccelerator_of_surfaceFormat?_eq_none hq]
      | false => rfl

end Compilation

end Playout
