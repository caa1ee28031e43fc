import Playout.Device.Listing
import Playout.Proofs.Command.Codecs
import Playout.Proofs.Plan.CopiedVideo
import Playout.Proofs.Plan.HostChoice
import Playout.Proofs.Plan.SubtitleCodec

/-!
# Codecs that are listed

A request that is compiled for what ffmpeg lists names no codec of an accelerator that is not in
the list.

* `HardwareEncoder`, `DeviceDecoder`: the names of an accelerator's codecs.
* `Decoder.Serves`: the decoders of a format on an accelerator.
* `CodecListing.encoder_mem`, `Decoder.Serves.mem_decoders`: what is said to be possible is listed.
* `named_codecs_listed`: the codecs that a command names.
-/

namespace Playout

/-! ## Names -/

def HardwareEncoder (name : String) : Prop :=
  ∃ (a : Accelerator) (format : VideoFormat), a.encoderName? format = some name

/-- The name of a decoder of NVIDIA's or Intel's. -/
def DeviceDecoder (name : String) : Prop :=
  "_cuvid".toList <:+ name.toList ∨ "_qsv".toList <:+ name.toList

instance (name : String) : Decidable (DeviceDecoder name) := inferInstanceAs (Decidable (_ ∨ _))

theorem Accelerator.encoderName?_eq_some_iff {a : Accelerator} {format : VideoFormat}
    {name : String} :
    a.encoderName? format = some name ↔
      a.encodes format = true ∧
        ∃ codec, format.deviceText? = some codec ∧ codec ++ "_" ++ a.text = name := by
  unfold encoderName?
  cases a.encodes format with
  | false => simp
  | true => simp

theorem HardwareEncoder.underscore_mem {name : String} (h : HardwareEncoder name) :
    '_' ∈ name.toList := by
  obtain ⟨a, format, h⟩ := h
  obtain ⟨-, codec, -, rfl⟩ := Accelerator.encoderName?_eq_some_iff.mp h
  simp

/-- The host's encoders have names of another form. -/
theorem VideoEncoder.isHardware_of_name {e : VideoEncoder} {name : String}
    (h : e.name? = some name) (hn : HardwareEncoder name) : e.isHardware = true := by
  have hmem := hn.underscore_mem
  cases e with
  | copy =>
    cases h
    exact absurd hmem (by decide)
  | implicit => cases h
  | explicit a s =>
    cases a with
    | none =>
      have h : softwareEncoder? s.format = some name := h
      cases hf : s.format <;> rw [hf] at h <;> cases h <;> exact absurd hmem (by decide)
    | _ => rfl

theorem not_deviceDecoder_software {format : VideoFormat} {name : String}
    (h : (Decoder.software format).name? = some name) : ¬DeviceDecoder name := by
  cases format <;> cases h <;> decide

theorem Decoder.isHardware_of_name {d : Decoder} {name : String} (h : d.name? = some name)
    (hn : DeviceDecoder name) : d.isHardware = true := by
  cases d with
  | implicit => cases h
  | software format => exact absurd hn (not_deviceDecoder_software h)
  | _ => rfl

/-! ## Decoders of a format -/

inductive Decoder.Serves (format : VideoFormat) : Accelerator → Decoder → Prop
  | software (a : Accelerator) : Serves format a (.software format)
  | cuvid (deinterlace : Bool) : Serves format .nvenc (.cuvid format deinterlace)
  | implicitCuda : Serves format .nvenc .implicitCuda
  | qsv : Serves format .qsv (.qsv format)
  | vaapi : Serves format .vaapi .vaapi
  | videoToolbox : Serves format .videoToolbox .videoToolbox

theorem Decoder.serves_ofFormat (format : VideoFormat) (tenBit : Bool) (a : Accelerator)
    (deinterlace : Bool) : Serves format a (ofFormat format tenBit a deinterlace) := by
  cases a <;> cases format <;> cases tenBit <;> constructor

/-- A decoder on an accelerator is one of the source's format. -/
theorem Decoder.serves_of_select {stream : VideoStream} {a : Accelerator} {deinterlace : Bool}
    {d : Decoder} (h : select stream a deinterlace = .ok d) (hd : d.isHardware = true) :
    ∃ format, VideoFormat.ofCodec? stream.codec = some format ∧ Serves format a d := by
  unfold select at h
  cases hcodec : VideoFormat.ofCodec? stream.codec with
  | none =>
    rw [hcodec] at h
    dsimp only at h
    split at h
    · rw [← Except.ok.inj h] at hd
      cases hd
    · cases h
  | some format =>
    rw [hcodec] at h
    dsimp only at h
    split at h
    · rw [← Except.ok.inj h] at hd
      cases hd
    · refine ⟨format, rfl, ?_⟩
      rw [← Except.ok.inj h]
      exact serves_ofFormat _ _ _ _

/-! ## Listings -/

namespace CodecListing

variable {l : CodecListing} {a : Accelerator} {format : VideoFormat} {pixels : Option PixelFormat}

theorem encodes_of_capabilities (h : (l.capabilities a).encodes format pixels = true) :
    l.encodes a format = true := by
  obtain ⟨s, hs, hformat, -⟩ := supports_iff.mp h
  obtain ⟨f, hf, rfl⟩ := List.mem_map.mp hs
  rw [← hformat]
  exact (List.mem_filter.mp hf).2

theorem decodes_of_capabilities (h : (l.capabilities a).decodes format pixels = true) :
    l.decodes a format = true := by
  obtain ⟨s, hs, hformat, -⟩ := supports_iff.mp h
  obtain ⟨f, hf, rfl⟩ := List.mem_map.mp hs
  rw [← hformat]
  exact (List.mem_filter.mp hf).2

theorem encoder_mem (h : l.encodes a format = true) {name : String}
    (hn : a.encoderName? format = some name) : name ∈ l.encoders := by
  obtain ⟨-, codec, hcodec, rfl⟩ := Accelerator.encoderName?_eq_some_iff.mp hn
  unfold encodes at h
  rw [hcodec] at h
  dsimp only at h
  rw [Bool.and_eq_true, List.contains_iff_mem] at h
  exact h.2

/-- Decoding without a decoder's name is taken for granted with the accelerator's H.264 encoder. -/
theorem mem_encoders_of_decodes (ha : a = .vaapi ∨ a = .videoToolbox)
    (h : l.decodes a format = true) : "h264_" ++ a.text ∈ l.encoders := by
  unfold decodes at h
  cases hcodec : format.deviceText? with
  | none =>
    rw [hcodec] at h
    cases h
  | some codec =>
    rw [hcodec] at h
    rcases ha with rfl | rfl
    · exact List.contains_iff_mem.mp (Bool.and_eq_true _ _ ▸ h).1
    · exact List.contains_iff_mem.mp (Bool.and_eq_true _ _ ▸ h).1

end CodecListing

namespace Decoder.Serves

variable {l : CodecListing} {a : Accelerator} {format : VideoFormat} {d : Decoder}

theorem mem_decoders (hs : Serves format a d) (h : l.decodes a format = true) {name : String}
    (hn : d.name? = some name) (hd : DeviceDecoder name) : name ∈ l.decoders := by
  unfold CodecListing.decodes at h
  cases hs with
  | software a => exact absurd hd (not_deviceDecoder_software hn)
  | cuvid deinterlace | qsv =>
    obtain ⟨codec, hcodec, rfl⟩ := Option.map_eq_some_iff.mp hn
    rw [hcodec] at h
    exact List.contains_iff_mem.mp h
  | implicitCuda | vaapi | videoToolbox => cases hn

theorem mem_encoders_of_vaapi (hs : Serves format a .vaapi) (h : l.decodes a format = true) :
    "h264_vaapi" ∈ l.encoders := by
  cases hs
  exact CodecListing.mem_encoders_of_decodes (.inl rfl) h

theorem mem_encoders_of_videoToolbox (hs : Serves format a .videoToolbox)
    (h : l.decodes a format = true) : "h264_videotoolbox" ∈ l.encoders := by
  cases hs
  exact CodecListing.mem_encoders_of_decodes (.inr rfl) h

end Decoder.Serves

namespace Compilation

variable {c : Compilation} {m : Machinery} {a : Assembly}

/-! ## What is chosen -/

theorem encodes_of_encodingAccelerator (h : c.encodingAccelerator.isHardware = true) :
    c.encodingAccelerator = c.request.target.accelerator ∧
      c.capabilities.encodes c.videoFormat (some c.request.target.pixelFormat) = true := by
  unfold encodingAccelerator at h ⊢
  dsimp only at h ⊢
  split
  · next hc =>
    rw [Bool.and_eq_true, Bool.and_eq_true] at hc
    exact ⟨rfl, hc.1.2⟩
  · next hc =>
    rw [if_neg hc] at h
    cases h

/-- An accelerator's encoder is named as the target's, which is said to encode the output. -/
theorem name_of_hardware (h : c.machinery = .ok m) (he : m.encoder.isHardware = true) :
    m.encoder.name? = c.request.target.accelerator.encoderName? c.videoFormat ∧
      c.capabilities.encodes c.videoFormat (some c.request.target.pixelFormat) = true := by
  obtain ⟨-, hs, -⟩ := machinery_eq_ok h
  have hacc := encoder_accelerator h he
  rcases VideoEncoder.select_eq_ok hs with hc | hi | ⟨x, s, hx, ha, hformat, -⟩
  · rw [hc] at he
    cases he
  · rw [hi] at he
    cases he
  · rw [hx] at he hacc ⊢
    have hx : x.isHardware = true := he
    have hchosen : x = c.encodingAccelerator := by
      refine ha.resolve_right ?_
      rintro rfl
      cases he
    refine ⟨?_, (encodes_of_encodingAccelerator (hchosen ▸ he)).2⟩
    have hformat : s.format = c.videoFormat := hformat
    have hacc : x = c.request.target.accelerator := hacc
    rw [← hacc, ← hformat]
    cases x with
    | none => cases he
    | _ => rfl

theorem decodes_of_decodingAccelerator {format : VideoFormat}
    (hcodec : VideoFormat.ofCodec? c.request.video.stream.codec = some format) :
    c.decodingAccelerator = .none ∨
      c.decodingAccelerator = c.request.target.accelerator ∧
        c.capabilities.decodes format c.request.video.stream.pixelFormat = true := by
  unfold decodingAccelerator
  dsimp only
  rw [hcodec]
  dsimp only
  split
  · next h =>
    rw [Bool.and_eq_true] at h
    exact .inr ⟨rfl, h.2⟩
  · exact .inl rfl

/-- A decoder on the accelerator is one for a format that the accelerator is said to decode. -/
theorem serves_of_hardware (h : c.machinery = .ok m) (hd : m.decoder.isHardware = true) :
    ∃ format, Decoder.Serves format c.request.target.accelerator m.decoder ∧
      c.capabilities.decodes format c.request.video.stream.pixelFormat = true := by
  obtain ⟨hs, -, -⟩ := machinery_eq_ok h
  obtain ⟨format, hcodec, hserves⟩ := Decoder.serves_of_select hs hd
  rcases decodes_of_decodingAccelerator hcodec with hnone | ⟨hacc, hdecodes⟩
  · rw [hnone] at hs
    rw [Decoder.isHardware_select_none hs] at hd
    cases hd
  · rw [hacc] at hserves
    exact ⟨format, hserves, hdecodes⟩

/-! ## The codecs of a pipeline -/

theorem container_ne_file {k : Container} (h : c.container = .ok k) (path : String) :
    k ≠ .file path := by
  rintro rfl
  unfold container at h
  split at h
  · cases h
  · cases h
  · cases h
  · cases h
  · split at h
    · cases h
    · cases h

theorem file_not_mem (h : c.assembled = .ok a) (path : String) :
    .container (.file path) ∉ a.pipeline.steps := by
  obtain ⟨lead, k, hk, he, hlead⟩ := exists_trailing h
  rw [he]
  intro hm
  rcases List.mem_append.mp hm with hm | hm
  · cases hlead _ hm
  · have hfile : k = .file path := by
      simp only [trailingSteps, List.mem_append, Option.mem_toList, Option.map_eq_some_iff,
        List.mem_singleton, Step.container.injEq, reduceCtorEq, and_false, exists_false,
        or_false, false_or] at hm
      exact hm.symm
    exact container_ne_file hk path hfile

/-- A codec on an accelerator is that of a transcoding. -/
theorem transcoding_of_codes (h : c.assembled = .ok a) {s : Step} (hs : s ∈ a.pipeline.steps)
    (hc : s.group.codes = true) (hcopy : s ≠ .videoEncoder .copy) :
    ∃ t : c.Transcoding a,
      s = .decoder t.machinery.decoder ∨ s = .videoEncoder t.machinery.encoder := by
  rcases assembled_eq_ok h with ⟨k, -, rfl⟩ | ⟨⟨t⟩⟩
  · rcases mem_steps_copied hs with hb | he | rfl
    · rw [s.besideVideo_eq] at hb
      rw [StepGroup.codes_of_besideVideo hb] at hc
      cases hc
    · exact absurd he hcopy
    · cases hc
  · exact ⟨t, t.eq_of_codes hs hc⟩

section

variable {l : CodecListing} (hl : c.capabilities = l.capabilities c.request.target.accelerator)
include hl

theorem encoder_listed (h : c.assembled = .ok a) {e : VideoEncoder}
    (he : .videoEncoder e ∈ a.pipeline.steps) {name : String} (hn : e.name? = some name)
    (hh : HardwareEncoder name) : name ∈ l.encoders := by
  have hhard := VideoEncoder.isHardware_of_name hn hh
  have hcopy : Step.videoEncoder e ≠ .videoEncoder .copy := by
    rintro heq
    rw [Step.videoEncoder.inj heq] at hhard
    cases hhard
  obtain ⟨t, hd | he⟩ := transcoding_of_codes h he rfl hcopy
  · cases hd
  · cases he
    obtain ⟨hname, hencodes⟩ := name_of_hardware t.made hhard
    rw [hl] at hencodes
    exact CodecListing.encoder_mem (CodecListing.encodes_of_capabilities hencodes)
      (hname.symm.trans hn)

theorem decoder_listed (h : c.assembled = .ok a) {d : Decoder}
    (hd : .decoder d ∈ a.pipeline.steps) (hhard : d.isHardware = true) :
    ∃ format, Decoder.Serves format c.request.target.accelerator d ∧
      l.decodes c.request.target.accelerator format = true := by
  obtain ⟨t, hd | he⟩ := transcoding_of_codes h hd rfl nofun
  · cases hd
    obtain ⟨format, hserves, hdecodes⟩ := serves_of_hardware t.made hhard
    rw [hl] at hdecodes
    exact ⟨format, hserves, CodecListing.decodes_of_capabilities hdecodes⟩
  · cases he

end

end Compilation

/-- **No codec of an accelerator is named that ffmpeg does not list.**  A request is compiled for
the listings of the encoders and decoders.  Then its command names codecs in its inputs and in its
output only; an accelerator's encoder that the output names is among the encoders, a decoder of
NVIDIA's or Intel's that the inputs name is among the decoders, and decoding without a decoder's
name is chosen only where the accelerator's H.264 encoder is among the encoders. -/
theorem named_codecs_listed {encoders decoders : String} {r : Request} {config : Config}
    {p : Pipeline}
    (h : compile r ((CodecListing.parse encoders decoders).capabilities r.target.accelerator)
      config = .ok p) :
    (∀ words name, p.arguments = .ok words → NamesCodec words name →
      NamesCodec (p.inputs.flatMap p.inputArguments) name ∨
        ∃ output, p.outputArguments = .ok output ∧ NamesCodec output name) ∧
    (∀ words name, p.outputArguments = .ok words → NamesCodec words name → HardwareEncoder name →
      name ∈ namesOf encoders) ∧
    (∀ name, NamesCodec (p.inputs.flatMap p.inputArguments) name → DeviceDecoder name →
      name ∈ namesOf decoders) ∧
    (.decoder .vaapi ∈ p.steps → "h264_vaapi" ∈ namesOf encoders) ∧
    (.decoder .videoToolbox ∈ p.steps → "h264_videotoolbox" ∈ namesOf encoders) := by
  obtain ⟨a, ha, hc⟩ := bind_eq_ok_iff.mp h
  obtain rfl := Compilation.pipeline_of_checked hc
  have hl : (Compilation.mk r ((CodecListing.parse encoders decoders).capabilities
      r.target.accelerator) config).capabilities =
        (CodecListing.parse encoders decoders).capabilities r.target.accelerator := rfl
  refine ⟨fun words name hwords hnames => ?_, fun words name hwords hnames hh => ?_,
    fun name hnames hd => ?_, fun hd => ?_, fun hd => ?_⟩
  · exact Pipeline.namesCodec_of_arguments (Compilation.file_not_mem ha) hwords hnames
  · obtain ⟨e, he, hn⟩ :=
      (Pipeline.namesCodec_output_iff (Compilation.file_not_mem ha) hwords).mp hnames
    exact Compilation.encoder_listed hl ha he hn hh
  · obtain ⟨-, d, hm, hn⟩ := Pipeline.namesCodec_inputs_iff.mp hnames
    obtain ⟨format, hserves, hdecodes⟩ :=
      Compilation.decoder_listed hl ha hm (Decoder.isHardware_of_name hn hd)
    exact hserves.mem_decoders hdecodes hn hd
  · obtain ⟨format, hserves, hdecodes⟩ := Compilation.decoder_listed hl ha hd rfl
    exact hserves.mem_encoders_of_vaapi hdecodes
  · obtain ⟨format, hserves, hdecodes⟩ := Compilation.decoder_listed hl ha hd rfl
    exact hserves.mem_encoders_of_videoToolbox hdecodes

def intelEncoders : String := " V..... h264_qsv             H.264 (Intel Quick Sync Video)\n"

def intelDecoders : String := " V....D hevc_qsv             HEVC (Intel Quick Sync Video)\n"

def intelFilm : Request where
  video := ⟨"film.mkv", {
    codec := "hevc"
    pixelFormatName := some "yuv420p"
    frameSize := ⟨1920, 800⟩ }⟩
  target := { accelerator := .qsv }

/-- The film's decoder and encoder are named, and listed. -/
theorem intelFilm_named :
    ∃ p words, compile intelFilm
        ((CodecListing.parse intelEncoders intelDecoders).capabilities .qsv) {} = .ok p ∧
      p.outputArguments = .ok words ∧
      NamesCodec words "h264_qsv" ∧ "h264_qsv" ∈ namesOf intelEncoders ∧
      NamesCodec (p.inputs.flatMap p.inputArguments) "hevc_qsv" ∧
        "hevc_qsv" ∈ namesOf intelDecoders := by
  have hr : ((compile intelFilm ((CodecListing.parse intelEncoders intelDecoders).capabilities
      .qsv) {}).toOption.bind fun p : Pipeline => p.outputArguments.toOption.map fun words =>
        decide (NamesCodec words "h264_qsv" ∧
          NamesCodec (p.inputs.flatMap p.inputArguments) "hevc_qsv")) = some true := by
    decide +kernel
  obtain ⟨p, hp, hr⟩ := Option.bind_eq_some_iff.mp hr
  obtain ⟨words, hwords, hr⟩ := Option.map_eq_some_iff.mp hr
  obtain ⟨hencoder, hdecoder⟩ := of_decide_eq_true hr
  have hp := toOption_eq_some_iff.mp hp
  have hwords := toOption_eq_some_iff.mp hwords
  have hlisted := named_codecs_listed (r := intelFilm) hp
  exact ⟨p, words, hp, hwords, hencoder, hlisted.2.1 words _ hwords hencoder ⟨.qsv, .h264, rfl⟩,
    hdecoder, hlisted.2.2.1 _ hdecoder (by decide)⟩

end Playout
