import Playout.Plan.Copying
import Playout.Proofs.Item.Desired

/-!
# Reasons against a copy

When each reason against copying the video holds, and when none does.

* `mem_videoReasons`: a reason is listed exactly if it holds.
* `Matches`: what a source has to have so that a target can be met by a copy.
* `copies_iff`: a source is copied if it matches, but for an odd width that the target does not
  stretch.
-/

namespace Playout

def TranscodeReason.holds (source desired : Frame) (allowCopy overlays : Bool) :
    TranscodeReason → Bool
  | .copyNotAllowed => !allowCopy
  | .videoFormatMismatch => source.videoFormat != desired.videoFormat
  | .pixelFormatMismatch => !samePixels source.pixelFormat desired.pixelFormat
  | .sizeMismatch =>
    source.scaledSize != desired.scaledSize || desired.scaledSize != desired.paddedSize
  | .anamorphic => source.anamorphic
  | .deinterlace => desired.deinterlaced && !source.deinterlaced
  | .toneMap => source.hdr && !desired.hdr
  | .overlays => overlays
  | .rawVideoOutput => desired.container == some .nut
  | .audioFormatMismatch | .channelMismatch | .audioFilters => false

section

variable {source desired : Frame} {allowCopy overlays : Bool}

theorem mem_videoReasons {r : TranscodeReason} :
    r ∈ videoReasons source desired allowCopy overlays ↔
      r.holds source desired allowCopy overlays = true := by
  rw [videoReasons, mem_reasonsOf]
  cases r <;> simp [TranscodeReason.holds]

theorem videoReasons_eq_nil_iff :
    videoReasons source desired allowCopy overlays = [] ↔
      ∀ r, TranscodeReason.holds source desired allowCopy overlays r = false := by
  simp only [List.eq_nil_iff_forall_not_mem, mem_videoReasons, Bool.not_eq_true]

end

/-- A source that has what a target asks for, with nothing laid over it. -/
structure Matches (t : Target) (stream : VideoStream) (settings : Settings)
    (allowCopy overlays : Bool) : Prop where
  allowed : allowCopy = true
  videoFormat : (VideoFormat.ofCodec? stream.codec).getD .undetermined = t.videoFormat
  pixels : ∃ p, stream.pixelFormat = some p ∧ p.sameWire t.pixelFormat = true
  size : stream.frameSize = t.resolution
  square : stream.isAnamorphic = false
  progressive : (t.deinterlace && stream.interlaced) = false
  range : stream.isHdr = false
  plain : overlays = false
  container : settings.container ≠ .nut

theorem samePixels_some_iff {p : Option PixelFormat} {q : PixelFormat} :
    samePixels p (some q) = true ↔ ∃ r, p = some r ∧ r.sameWire q = true := by
  cases p <;> simp [samePixels]

section

variable {t : Target} {stream : VideoStream} {settings : Settings}
  {realtime infiniteLoop allowCopy overlays : Bool}

theorem matches_of_reasons (h : videoReasons (.ofSource stream realtime infiniteLoop)
    (t.frame stream settings) allowCopy overlays = []) :
    Matches t stream settings allowCopy overlays := by
  have hno := videoReasons_eq_nil_iff.mp h
  have hsize := hno .sizeMismatch
  have hpixels := hno .pixelFormatMismatch
  simp only [TranscodeReason.holds, Bool.or_eq_false_iff, bne_eq_false_iff_eq] at hsize
  simp only [TranscodeReason.holds, Bool.not_eq_false'] at hpixels
  exact {
    allowed := by simpa [TranscodeReason.holds] using hno .copyNotAllowed
    videoFormat := by
      have hf := hno .videoFormatMismatch
      simp only [TranscodeReason.holds, bne_eq_false_iff_eq] at hf
      exact hf
    pixels := samePixels_some_iff.mp hpixels
    size := hsize.1.trans hsize.2
    square := hno .anamorphic
    progressive := (Bool.and_true _).symm.trans (hno .deinterlace)
    range := (Bool.and_true _).symm.trans (hno .toneMap)
    plain := hno .overlays
    container := by
      have hc := hno .rawVideoOutput
      simp only [TranscodeReason.holds, beq_eq_false_iff_ne, ne_eq] at hc
      exact fun he => hc (congrArg some he) }

theorem Matches.scaledSize_iff (h : Matches t stream settings allowCopy overlays)
    (hvalid : t.problem? = none) :
    (t.frame stream settings).scaledSize = t.resolution ↔
      t.scaling = .stretch ∨ t.resolution.width.toNat % 2 = 0 := by
  have hsquare : stream.squareSize = t.resolution :=
    (VideoStream.squareSize_of_square h.square).trans h.size
  have hframe : (t.frame stream settings).scaledSize =
      (t.scaling.sizes t.resolution t.resolution).1 := by
    show (t.scaling.sizes stream.squareSize t.resolution).1 = _
    rw [hsquare]
  rw [hframe]
  exact Scaling.sizes_self_iff (Target.isEmpty_resolution hvalid) t.scaling

/-- Only the size can speak against copying a source that matches. -/
theorem Matches.holds_iff (h : Matches t stream settings allowCopy overlays)
    (hvalid : t.problem? = none) (r : TranscodeReason) :
    r.holds (.ofSource stream realtime infiniteLoop) (t.frame stream settings) allowCopy overlays
        = true ↔
      r = .sizeMismatch ∧ ¬(t.scaling = .stretch ∨ t.resolution.width.toNat % 2 = 0) := by
  rw [← h.scaledSize_iff hvalid]
  cases r with
  | copyNotAllowed => simp [TranscodeReason.holds, h.allowed]
  | videoFormatMismatch =>
    have hf : (Frame.ofSource stream realtime infiniteLoop).videoFormat =
      (t.frame stream settings).videoFormat := h.videoFormat
    simp [TranscodeReason.holds, hf]
  | pixelFormatMismatch =>
    have hp : samePixels (Frame.ofSource stream realtime infiniteLoop).pixelFormat
      (t.frame stream settings).pixelFormat = true := samePixels_some_iff.mpr h.pixels
    simp [TranscodeReason.holds, hp]
  | sizeMismatch =>
    have hs : (Frame.ofSource stream realtime infiniteLoop).scaledSize = t.resolution := h.size
    have hp : (t.frame stream settings).paddedSize = t.resolution := rfl
    simp only [TranscodeReason.holds, hs, hp, Bool.or_eq_true, bne_iff_ne, ne_eq, true_and]
    rw [eq_comm (a := t.resolution), or_self]
  | anamorphic =>
    have ha : (Frame.ofSource stream realtime infiniteLoop).anamorphic = false := h.square
    simp [TranscodeReason.holds, ha]
  | deinterlace =>
    have hd : (t.frame stream settings).deinterlaced = false := h.progressive
    simp [TranscodeReason.holds, hd]
  | toneMap =>
    have hh : (Frame.ofSource stream realtime infiniteLoop).hdr = false := h.range
    simp [TranscodeReason.holds, hh]
  | overlays => simp [TranscodeReason.holds, h.plain]
  | rawVideoOutput =>
    have hc : (t.frame stream settings).container = some settings.container := rfl
    simp [TranscodeReason.holds, hc, h.container]
  | audioFormatMismatch | channelMismatch | audioFilters => simp [TranscodeReason.holds]

/-- **What is copied.**  A valid target's source is copied exactly if it matches and the target
keeps its size: it is stretched, or its width is even. -/
theorem copies_iff {desired : Frame} (h : t.desired stream settings = .ok desired) :
    videoReasons (.ofSource stream realtime infiniteLoop) desired allowCopy overlays = [] ↔
      Matches t stream settings allowCopy overlays ∧
        (t.scaling = .stretch ∨ t.resolution.width.toNat % 2 = 0) := by
  obtain ⟨hvalid, rfl⟩ := Target.desired_eq_ok_iff.mp h
  constructor
  · intro hr
    have hm := matches_of_reasons hr
    have hno := videoReasons_eq_nil_iff.mp hr .sizeMismatch
    refine ⟨hm, Decidable.byContradiction fun hodd => ?_⟩
    rw [(hm.holds_iff hvalid .sizeMismatch).mpr ⟨rfl, hodd⟩] at hno
    cases hno
  · rintro ⟨hm, hkeeps⟩
    refine videoReasons_eq_nil_iff.mpr fun r => ?_
    rw [← Bool.not_eq_true, hm.holds_iff hvalid]
    exact fun hx => hx.2 hkeeps

def filmOfWidth (width : UInt32) : VideoStream where
  codec := "h264"
  pixelFormatName := some "yuv420p"
  frameSize := ⟨width, 1080⟩

/-- A film of 1920 columns is copied. -/
theorem filmOfWidth_copied :
    ∃ desired, Target.desired {} (filmOfWidth 1920) {} = .ok desired ∧
      videoReasons (.ofSource (filmOfWidth 1920) true false) desired true false = [] := by
  have hd : Target.desired {} (filmOfWidth 1920) {} =
    .ok (Target.frame {} (filmOfWidth 1920) {}) := rfl
  refine ⟨_, hd, (copies_iff hd).mpr ⟨⟨rfl, ?_, ⟨.yuv420p, ?_, rfl⟩, rfl, rfl, rfl, rfl, rfl, ?_⟩,
    .inr ?_⟩⟩
  · decide +kernel
  · decide +kernel
  · decide
  · decide

/-- A film of 1919 columns matches a target of 1919 columns, and is scaled to 1918. -/
theorem filmOfOddWidth_not_copied :
    Matches { resolution := ⟨1919, 1080⟩ } (filmOfWidth 1919) {} true false ∧
      ∃ desired,
        Target.desired { resolution := ⟨1919, 1080⟩ } (filmOfWidth 1919) {} = .ok desired ∧
        desired.scaledSize = ⟨1918, 1080⟩ ∧
        videoReasons (.ofSource (filmOfWidth 1919) true false) desired true false =
          [.sizeMismatch] := by
  refine ⟨⟨rfl, ?_, ⟨.yuv420p, ?_, rfl⟩, rfl, rfl, rfl, rfl, rfl, ?_⟩, _, rfl, ?_, ?_⟩
  · decide +kernel
  · decide +kernel
  · decide
  · decide
  · decide +kernel

end

end Playout
