import Playout.Item.Desired

/-!
# Copying or transcoding

The reasons for which a stream cannot be passed through as it is.
-/

namespace Playout

inductive TranscodeReason where
  | copyNotAllowed
  | videoFormatMismatch
  | pixelFormatMismatch
  | sizeMismatch
  | anamorphic
  | deinterlace
  | toneMap
  | overlays
  | rawVideoOutput
  | audioFormatMismatch
  | channelMismatch
  | audioFilters
deriving DecidableEq

/-- The reasons that hold, in the order of the list. -/
def reasonsOf (checks : List (Bool × TranscodeReason)) : List TranscodeReason :=
  (checks.filter Prod.fst).map Prod.snd

theorem mem_reasonsOf {checks : List (Bool × TranscodeReason)} {r : TranscodeReason} :
    r ∈ reasonsOf checks ↔ (true, r) ∈ checks := by
  simp [reasonsOf]

def samePixels : Option PixelFormat → Option PixelFormat → Bool
  | some p, some q => p.sameWire q
  | none, none => true
  | _, _ => false

def videoReasons (source desired : Frame) (allowCopy overlays : Bool) : List TranscodeReason :=
  reasonsOf [
    (!allowCopy, .copyNotAllowed),
    (source.videoFormat != desired.videoFormat, .videoFormatMismatch),
    (!samePixels source.pixelFormat desired.pixelFormat, .pixelFormatMismatch),
    (source.scaledSize != desired.scaledSize || desired.scaledSize != desired.paddedSize,
      .sizeMismatch),
    (source.anamorphic, .anamorphic),
    (desired.deinterlaced && !source.deinterlaced, .deinterlace),
    (source.hdr && !desired.hdr, .toneMap),
    (overlays, .overlays),
    (desired.container == some .nut, .rawVideoOutput)]

def audioReasons (source : AudioStream) (target : AudioTarget) (allowCopy : Bool) :
    List TranscodeReason :=
  let format := AudioFormat.ofCodec? source.codec
  reasonsOf [
    (!allowCopy, .copyNotAllowed),
    (format.isNone || format != target.audioFormat, .audioFormatMismatch),
    (source.channels != target.channels, .channelMismatch),
    (target.loudness != .off || target.padTo.isSome, .audioFilters)]

end Playout
