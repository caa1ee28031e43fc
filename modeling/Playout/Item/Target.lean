import Playout.Failure
import Playout.Media.Duration

/-!
# Targets

What the output of a channel shall be, and the check that it can be had at all.
-/

namespace Playout

/-- How a picture is brought to the target's resolution. -/
inductive Scaling where
  | scaleAndPad
  | stretch
  | crop
deriving DecidableEq

inductive Loudness where
  | off
  | loudNorm
  | dynAudNorm
deriving DecidableEq

structure AudioTarget where
  /-- A codec name; beside an unknown one ffmpeg chooses the encoder. -/
  format : Option String := some "aac"
  channels : UInt32 := 2
  bitrate : Option UInt32 := some 192
  bufferSize : Option UInt32 := some 384
  sampleRate : Option UInt32 := some 48000
  loudness : Loudness := .off
  /-- Silence is added up to this length. -/
  padTo : Option Duration := none
deriving DecidableEq

namespace AudioTarget

def audioFormat (t : AudioTarget) : Option AudioFormat := t.format.bind AudioFormat.ofCodec?

end AudioTarget

structure Target where
  resolution : Size := ⟨1920, 1080⟩
  scaling : Scaling := .scaleAndPad
  videoFormat : VideoFormat := .h264
  profile : Option String := none
  preset : Option String := none
  bitDepth : Nat := 8
  videoBitrate : Option UInt32 := some 2000
  videoBufferSize : Option UInt32 := some 4000
  frameRate : Option UInt32 := none
  accelerator : Accelerator := .none
  device : Option String := none
  driver : Option String := none
  deinterlace : Bool := true
  tonemapAlgorithm : String := "linear"
  threads : Option UInt32 := none
  allowCopy : Bool := true
  audio : AudioTarget := {}
deriving DecidableEq

namespace Target

/-- The first fault of a target, in a fixed order. -/
def problem? (t : Target) : Option TargetProblem :=
  if t.resolution.isEmpty then some (.emptyResolution t.resolution)
  else if t.bitDepth ≠ 8 ∧ t.bitDepth ≠ 10 then some (.bitDepth t.bitDepth)
  else if t.videoBitrate = some 0 ∨ t.videoBufferSize = some 0 then some .videoRate
  else if t.frameRate = some 0 then some .frameRate
  else if t.audio.channels = 0 then some .audioChannels
  else none

def pixelFormat (t : Target) : PixelFormat :=
  if t.bitDepth = 10 then .yuv420p10le else .yuv420p

end Target

end Playout
