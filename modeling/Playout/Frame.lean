import Playout.Device.Accelerator
import Playout.Media.Stream
import Playout.Number.Binary64

/-!
# The state of the frames

What is known of the frames, and of the streams around them, at one point of a pipeline.
-/

namespace Playout

/-- What the output is packed into. -/
inductive ContainerKind where
  | mpegts
  | mp4
  | mkv
  | nut
  | hls
deriving DecidableEq

namespace ContainerKind

def all : List ContainerKind := [mpegts, mp4, mkv, nut, hls]

def text : ContainerKind → String
  | mpegts => "mpegts"
  | mp4 => "mp4"
  | mkv => "mkv"
  | nut => "nut"
  | hls => "hls"

end ContainerKind

structure Frame where
  realtime : Bool
  infiniteLoop : Bool
  videoFormat : VideoFormat
  pixelFormat : Option PixelFormat
  memory : Memory
  scaledSize : Size
  paddedSize : Size
  croppedSize : Option Size
  anamorphic : Bool
  deinterlaced : Bool
  hdr : Bool
  frameRate : Option UInt32
  videoBitrate : Option UInt32
  videoBufferSize : Option UInt32
  audioFormat : Option AudioFormat
  accelerator : Accelerator
  container : Option ContainerKind
  hlsPlaylist : Option String
  hlsSegments : Option String
deriving DecidableEq

namespace Frame

/-- Decoded frames of a stream before any step. -/
def ofSource (stream : VideoStream) (realtime infiniteLoop : Bool) : Frame where
  realtime := realtime
  infiniteLoop := infiniteLoop
  videoFormat := (VideoFormat.ofCodec? stream.codec).getD .undetermined
  pixelFormat := stream.pixelFormat
  memory := .software
  scaledSize := stream.frameSize
  paddedSize := stream.frameSize
  croppedSize := none
  anamorphic := stream.isAnamorphic
  deinterlaced := false
  hdr := stream.isHdr
  frameRate := stream.frameRate.map Binary64.roundToUInt32
  videoBitrate := none
  videoBufferSize := none
  audioFormat := none
  accelerator := .none
  container := none
  hlsPlaylist := none
  hlsSegments := none

def isHardware (f : Frame) : Bool := f.memory == .hardware

def bitDepth (f : Frame) : Nat := (f.pixelFormat.map PixelFormat.bitDepth).getD 8

def hasWire (f : Frame) (p : PixelFormat) : Bool :=
  match f.pixelFormat with
  | some q => q.sameWire p
  | none => false

end Frame

end Playout
