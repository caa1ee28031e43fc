import Playout.Item.Settings
import Playout.Item.Target

/-!
# Requests

One item of a channel: its video, the audio beside it, what is laid over it, and the output asked
for.
-/

namespace Playout

/-- One of nine places of a frame. -/
inductive Anchor where
  | topLeft
  | topMiddle
  | topRight
  | leftMiddle
  | middleCenter
  | rightMiddle
  | bottomLeft
  | bottomMiddle
  | bottomRight
deriving DecidableEq

inductive WatermarkSize where
  | actual
  /-- The width as a percentage of the frame's. -/
  | scaled (widthPercent : Float)

structure FadePoint where
  time : Duration
  fadeIn : Bool
deriving DecidableEq

structure Watermark where
  path : String
  stream : VideoStream
  anchor : Anchor := .bottomRight
  size : WatermarkSize := .actual
  /-- A percentage. -/
  opacity : UInt32 := 100
  horizontalMargin : Float := 0
  verticalMargin : Float := 0
  /-- The place is one of the picture without its padding. -/
  withinContent : Bool := false
  zIndex : Int32 := 0
  fades : List FadePoint := []

inductive SubtitleMethod where
  | burn
  | copy
  | convert
deriving DecidableEq

structure Subtitle where
  path : String
  stream : SubtitleStream
  /-- The place among the subtitle streams of the file. -/
  relativeIndex : UInt32 := 0
  method : SubtitleMethod := .burn
deriving DecidableEq

/-- Raw frames that the caller feeds in. -/
structure Graphics where
  path : String
  size : Size
  frameRate : UInt32
  zIndex : Int32 := 0
deriving DecidableEq

structure VideoSource where
  path : String
  stream : VideoStream

structure AudioSource where
  path : String
  stream : AudioStream
deriving DecidableEq

structure Request where
  video : VideoSource
  audio : Option AudioSource := none
  watermark : Option Watermark := none
  subtitle : Option Subtitle := none
  graphics : Option Graphics := none
  target : Target := {}
  settings : Settings := {}

namespace Request

/-- The subtitle that becomes part of the picture. -/
def burned? (r : Request) : Option Subtitle := r.subtitle.filter fun s => s.method == .burn

def burnedText? (r : Request) : Option Subtitle :=
  r.burned?.filter fun s => !s.stream.isPicture

def burnedPicture? (r : Request) : Option Subtitle :=
  r.burned?.filter fun s => s.stream.isPicture

/-- The subtitle that stays a stream of its own. -/
def carried? (r : Request) : Option Subtitle := r.subtitle.filter fun s => s.method != .burn

/-- Whether anything is laid over the frames by compositing. -/
def hasLayers (r : Request) : Bool :=
  r.burnedPicture?.isSome || r.watermark.isSome || r.graphics.isSome

/-- Whether anything changes the picture beside its format and size. -/
def hasOverlays (r : Request) : Bool :=
  r.burned?.isSome || r.watermark.isSome || r.graphics.isSome

end Request

end Playout
