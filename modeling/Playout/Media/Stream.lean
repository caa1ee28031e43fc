import Playout.Media.Codec
import Playout.Media.PixelFormat
import Playout.Media.Size
import Playout.Text.Blank
import Playout.Text.Whole

/-!
# Streams

What is known of the streams of a file, and what the sample aspect ratio of a video stream says
about the size of its picture once every pixel is square.
-/

namespace Playout

structure VideoStream where
  index : UInt32 := 0
  codec : String := ""
  profile : Option String := none
  /-- The pixel format by ffmpeg's name. -/
  pixelFormatName : Option String := none
  frameSize : Size := ⟨0, 0⟩
  sampleAspectRatio : Option String := none
  displayAspectRatio : Option String := none
  /-- Pixels are squared by changing the height and not the width. -/
  anamorphicEdgeCase : Bool := false
  interlaced : Bool := false
  stillImage : Bool := false
  colorTransfer : Option String := none
  frameRate : Option Float := none

/-- A quotient of positive numbers. -/
structure AspectRatio where
  num : UInt32
  den : UInt32
deriving DecidableEq

namespace AspectRatio

/-- Two positive numbers around a colon, each with blanks on either side. -/
def ofText? (s : String) : Option AspectRatio := do
  let (left, right) ← splitOnce ':' s.toList
  let num ← parseUInt32? (trimBlank left)
  let den ← parseUInt32? (trimBlank right)
  if num = 0 ∨ den = 0 then none else some ⟨num, den⟩

def isSquare (r : AspectRatio) : Bool := r.num == r.den

/-- A side stretched by the ratio, rounded down and kept to 32 bits. -/
def stretch (r : AspectRatio) (side : UInt32) : UInt32 :=
  UInt32.ofNat (side.toNat * r.num.toNat / r.den.toNat)

end AspectRatio

namespace VideoStream

def pixelFormat (s : VideoStream) : Option PixelFormat :=
  s.pixelFormatName.bind PixelFormat.ofText?

def bitDepth (s : VideoStream) : Nat := (s.pixelFormat.map PixelFormat.bitDepth).getD 8

def aspectRatio (s : VideoStream) : Option AspectRatio :=
  s.sampleAspectRatio.bind AspectRatio.ofText?

def isAnamorphic (s : VideoStream) : Bool :=
  match s.aspectRatio with
  | some r => !r.isSquare
  | none => false

/-- Whether the transfer function is one of the two of high dynamic range. -/
def isHdr (s : VideoStream) : Bool :=
  s.colorTransfer == some "smpte2084" || s.colorTransfer == some "arib-std-b67"

/-- The size of the picture with square pixels. -/
def squareSize (s : VideoStream) : Size :=
  match s.aspectRatio with
  | none => s.frameSize
  | some r =>
    if r.isSquare then s.frameSize
    else if s.anamorphicEdgeCase then
      { s.frameSize with height := r.stretch s.frameSize.height }
    else { s.frameSize with width := r.stretch s.frameSize.width }

end VideoStream

structure AudioStream where
  index : UInt32
  codec : String
  channels : UInt32
  language : Option String
deriving DecidableEq

structure SubtitleStream where
  index : UInt32
  codec : String
  language : Option String
deriving DecidableEq

namespace SubtitleStream

/-- Whether the subtitles are pictures and not text. -/
def isPicture (s : SubtitleStream) : Bool :=
  ["hdmv_pgs_subtitle", "pgssub", "dvd_subtitle", "dvdsub", "dvb_subtitle"].contains s.codec

end SubtitleStream

end Playout
