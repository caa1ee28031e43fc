import Playout.Device.Accelerator
import Playout.Media.PixelFormat

/-!
# What an accelerator can do

Facts about one accelerator: the formats it decodes and encodes with their bit depths, and its way
of controlling the rate.
-/

namespace Playout

inductive RateControl where
  | cqp
  | cbr
  | vbr
deriving DecidableEq

namespace RateControl

def all : List RateControl := [cqp, cbr, vbr]

def text : RateControl → String
  | cqp => "CQP"
  | cbr => "CBR"
  | vbr => "VBR"

end RateControl

/-- A format and the bit depths it is supported at. -/
structure CodecSupport where
  format : VideoFormat
  bitDepths : List Nat
deriving DecidableEq

/-- Whether a format is supported at the depth of a pixel format, 8 if there is none. -/
def supports (list : List CodecSupport) (format : VideoFormat) (pixels : Option PixelFormat) :
    Bool :=
  let depth := (pixels.map PixelFormat.bitDepth).getD 8
  list.any fun s => s.format == format && s.bitDepths.contains depth

theorem supports_iff {list : List CodecSupport} {format : VideoFormat}
    {pixels : Option PixelFormat} :
    supports list format pixels = true ↔
      ∃ s ∈ list, s.format = format ∧ (pixels.map PixelFormat.bitDepth).getD 8 ∈ s.bitDepths := by
  simp [supports]

structure Capabilities where
  decoders : List CodecSupport := []
  encoders : List CodecSupport := []
  rateControl : List (VideoFormat × RateControl) := []
deriving DecidableEq

namespace Capabilities

/-- No accelerator. -/
def empty : Capabilities := {}

def decodes (c : Capabilities) (format : VideoFormat) (pixels : Option PixelFormat) : Bool :=
  supports c.decoders format pixels

def encodes (c : Capabilities) (format : VideoFormat) (pixels : Option PixelFormat) : Bool :=
  supports c.encoders format pixels

/-- The first entry of a format counts. -/
def rateControl? (c : Capabilities) (format : VideoFormat) : Option RateControl :=
  (c.rateControl.find? fun entry => entry.1 == format).map Prod.snd

end Capabilities

end Playout
