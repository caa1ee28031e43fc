import Playout.Command.Pipeline
import Playout.Json.Printer
import Playout.Probe.Facts

/-!
# Output of the command line

A compiled command, ready to be started, or the facts about a file; both are written as JSON.
-/

namespace Playout

structure CompiledCommand where
  program : String
  environment : List EnvironmentVariable
  arguments : List String
deriving DecidableEq

inductive Printed where
  | command (command : CompiledCommand)
  | facts (facts : MediaFacts)

namespace Json

def ofSize (s : Size) : Json :=
  ofFields [("width", nat s.width.toNat), ("height", nat s.height.toNat)]

def ofDuration (d : Duration) : Json :=
  ofFields [("secs", nat d.seconds), ("nanos", nat d.subsecond)]

def ofEnvironment (environment : List EnvironmentVariable) : Json :=
  array (environment.map fun v => ofFields [("key", str v.key), ("value", str v.value)])

def ofCommand (c : CompiledCommand) : Json :=
  ofFields [
    ("program", str c.program),
    ("environment", ofEnvironment c.environment),
    ("arguments", array (c.arguments.map str))]

/-- A stream, with its frame rate written as `rate` says. -/
def ofVideoStream (rate : Float → Json) (s : VideoStream) : Json :=
  ofFields [
    ("index", nat s.index.toNat),
    ("codec", str s.codec),
    ("profile", ofOption str s.profile),
    ("pixel_format", ofOption str s.pixelFormatName),
    ("frame_size", ofSize s.frameSize),
    ("sample_aspect_ratio", ofOption str s.sampleAspectRatio),
    ("display_aspect_ratio", ofOption str s.displayAspectRatio),
    ("anamorphic_edge_case", bool s.anamorphicEdgeCase),
    ("interlaced", bool s.interlaced),
    ("still_image", bool s.stillImage),
    ("color_transfer", ofOption str s.colorTransfer),
    ("frame_rate", ofOption rate s.frameRate)]

def ofAudioStream (s : AudioStream) : Json :=
  ofFields [
    ("index", nat s.index.toNat),
    ("codec", str s.codec),
    ("channels", nat s.channels.toNat),
    ("language", ofOption str s.language)]

def ofSubtitleStream (s : SubtitleStream) : Json :=
  ofFields [
    ("index", nat s.index.toNat),
    ("codec", str s.codec),
    ("language", ofOption str s.language)]

def ofFacts (rate : Float → Json) (m : MediaFacts) : Json :=
  ofFields [
    ("container", str m.container),
    ("duration", ofOption ofDuration m.duration),
    ("video", ofOption (ofVideoStream rate) m.video),
    ("audio", array (m.audio.map ofAudioStream)),
    ("subtitles", array (m.subtitles.map ofSubtitleStream))]

end Json

/-- The text on standard output. -/
def Printed.text : Printed → String
  | command c => (Json.ofCommand c).pretty
  | facts m => (Json.ofFacts (fun x => .number (.real x)) m).pretty

end Playout
