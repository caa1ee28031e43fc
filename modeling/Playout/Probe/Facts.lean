import Playout.Device.Listing
import Playout.Failure
import Playout.Media.Duration
import Playout.Json.Reader
import Playout.Json.Record

/-!
# Media facts

What ffprobe's report says of a file: its container and length, its main video, and its audio and
subtitle streams.
-/

namespace Playout

structure MediaFacts where
  container : String
  duration : Option Duration
  video : Option VideoStream
  audio : List AudioStream
  subtitles : List SubtitleStream

/-- A stream as it stands in a report. -/
structure ReportedStream where
  index : UInt32 := 0
  kind : String := ""
  codec : Option String := none
  profile : Option String := none
  width : UInt32 := 0
  height : UInt32 := 0
  pixelFormat : Option String := none
  sampleAspectRatio : Option String := none
  displayAspectRatio : Option String := none
  fieldOrder : Option String := none
  colorTransfer : Option String := none
  frameRate : Option String := none
  channels : Option UInt32 := none
  language : Option String := none
  attachedPicture : Nat := 0

/-- A report's container and the text of its length. -/
structure ReportedFormat where
  name : String
  duration : Option String

structure Report where
  format : Option ReportedFormat
  streams : List ReportedStream

namespace Json

def readReportedFormat : Read ReportedFormat := fun j => do
  let r ← record? ["format_name", "duration"] j
  return ⟨← r.withDefault "format_name" "" readText, ← r.nullable "duration" readText⟩

def readLanguage : Read (Option String) := fun j => do
  let r ← record? ["language"] j
  r.optional "language" none readText

def readAttachedPicture : Read Nat := fun j => do
  let r ← record? ["attached_pic"] j
  r.withDefault "attached_pic" 0 (readNat UInt8.size)

def readReportedStream : Read ReportedStream := fun j => do
  let r ← record? ["index", "codec_type", "codec_name", "profile", "width", "height", "pix_fmt",
    "sample_aspect_ratio", "display_aspect_ratio", "field_order", "color_transfer",
    "r_frame_rate", "channels", "tags", "disposition"] j
  return {
    index := ← r.withDefault "index" 0 readUInt32
    kind := ← r.withDefault "codec_type" "" readText
    codec := ← r.optional "codec_name" none readText
    profile := ← r.optional "profile" none readText
    width := ← r.withDefault "width" 0 readUInt32
    height := ← r.withDefault "height" 0 readUInt32
    pixelFormat := ← r.optional "pix_fmt" none readText
    sampleAspectRatio := ← r.optional "sample_aspect_ratio" none readText
    displayAspectRatio := ← r.optional "display_aspect_ratio" none readText
    fieldOrder := ← r.optional "field_order" none readText
    colorTransfer := ← r.optional "color_transfer" none readText
    frameRate := ← r.optional "r_frame_rate" none readText
    channels := ← r.optional "channels" none readUInt32
    language := ← r.withDefault "tags" none readLanguage
    attachedPicture := ← r.withDefault "disposition" 0 readAttachedPicture }

def readReport : Read Report := fun j => do
  let r ← record? ["format", "streams"] j
  return ⟨← r.nullable "format" readReportedFormat,
    ← r.withDefault "streams" [] (readList readReportedStream)⟩

end Json

/-- A number, or the quotient of two numbers of which the second is positive. -/
def parseRate? (s : String) : Option Float :=
  match splitOnce '/' s.toList with
  | none => Decimal.parseFloat? s.toList
  | some (left, right) => do
    let num ← Decimal.parseFloat? left
    let den ← Decimal.parseFloat? right
    if 0 < den then some (num / den) else none

namespace ReportedFormat

/-- The containers of single images. -/
def imageContainers : List String := ["image2", "png_pipe", "jpeg_pipe", "bmp_pipe", "webp_pipe"]

/-- Whether one of the container's names is that of an image. -/
def isImage (f : ReportedFormat) : Bool :=
  (splitAt ',' f.name.toList).any fun name => imageContainers.contains (String.ofList name)

/-- The length, unless its text is no finite number from zero on. -/
def length (f : ReportedFormat) : Except Failure (Option Duration) :=
  match f.duration.bind fun s => Decimal.parseFloat? s.toList with
  | none => .ok none
  | some x =>
    if x.isFinite && 0 ≤ x then
      match Duration.ofSeconds? x with
      | some d => .ok (some d)
      | none => .error (.fault .durationTooLong)
    else .ok none

end ReportedFormat

namespace ReportedStream

def codecName (s : ReportedStream) : String := s.codec.getD "unknown"

/-- A stretched stream is reported with equal ratios when its height is what is stretched. -/
def video (s : ReportedStream) (stillImage : Bool) : VideoStream :=
  let stream : VideoStream := {
    index := s.index
    codec := s.codecName
    profile := s.profile
    pixelFormatName := s.pixelFormat
    frameSize := ⟨s.width, s.height⟩
    sampleAspectRatio := s.sampleAspectRatio
    displayAspectRatio := s.displayAspectRatio
    interlaced := ["tt", "bb", "tb", "bt"].any fun order => s.fieldOrder == some order
    stillImage := stillImage
    colorTransfer := s.colorTransfer
    frameRate := s.frameRate.bind parseRate? }
  { stream with
    anamorphicEdgeCase := stream.isAnamorphic && s.sampleAspectRatio == s.displayAspectRatio }

/-- Whether it is a video of its own and not a picture attached to the file. -/
def isMainVideo (s : ReportedStream) : Bool := s.kind == "video" && s.attachedPicture == 0

def audio (s : ReportedStream) : AudioStream :=
  ⟨s.index, s.codecName, s.channels.getD 2, s.language⟩

def subtitle (s : ReportedStream) : SubtitleStream := ⟨s.index, s.codecName, s.language⟩

end ReportedStream

namespace MediaFacts

def ofReport (r : Report) : Except Failure MediaFacts :=
  match r.format with
  | none => .error (.probe .noFormatSection)
  | some format => do
    let duration ← format.length
    return {
      container := format.name
      duration := duration
      video := (r.streams.find? ReportedStream.isMainVideo).map fun s => s.video format.isImage
      audio := (r.streams.filter fun s => s.kind == "audio").map ReportedStream.audio
      subtitles := (r.streams.filter fun s => s.kind == "subtitle").map ReportedStream.subtitle }

/-- The facts in a report that was read as JSON. -/
def ofJson (j : Json) : Except Failure MediaFacts :=
  match Json.readReport j with
  | none => .error (.probe .unexpectedShape)
  | some r => ofReport r

def notFound : String := "No such file or directory (os error 2)"

/-- The facts in what ffprobe wrote; `none` stands for a program that is not there. -/
def ofProgram : Option ProgramOutput → Except Failure MediaFacts
  | none => .error (.probe (.notRunnable notFound))
  | some out =>
    if out.exit ≠ 0 then
      .error (.probe (.reported (String.ofList (trimBlank out.stderr.toList))))
    else match (Json.parse? out.stdout).bind Json.settled? with
      | none => .error (.probe .notJson)
      | some j => ofJson j

end MediaFacts

end Playout
