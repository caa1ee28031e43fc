import Playout.Device.Capabilities
import Playout.Failure

/-!
# Encoders

How video and audio are encoded, and the options that say so.
-/

namespace Playout

structure EncoderSettings where
  format : VideoFormat
  pixelFormat : PixelFormat
  profile : Option String
  preset : Option String
  /-- Only VAAPI encoders are told. -/
  rateControl : Option RateControl
deriving DecidableEq

inductive VideoEncoder where
  | copy
  /-- ffmpeg's choice. -/
  | implicit
  /-- The encoder of an accelerator, or of the host for `Accelerator.none`. -/
  | explicit (accelerator : Accelerator) (settings : EncoderSettings)
deriving DecidableEq

/-- The host's encoders. -/
def softwareEncoder? : VideoFormat → Option String
  | .h264 => some "libx264"
  | .hevc => some "libx265"
  | .mpeg2video => some "mpeg2video"
  | .rawvideo => some "rawvideo"
  | _ => none

namespace VideoEncoder

def settings? : VideoEncoder → Option EncoderSettings
  | copy | implicit => none
  | explicit _ s => some s

def accelerator : VideoEncoder → Accelerator
  | copy | implicit => .none
  | explicit a _ => a

def isHardware (e : VideoEncoder) : Bool := e.accelerator.isHardware

def name? : VideoEncoder → Option String
  | copy => some "copy"
  | implicit => none
  | explicit .none s => softwareEncoder? s.format
  | explicit a s => a.encoderName? s.format

/-- The video format it produces, if it declares one. -/
def videoFormat? (e : VideoEncoder) : Option VideoFormat := e.settings?.map EncoderSettings.format

/-- The pixel format it consumes, if it declares one. -/
def pixelFormat? (e : VideoEncoder) : Option PixelFormat :=
  e.settings?.map EncoderSettings.pixelFormat

/-- Where frames must lie when they reach it. -/
def memory? : VideoEncoder → Option Memory
  | copy | implicit => none
  | explicit a _ =>
    match a with
    | .nvenc | .qsv | .vaapi => some .hardware
    | .none | .videoToolbox | .amf => some .software

/-- The pixel format of frames in the accelerator's memory, where it takes them from there. -/
def surfaceFormat? (e : VideoEncoder) : Option PixelFormat :=
  match e.memory? with
  | some .hardware => e.pixelFormat?
  | _ => none

/-- The options of the encoder's own family. -/
def familyOptions (a : Accelerator) (s : EncoderSettings) : List String :=
  match a with
  | .none => if s.format = .hevc then ["-x265-params", "log-level=error"] else []
  | .qsv => ["-low_power", "0", "-look_ahead", "0"]
  | .vaapi =>
    match s.rateControl with
    | some r => ["-rc_mode", r.text]
    | none => []
  | .nvenc | .videoToolbox | .amf => []

def settingsOptions (a : Accelerator) (s : EncoderSettings) : List String :=
  (if s.format = .hevc then ["-tag:v", "hvc1"] else [])
  ++ familyOptions a s
  ++ (match s.profile with
    | some p => ["-profile:v", p]
    | none => [])
  ++ (match s.preset with
    | some p => if a = .none ∨ a = .nvenc then ["-preset", p] else []
    | none => [])

def options (e : VideoEncoder) : List String :=
  match e.name? with
  | none => []
  | some name =>
    ["-c:v", name] ++ (match e with
      | explicit a s => settingsOptions a s
      | _ => [])

def next (e : VideoEncoder) (f : Frame) : Frame :=
  match e.videoFormat? with
  | some format => { f with videoFormat := format }
  | none => f

/-- The pixel format an encoder is given for the one that is wanted. -/
def consumed (a : Accelerator) (format : VideoFormat) (wanted : PixelFormat) : PixelFormat :=
  let wanted := if format = .mpeg2video then .yuv420p else wanted
  match a with
  | .nvenc | .qsv | .vaapi => wanted.semiPlanar
  | .videoToolbox | .amf => if wanted.isTenBit then wanted.semiPlanar else wanted
  | .none => wanted

/-- What the caller wants of an encoder. -/
structure Choice where
  format : VideoFormat
  pixelFormat : PixelFormat
  accelerator : Accelerator
  profile : Option String := none
  preset : Option String := none
  rateControl : Option RateControl := none

/-- A format that the accelerator has no encoder for goes to the host's encoders. -/
def select (c : Choice) : Except Failure VideoEncoder :=
  match c.format with
  | .copy => .ok copy
  | .undetermined => .ok implicit
  | format =>
    let a := if (c.accelerator.encoderName? format).isSome then c.accelerator else .none
    if a = .none ∧ softwareEncoder? format = none then
      .error (.unsupported .encoder format.text .none)
    else .ok (explicit a ⟨format, consumed a format c.pixelFormat, c.profile, c.preset,
      c.rateControl⟩)

end VideoEncoder

inductive AudioEncoder where
  | aac
  | ac3
  | copy
deriving DecidableEq

namespace AudioEncoder

def audioFormat : AudioEncoder → AudioFormat
  | aac => .aac
  | ac3 => .ac3
  | copy => .copy

def options (e : AudioEncoder) : List String := ["-c:a", e.audioFormat.text]

def next (e : AudioEncoder) (f : Frame) : Frame := { f with audioFormat := some e.audioFormat }

def ofFormat : AudioFormat → AudioEncoder
  | .aac => aac
  | .ac3 => ac3
  | .copy => copy

/-- The encoder of a codec name; an unknown name has none. -/
def select (codec : Option String) : Option AudioEncoder :=
  (codec.bind AudioFormat.ofCodec?).map ofFormat

end AudioEncoder

end Playout
