import Playout.Failure

/-!
# Decoders

How the main video is decoded, and what decoding does to the frames.
-/

namespace Playout

inductive Decoder where
  /-- The demuxer's choice. -/
  | implicit
  | software (format : VideoFormat)
  | cuvid (format : VideoFormat) (deinterlace : Bool)
  /-- Any decoder, on CUDA through a global option. -/
  | implicitCuda
  | qsv (format : VideoFormat)
  /-- Any decoder, on VAAPI through a global option. -/
  | vaapi
  /-- Any decoder, on VideoToolbox through a global option; the frames come back to the host. -/
  | videoToolbox
deriving DecidableEq

namespace Decoder

def name? : Decoder → Option String
  | software .av1 => some "libdav1d"
  | software format => some format.text
  | cuvid format _ => format.deviceText?.map (· ++ "_cuvid")
  | qsv format => format.deviceText?.map (· ++ "_qsv")
  | implicit | implicitCuda | vaapi | videoToolbox => none

def isHardware : Decoder → Bool
  | implicit | software _ => false
  | _ => true

def deinterlaces : Decoder → Bool
  | cuvid _ deinterlace => deinterlace
  | _ => false

/-- Where the decoded frames lie. -/
def memory : Decoder → Memory
  | cuvid _ _ | implicitCuda | qsv _ | vaapi => .hardware
  | implicit | software _ | videoToolbox => .software

/-- The options it adds to the main video input. -/
def options (d : Decoder) : List String :=
  (match d.name? with
    | some name => ["-c:v", name]
    | none => [])
  ++ (if d.deinterlaces then ["-deint", "adaptive"] else [])

/-- Decoding on an accelerator leaves semi-planar frames. -/
def next (d : Decoder) (f : Frame) : Frame :=
  if d.isHardware then
    { f with
      memory := match d.memory with
        | .hardware => .hardware
        | .software => f.memory
      pixelFormat := some (f.pixelFormat.getD .yuv420p).semiPlanar
      deinterlaced := f.deinterlaced || d.deinterlaces }
  else f

/-- The decoder of a format on an accelerator that is able to decode the stream. -/
def ofFormat (format : VideoFormat) (tenBit : Bool) (a : Accelerator) (deinterlace : Bool) :
    Decoder :=
  match a with
  | .nvenc =>
    match format with
    | .av1 => implicitCuda
    | .mpeg2video | .vp9 => cuvid format deinterlace
    | .h264 => if tenBit then software format else cuvid format false
    | _ => if format.deviceText?.isSome then cuvid format false else software format
  | .qsv =>
    match format with
    | .h264 | .hevc => if tenBit then software format else qsv format
    | .mpeg4 => software format
    | _ => if format.deviceText?.isSome then qsv format else software format
  | .vaapi => if format.deviceText?.isSome then vaapi else software format
  | .videoToolbox => if format.deviceText?.isSome then videoToolbox else software format
  | .none | .amf => software format

/-- The decoder of the main video.  Still images, and streams whose format names no codec, are
left to the demuxer. -/
def select (stream : VideoStream) (a : Accelerator) (deinterlace : Bool) :
    Except Failure Decoder :=
  match VideoFormat.ofCodec? stream.codec with
  | none =>
    if stream.stillImage then .ok implicit else .error (.unsupported .decoder stream.codec a)
  | some format =>
    if format = .copy ∨ format = .undetermined ∨ format = .rawvideo ∨ stream.stillImage = true then
      .ok implicit
    else .ok (ofFormat format (stream.bitDepth == 10) a (deinterlace && stream.interlaced))

end Decoder

end Playout
