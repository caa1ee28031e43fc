import Playout.Filter.Audio
import Playout.Item.Request

/-!
# Options

Options for the whole command, and options for its output.
-/

namespace Playout

structure EnvironmentVariable where
  key : String
  value : String
deriving DecidableEq

/-- How an accelerator is set up. -/
structure DeviceSetup where
  accelerator : Accelerator
  /-- Whether decoding runs on it. -/
  decodes : Bool
  device : Option String
  driver : Option String
deriving DecidableEq

namespace DeviceSetup

def decodingOptions (s : DeviceSetup) (words : List String) : List String :=
  if s.decodes then words else []

def options (s : DeviceSetup) : List String :=
  match s.accelerator with
  | .nvenc =>
    if s.decodes then ["-hwaccel", "cuda", "-hwaccel_output_format", "cuda"]
    else ["-init_hw_device", "cuda"]
  | .qsv =>
    (match s.device with
      | some d => ["-init_hw_device", "vaapi=va:" ++ d, "-init_hw_device", "qsv=hw@va"]
      | none => ["-init_hw_device", "qsv=hw"])
    ++ ["-filter_hw_device", "hw"]
    ++ s.decodingOptions ["-hwaccel", "qsv", "-hwaccel_output_format", "qsv"]
  | .vaapi =>
    s.decodingOptions ["-hwaccel", "vaapi", "-hwaccel_output_format", "vaapi"]
    ++ ["-vaapi_device", s.device.getD "/dev/dri/renderD128"]
  | .videoToolbox => s.decodingOptions ["-hwaccel", "videotoolbox"]
  | .none | .amf => []

def environment (s : DeviceSetup) : List EnvironmentVariable :=
  match s.accelerator, s.device, s.driver with
  | .nvenc, some device, _ => [⟨"CUDA_VISIBLE_DEVICES", device⟩]
  | .vaapi, _, some driver | .qsv, _, some driver => [⟨"LIBVA_DRIVER_NAME", driver⟩]
  | _, _, _ => []

end DeviceSetup

inductive GlobalOption where
  | device (setup : DeviceSetup)
  | threads (count : UInt32)
  | quiet
  /-- Timestamps are made anew, and corrupt packets dropped. -/
  | generateTimestamps
  /-- A report of the run is written into a folder. -/
  | report (folder : String)
deriving DecidableEq

namespace GlobalOption

def environment : GlobalOption → List EnvironmentVariable
  | device setup => setup.environment
  | report folder =>
    let folder := String.ofList (dropRight (· == '/') folder.toList)
    [⟨"FFREPORT", "file=" ++ folder ++ "/ffmpeg-%t.log:level=32"⟩]
  | threads _ | quiet | generateTimestamps => []

def options : GlobalOption → List String
  | device setup => setup.options
  | threads n => ["-threads", toString n.toNat]
  | quiet => ["-nostdin", "-hide_banner", "-nostats", "-loglevel", "error"]
  | generateTimestamps => ["-fflags", "+genpts+discardcorrupt+igndts"]
  | report _ => []

def next (o : GlobalOption) (f : Frame) : Frame :=
  match o with
  | device setup => { f with accelerator := setup.accelerator }
  | _ => f

end GlobalOption

inductive OutputOption where
  | noMuxDelay
  | fastStart (fragmented : Bool)
  | closedGop
  | sceneChange (threshold : Nat)
  | noAutoScale
  | timescale
  | videoBitrate (bitrate bufferSize : UInt32)
  | frameRate (rate : UInt32)
  | pixelFormat (format : PixelFormat)
  | audioChannels (count : UInt32)
  | audioBitrate (bitrate bufferSize : UInt32)
  | sampleRate (rate : UInt32)
  | duration (length : Duration)
  /-- Every stream is copied. -/
  | copyAll
  | metadata (metadata : Metadata)
  | subtitleCodec (method : SubtitleMethod)
  /-- A chain of filters for the only video stream. -/
  | videoFilter (chain : String)
deriving DecidableEq

namespace OutputOption

/-- Whole thousands are written with a `k`. -/
def kilo (n : Nat) : String := if n % 1000 = 0 then toString (n / 1000) ++ "k" else toString n

def thousands (n : UInt32) : String := toString n.toNat ++ "k"

def metadataArguments (m : Metadata) : List String :=
  ["-map_metadata", "-1"]
  ++ (match m.serviceProvider with
    | some p => ["-metadata", "service_provider=\x22" ++ p ++ "\x22"]
    | none => [])
  ++ (match m.serviceName with
    | some n => ["-metadata", "service_name=\x22" ++ n ++ "\x22"]
    | none => [])
  ++ (match m.audioLanguage with
    | some l => ["-metadata:s:a:0", "language=" ++ l]
    | none => [])

def options : OutputOption → List String
  | noMuxDelay => ["-muxdelay", "0", "-muxpreload", "0"]
  | fastStart false => ["-movflags", "+faststart"]
  | fastStart true => ["-movflags",
      "+faststart+frag_keyframe+separate_moof+omit_tfhd_offset+empty_moov+delay_moov"]
  | closedGop => ["-flags", "cgop"]
  | sceneChange n => ["-sc_threshold", toString n]
  | noAutoScale => ["-noautoscale"]
  | timescale => ["-video_track_timescale", "90000"]
  | videoBitrate rate size => ["-b:v", thousands rate, "-maxrate:v", thousands rate, "-bufsize:v",
      thousands size]
  | frameRate r => ["-r", toString r.toNat, "-vsync", "cfr"]
  | pixelFormat p => ["-pix_fmt", p.text]
  | audioChannels n => ["-ac", toString n.toNat]
  | audioBitrate rate size => ["-b:a", thousands rate, "-maxrate:a", thousands rate, "-bufsize:a",
      thousands size]
  | sampleRate r => ["-ar", kilo r.toNat]
  | duration d => ["-t", d.clock]
  | copyAll => ["-c", "copy"]
  | metadata m => metadataArguments m
  | subtitleCodec .copy => ["-c:s", "copy"]
  | subtitleCodec .convert => ["-c:s", "dvdsub"]
  | subtitleCodec .burn => []
  | videoFilter chain => ["-vf", chain]

def next (o : OutputOption) (f : Frame) : Frame :=
  match o with
  | videoBitrate rate size => { f with videoBitrate := some rate, videoBufferSize := some size }
  | frameRate r => { f with frameRate := some r }
  | pixelFormat p => { f with pixelFormat := some p }
  | _ => f

end OutputOption

end Playout
