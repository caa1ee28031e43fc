import Playout.Command.Pipeline
import Playout.Item.Desired
import Playout.Item.Request
import Playout.Plan.Copying
import Playout.Plan.MainPath

/-!
# Compiling a request

A request, with the facts about its accelerator, becomes a pipeline.  The video is copied if
nothing speaks against it, and transcoded otherwise; both ways end in a check that the state of
the frames and the encoders agree.
-/

namespace Playout

/-- Everything a compilation looks at. -/
structure Compilation where
  request : Request
  capabilities : Capabilities
  config : Config

/-- The inputs of a pipeline, and the streams its main parts read. -/
structure Sources where
  files : List InputFile
  video : StreamRef
  audio : StreamRef
  subtitle : Option (StreamRef × SubtitleMethod)

/-- What decodes and encodes the video, and where it is filtered. -/
structure Machinery where
  decoder : Decoder
  encoder : VideoEncoder
  backend : Backend
deriving DecidableEq

def Machinery.usesHardware (m : Machinery) : Bool := m.decoder.isHardware || m.encoder.isHardware

/-- A pipeline with the encoders its final state has to agree with. -/
structure Assembly where
  pipeline : Pipeline
  video : VideoEncoder
  audio : Option AudioEncoder

namespace Compilation

def initial (c : Compilation) : Frame :=
  .ofSource c.request.video.stream c.request.settings.realtime c.request.settings.infiniteLoop

def defaultFrameRate : UInt32 := 30

/-- The rate that keyframes are placed by. -/
def keyframeRate (c : Compilation) : UInt32 :=
  let rate := c.request.target.frameRate.or
    (c.request.video.stream.frameRate.map Binary64.roundToUInt32)
  (rate.filter fun r => 0 < r.toNat).getD defaultFrameRate

def container (c : Compilation) : Except Failure Container :=
  match c.request.settings.container with
  | .mpegts => .ok .mpegts
  | .mp4 => .ok .mp4
  | .mkv => .ok .mkv
  | .nut => .ok .nut
  | .hls =>
    match c.request.settings.hls with
    | none => .error (.invalidTarget .hlsSettingsMissing)
    | some hls => .ok (.hls ⟨hls.playlist, hls.segments, c.config.segmentSeconds, c.keyframeRate⟩)

/-! ## Inputs -/

def seekOptions (c : Compilation) : List InputOption :=
  (c.request.settings.seek?.map InputOption.seek).toList

def readrateOptions (c : Compilation) : List InputOption :=
  if c.request.settings.realtime then [.readrate c.request.settings.initialBurst] else []

/-- Burned text follows the timestamps of the source. -/
def videoFile (c : Compilation) : InputFile :=
  let source := c.request.video
  .withOptions source.path (.video source.stream)
    (c.seekOptions
    ++ (if c.request.burnedText?.isSome then [.copyTimestamps] else [])
    ++ (if c.request.settings.infiniteLoop || source.stream.stillImage then [.infiniteLoop] else [])
    ++ c.readrateOptions)

/-- The audio beside the video, or silence, with the index of its stream. -/
def audioFile (c : Compilation) : InputFile × UInt32 :=
  match c.request.audio with
  | some source =>
    (.withOptions source.path (.audio source.stream)
      (c.seekOptions
      ++ (if c.request.settings.infiniteLoop then [.infiniteLoop] else [])
      ++ c.readrateOptions), source.stream.index)
  | none => ((InputFile.silence c.request.target.audio.channels).add .lavfiFormat, 0)

/-- The video is read first, then the audio, then a subtitle that stays a stream. -/
def sources (c : Compilation) : Sources :=
  let (files, video) := InputFile.register c.videoFile []
  let (audioFile, audioIndex) := c.audioFile
  let (files, audio) := InputFile.register audioFile files
  let video : StreamRef := ⟨video, c.request.video.stream.index⟩
  match c.request.carried? with
  | some s =>
    let (files, place) := InputFile.register ⟨s.path, .subtitle s.stream, []⟩ files
    ⟨files, video, ⟨audio, audioIndex⟩, some (⟨place, s.stream.index⟩, s.method)⟩
  | none => ⟨files, video, ⟨audio, audioIndex⟩, none⟩

/-! ## Steps -/

/-- An accelerator takes one thread. -/
def globalSteps (c : Compilation) (usesHardware : Bool) : List Step :=
  let threads := if usesHardware then some 1 else c.request.target.threads
  (threads.map fun n => Step.global (.threads n)).toList
  ++ [.global .quiet, .global .generateTimestamps]
  ++ (if c.request.settings.saveReport then [.global (.report c.config.reportsFolder)] else [])

def containerSteps (encoder : VideoEncoder) (container : Container) (hardwareFilters : Bool) :
    List Step :=
  let keyframesOnly :=
    encoder.videoFormat? == some .mpeg2video || encoder.accelerator == .videoToolbox
  [.output .noMuxDelay,
    .output (.fastStart (container == .mp4)),
    .output .closedGop,
    .output (.sceneChange (if keyframesOnly then 1000000000 else 0))]
  ++ (if hardwareFilters then [.output .noAutoScale] else [])
  ++ (if encoder = .copy then [] else [.output .timescale])

/-- Copied audio is not filtered. -/
def audioFilters (c : Compilation) (encoder : Option AudioEncoder) : List AudioFilter :=
  if encoder = some .copy then []
  else AudioFilter.chain c.request.target.audio.loudness c.request.target.audio.padTo

def audioChannelSteps (c : Compilation) (encoder : AudioEncoder) : List Step :=
  let audio := c.request.target.audio
  let source := (c.request.audio.map fun a => a.stream.channels).getD audio.channels
  if source ≠ audio.channels ∨ (encoder = .aac ∧ 2 < audio.channels.toNat) then
    [.output (.audioChannels audio.channels)]
  else []

def audioSteps (c : Compilation) (encoder : Option AudioEncoder) : List Step :=
  let audio := c.request.target.audio
  match encoder with
  | none => []
  | some .copy => [.audioEncoder .copy]
  | some e =>
    [.audioEncoder e]
    ++ c.audioChannelSteps e
    ++ (match audio.bitrate, audio.bufferSize with
      | some rate, some size => [.output (.audioBitrate rate size)]
      | _, _ => [])
    ++ (audio.sampleRate.map fun r => Step.output (.sampleRate r)).toList

def trailingSteps (c : Compilation) (subtitle : Option SubtitleMethod) (container : Container) :
    List Step :=
  (c.request.settings.limit?.map fun d => Step.output (.duration d)).toList
  ++ [.output (.metadata c.request.settings.metadata)]
  ++ (subtitle.map fun m => Step.output (.subtitleCodec m)).toList
  ++ [.container container]

/-! ## Agreement of the final state with the encoders -/

def disagreements (f : Frame) (video : VideoEncoder) (audio : Option AudioEncoder) :
    List Disagreement :=
  (match video.videoFormat? with
    | some format => if f.videoFormat = format then [] else [.videoFormat f.videoFormat format]
    | none => [])
  ++ (match video.pixelFormat? with
    | some p => if f.hasWire p then [] else [.pixelFormat f.pixelFormat p]
    | none => [])
  ++ (match audio with
    | some a =>
      if f.audioFormat = some a.audioFormat then []
      else [.audioFormat f.audioFormat a.audioFormat]
    | none => [])

def checked (a : Assembly) : Except Failure Pipeline :=
  match disagreements a.pipeline.final a.video a.audio with
  | [] => .ok a.pipeline
  | parts => .error (.fault (.disagreement parts))

/-! ## Copied video -/

def copiedAudioEncoder (c : Compilation) : Option AudioEncoder :=
  let target := c.request.target
  let copies := c.request.audio.any fun a =>
    (audioReasons a.stream target.audio target.allowCopy).isEmpty
  if copies then some .copy else AudioEncoder.select target.audio.format

def copiedGraph (c : Compilation) : Graph where
  video := some c.sources.video
  audio := some c.sources.audio
  audioFilters := c.audioFilters c.copiedAudioEncoder
  subtitle := c.sources.subtitle.map Prod.fst

def copiedSteps (c : Compilation) (container : Container) : List Step :=
  c.globalSteps false
  ++ [.filter c.copiedGraph]
  ++ containerSteps .copy container false
  ++ [.videoEncoder .copy]
  ++ c.audioSteps c.copiedAudioEncoder
  ++ c.trailingSteps (c.sources.subtitle.map Prod.snd) container

def copied (c : Compilation) (container : Container) : Pipeline where
  steps := c.copiedSteps container
  inputs := c.sources.files
  initial := c.initial

/-! ## Transcoded video -/

/-- What the video becomes: raw frames for NUT, else what the target says. -/
def videoFormat (c : Compilation) : VideoFormat :=
  if c.request.settings.container = .nut then .rawvideo else c.request.target.videoFormat

/-- The accelerator, as far as it can decode the source. -/
def decodingAccelerator (c : Compilation) : Accelerator :=
  let a := c.request.target.accelerator
  let source := c.request.video.stream
  match VideoFormat.ofCodec? source.codec with
  | some format =>
    if a.isHardware && a != .amf && c.capabilities.decodes format source.pixelFormat then a
    else .none
  | none => .none

/-- The accelerator, as far as it can encode the output. -/
def encodingAccelerator (c : Compilation) : Accelerator :=
  let a := c.request.target.accelerator
  if a.isHardware && c.capabilities.encodes c.videoFormat (some c.request.target.pixelFormat)
      && (a.encoderName? c.videoFormat).isSome then a
  else .none

def encoderChoice (c : Compilation) : VideoEncoder.Choice where
  format := c.videoFormat
  pixelFormat := c.request.target.pixelFormat
  accelerator := c.encodingAccelerator
  profile := c.request.target.profile
  preset := c.request.target.preset
  rateControl := c.capabilities.rateControl? c.videoFormat

def machinery (c : Compilation) : Except Failure Machinery := do
  let target := c.request.target
  let decoder ← Decoder.select c.request.video.stream c.decodingAccelerator target.deinterlace
  let encoder ← VideoEncoder.select c.encoderChoice
  return ⟨decoder, encoder,
    .ofPipeline target.accelerator decoder.isHardware encoder.isHardware⟩

/-- VAAPI has a device of its own where the target names none. -/
def deviceSetup (c : Compilation) (m : Machinery) : DeviceSetup :=
  let target := c.request.target
  { accelerator := target.accelerator
    decodes := m.decoder.isHardware
    device := target.device.or
      (if target.accelerator = .vaapi then some c.config.vaapiDevice else none)
    driver := target.driver }

def pathPlan (c : Compilation) (desired : Frame) (m : Machinery) : PathPlan where
  backend := m.backend
  encoder := m.encoder
  desired := desired
  scaling := c.request.target.scaling
  squareByHeight := c.request.video.stream.anamorphicEdgeCase
  tonemapAlgorithm := c.request.target.tonemapAlgorithm
  burned := c.request.burnedText?.map fun s => ⟨s.path, s.relativeIndex, c.config.fontsFolder⟩
  hasLayers := c.request.hasLayers

/-- Animated images loop by themselves. -/
def watermarkFile (w : Watermark) : InputFile :=
  .withOptions w.path (.watermark w.stream)
    (if w.stream.codec = "gif" then [.doNotIgnoreLoop]
    else if !w.fades.isEmpty || !w.stream.stillImage then [.infiniteLoop]
    else [])

def graphicsFile (g : Graphics) : InputFile :=
  .withOptions g.path (.graphics g.size g.frameRate) [.rawVideoFormat]

def subtitleLayer (c : Compilation) (b : Backend) (frame : Frame) (files : List InputFile) :
    List InputFile × List Layer :=
  match c.request.burnedPicture? with
  | none => (files, [])
  | some s =>
    let (files, place) := InputFile.register ⟨s.path, .subtitle s.stream, []⟩ files
    (files, [.pictureSubtitle ⟨place, s.stream.index⟩ b c.request.video.stream.frameSize
      frame.paddedSize])

def watermarkLayer (c : Compilation) (b : Backend) (frame : Frame) (files : List InputFile) :
    Except Failure (List InputFile × List Layer) :=
  match c.request.watermark with
  | none => .ok (files, [])
  | some w => do
    let (files, place) := InputFile.register (watermarkFile w) files
    let layer ← Layer.watermark w ⟨place, w.stream.index⟩ b frame.scaledSize frame.paddedSize
    return (files, [layer])

def graphicsLayer (c : Compilation) (b : Backend) (frame : Frame) (files : List InputFile) :
    List InputFile × List Layer :=
  match c.request.graphics with
  | none => (files, [])
  | some g =>
    let (files, place) := InputFile.register (graphicsFile g) files
    (files, [.graphics g ⟨place, 0⟩ b (frame.bitDepth == 10)])

/-- The layers over the frames: subtitle, watermark, graphics; and all inputs. -/
def layers (c : Compilation) (b : Backend) (frame : Frame) (files : List InputFile) :
    Except Failure (List InputFile × List Layer) := do
  let (files, subtitle) := c.subtitleLayer b frame files
  let (files, watermark) ← c.watermarkLayer b frame files
  let (files, graphics) := c.graphicsLayer b frame files
  return (files, subtitle ++ watermark ++ graphics)

/-- Frames in host memory that are not what the encoder consumes are converted last. -/
def pixelFormatSteps (encoder : VideoEncoder) (f : Frame) : List Step :=
  match encoder.pixelFormat? with
  | some p => if !f.isHardware && !f.hasWire p then [.output (.pixelFormat p)] else []
  | none => []

def rateSteps (c : Compilation) : List Step :=
  let target := c.request.target
  (match target.videoBitrate, target.videoBufferSize with
    | some rate, some size => [.output (.videoBitrate rate size)]
    | _, _ => [])
  ++ (target.frameRate.map fun r => Step.output (.frameRate r)).toList

def transcodedAudioEncoder (c : Compilation) : Option AudioEncoder :=
  AudioEncoder.select c.request.target.audio.format

def graph (c : Compilation) (m : Machinery) (path : MainPath) (layers : List Layer) : Graph where
  video := some c.sources.video
  videoFilters := path.filters
  layers := sortLayers layers
  tail := (finalUpload? m.backend m.encoder path.frame).toList
  audio := some c.sources.audio
  audioFilters := c.audioFilters c.transcodedAudioEncoder
  subtitle := c.sources.subtitle.map Prod.fst

def transcodeSteps (c : Compilation) (container : Container) (m : Machinery) (graph : Graph) :
    List Step :=
  let decoded := m.decoder.next c.initial
  (if m.usesHardware then [.global (.device (c.deviceSetup m))] else [])
  ++ c.globalSteps m.usesHardware
  ++ [.decoder m.decoder, .filter graph]
  ++ containerSteps m.encoder container m.backend.isHardware
  ++ c.rateSteps
  ++ [.videoEncoder m.encoder]
  ++ pixelFormatSteps m.encoder (graph.next decoded)
  ++ c.audioSteps c.transcodedAudioEncoder
  ++ c.trailingSteps (c.sources.subtitle.map Prod.snd) container

def mainPath (c : Compilation) (desired : Frame) (m : Machinery) : MainPath :=
  .compose (c.pathPlan desired m) (m.decoder.next c.initial)

def transcoded (c : Compilation) (desired : Frame) (container : Container) (m : Machinery) :
    Except Failure Pipeline := do
  let path := c.mainPath desired m
  let (files, layers) ← c.layers (path.overlayBackend m.backend) path.frame c.sources.files
  return {
    steps := c.transcodeSteps container m (c.graph m path layers)
    inputs := files
    initial := c.initial }

/-- Why the video cannot be copied. -/
def reasons (c : Compilation) (desired : Frame) : List TranscodeReason :=
  videoReasons c.initial desired c.request.target.allowCopy c.request.hasOverlays

/-- A bad target is refused before missing output settings, and these before a codec that cannot
be decoded or encoded. -/
def assembled (c : Compilation) : Except Failure Assembly := do
  let desired ← c.request.target.desired c.request.video.stream c.request.settings
  let container ← c.container
  if c.reasons desired = [] then
    return ⟨c.copied container, .copy, c.copiedAudioEncoder⟩
  else
    let m ← c.machinery
    let pipeline ← c.transcoded desired container m
    return ⟨pipeline, m.encoder, c.transcodedAudioEncoder⟩

def run (c : Compilation) : Except Failure Pipeline := do
  let a ← c.assembled
  checked a

end Compilation

def compile (request : Request) (capabilities : Capabilities) (config : Config) :
    Except Failure Pipeline :=
  (Compilation.mk request capabilities config).run

end Playout
