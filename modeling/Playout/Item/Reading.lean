import Playout.Device.Capabilities
import Playout.Item.Request
import Playout.Json.Record

/-!
# Requests and capabilities as JSON

The fields of every record in their order, with their defaults.
-/

namespace Playout

namespace Json

/-! ## Names -/

def named (text : α → String) (all : List α) : List (String × α) := all.map fun a => (text a, a)

def readVideoFormat : Read VideoFormat := readChoice (named VideoFormat.text VideoFormat.all)

def readPixelLayout : Read PixelLayout := readChoice (named PixelLayout.text PixelLayout.all)

def readContainerKind : Read ContainerKind :=
  readChoice (named ContainerKind.text ContainerKind.all)

def readRateControl : Read RateControl := readChoice (named RateControl.text RateControl.all)

def acceleratorName : Accelerator → String
  | .none => "None"
  | .nvenc => "Nvenc"
  | .qsv => "Qsv"
  | .vaapi => "Vaapi"
  | .videoToolbox => "VideoToolbox"
  | .amf => "Amf"

def readAccelerator : Read Accelerator := readChoice (named acceleratorName Accelerator.all)

def readScaling : Read Scaling :=
  readChoice [("scale_and_pad", .scaleAndPad), ("stretch", .stretch), ("crop", .crop)]

def readLoudness : Read Loudness :=
  readChoice [("off", .off), ("loud_norm", .loudNorm), ("dyn_aud_norm", .dynAudNorm)]

def readSubtitleMethod : Read SubtitleMethod :=
  readChoice [("burn", .burn), ("copy", .copy), ("convert", .convert)]

def readAnchor : Read Anchor :=
  readChoice [
    ("top_left", .topLeft), ("top_middle", .topMiddle), ("top_right", .topRight),
    ("left_middle", .leftMiddle), ("middle_center", .middleCenter),
    ("right_middle", .rightMiddle), ("bottom_left", .bottomLeft),
    ("bottom_middle", .bottomMiddle), ("bottom_right", .bottomRight)]

/-! ## Media -/

/-- Seconds and nanoseconds, and no other field. -/
def readDuration : Read Duration := fun j => do
  let r ← exactRecord? ["secs", "nanos"] j
  Duration.ofParts? (← r.required "secs" (readNat UInt64.size))
    (← r.required "nanos" (readNat UInt32.size))

def readSize : Read Size := fun j => do
  let r ← record? ["width", "height"] j
  return ⟨← r.required "width" readUInt32, ← r.required "height" readUInt32⟩

def readVideoStream : Read VideoStream := fun j => do
  let r ← record? ["index", "codec", "profile", "pixel_format", "frame_size",
    "sample_aspect_ratio", "display_aspect_ratio", "anamorphic_edge_case", "interlaced",
    "still_image", "color_transfer", "frame_rate"] j
  return {
    index := ← r.required "index" readUInt32
    codec := ← r.required "codec" readText
    profile := ← r.optional "profile" none readText
    pixelFormatName := ← r.optional "pixel_format" none readText
    frameSize := ← r.required "frame_size" readSize
    sampleAspectRatio := ← r.optional "sample_aspect_ratio" none readText
    displayAspectRatio := ← r.optional "display_aspect_ratio" none readText
    anamorphicEdgeCase := ← r.withDefault "anamorphic_edge_case" false readBool
    interlaced := ← r.withDefault "interlaced" false readBool
    stillImage := ← r.withDefault "still_image" false readBool
    colorTransfer := ← r.optional "color_transfer" none readText
    frameRate := ← r.optional "frame_rate" none readFloat }

def readAudioStream : Read AudioStream := fun j => do
  let r ← record? ["index", "codec", "channels", "language"] j
  return {
    index := ← r.required "index" readUInt32
    codec := ← r.required "codec" readText
    channels := ← r.required "channels" readUInt32
    language := ← r.optional "language" none readText }

def readSubtitleStream : Read SubtitleStream := fun j => do
  let r ← record? ["index", "codec", "language"] j
  return {
    index := ← r.required "index" readUInt32
    codec := ← r.required "codec" readText
    language := ← r.optional "language" none readText }

/-! ## Target and settings -/

def readAudioTarget : Read AudioTarget := fun j => do
  let r ← record? ["format", "channels", "bitrate", "buffer_size", "sample_rate",
    "normalize_loudness", "pad_to"] j
  let d : AudioTarget := {}
  return {
    format := ← r.optional "format" d.format readText
    channels := ← r.withDefault "channels" d.channels readUInt32
    bitrate := ← r.optional "bitrate" d.bitrate readUInt32
    bufferSize := ← r.optional "buffer_size" d.bufferSize readUInt32
    sampleRate := ← r.optional "sample_rate" d.sampleRate readUInt32
    loudness := ← r.withDefault "normalize_loudness" d.loudness readLoudness
    padTo := ← r.optional "pad_to" d.padTo readDuration }

def readTarget : Read Target := fun j => do
  let r ← record? ["resolution", "scaling", "video_format", "video_profile", "video_preset",
    "bit_depth", "video_bitrate", "video_buffer_size", "frame_rate", "hardware_acceleration",
    "device", "vaapi_driver", "deinterlace", "tonemap_algorithm", "thread_count", "allow_copy",
    "audio"] j
  let d : Target := {}
  return {
    resolution := ← r.withDefault "resolution" d.resolution readSize
    scaling := ← r.withDefault "scaling" d.scaling readScaling
    videoFormat := ← r.withDefault "video_format" d.videoFormat readVideoFormat
    profile := ← r.optional "video_profile" d.profile readText
    preset := ← r.optional "video_preset" d.preset readText
    bitDepth := ← r.withDefault "bit_depth" d.bitDepth (readNat UInt8.size)
    videoBitrate := ← r.optional "video_bitrate" d.videoBitrate readUInt32
    videoBufferSize := ← r.optional "video_buffer_size" d.videoBufferSize readUInt32
    frameRate := ← r.optional "frame_rate" d.frameRate readUInt32
    accelerator := ← r.withDefault "hardware_acceleration" d.accelerator readAccelerator
    device := ← r.optional "device" d.device readText
    driver := ← r.optional "vaapi_driver" d.driver readText
    deinterlace := ← r.withDefault "deinterlace" d.deinterlace readBool
    tonemapAlgorithm := ← r.withDefault "tonemap_algorithm" d.tonemapAlgorithm readText
    threads := ← r.optional "thread_count" d.threads readUInt32
    allowCopy := ← r.withDefault "allow_copy" d.allowCopy readBool
    audio := ← r.withDefault "audio" d.audio readAudioTarget }

def readHlsSettings : Read HlsSettings := fun j => do
  let r ← record? ["playlist_path", "segment_template"] j
  return ⟨← r.required "playlist_path" readText, ← r.required "segment_template" readText⟩

def readMetadata : Read Metadata := fun j => do
  let r ← record? ["service_provider", "service_name", "audio_language"] j
  return {
    serviceProvider := ← r.nullable "service_provider" readText
    serviceName := ← r.nullable "service_name" readText
    audioLanguage := ← r.nullable "audio_language" readText }

def readSettings : Read Settings := fun j => do
  let r ← record? ["start", "finish", "realtime", "readrate_initial_burst", "infinite_loop",
    "output_format", "hls", "metadata", "save_report"] j
  let d : Settings := {}
  return {
    start := ← r.optional "start" d.start readDuration
    finish := ← r.optional "finish" d.finish readDuration
    realtime := ← r.withDefault "realtime" d.realtime readBool
    initialBurst := ← r.withDefault "readrate_initial_burst" d.initialBurst readUInt32
    infiniteLoop := ← r.withDefault "infinite_loop" d.infiniteLoop readBool
    container := ← r.withDefault "output_format" d.container readContainerKind
    hls := ← r.optional "hls" d.hls readHlsSettings
    metadata := ← r.withDefault "metadata" d.metadata readMetadata
    saveReport := ← r.withDefault "save_report" d.saveReport readBool }

def readConfig : Read Config := fun j => do
  let r ← record? ["ffmpeg_path", "ffprobe_path", "reports_dir", "fonts_dir", "vaapi_device",
    "hls_segment_secs"] j
  let d : Config := {}
  return {
    ffmpeg := ← r.withDefault "ffmpeg_path" d.ffmpeg readText
    ffprobe := ← r.withDefault "ffprobe_path" d.ffprobe readText
    reportsFolder := ← r.withDefault "reports_dir" d.reportsFolder readText
    fontsFolder := ← r.optional "fonts_dir" d.fontsFolder readText
    vaapiDevice := ← r.withDefault "vaapi_device" d.vaapiDevice readText
    segmentSeconds := ← r.withDefault "hls_segment_secs" d.segmentSeconds readUInt32 }

/-! ## Overlays -/

/-- Where a value comes from.  The fields of a variant may be given by their places in a text that
is read straight into records, and only by their names in a value that was settled before. -/
inductive Origin where
  | text
  | settled
deriving DecidableEq

/-- The fields of a variant. -/
def variantRecord? (origin : Origin) (names : List String) (j : Json) : Option Record :=
  match origin, j with
  | .settled, .array _ => none
  | _, _ => record? names j

def readWatermarkSize (origin : Origin) : Read WatermarkSize := fun j => do
  match ← variant? j with
  | ("actual_size", none) | ("actual_size", some .null) => return .actual
  | ("scaled", some content) =>
    let r ← variantRecord? origin ["width_percent"] content
    return .scaled (← r.required "width_percent" readFloat)
  | _ => none

def readFadePoint : Read FadePoint := fun j => do
  let r ← record? ["at", "fade_in"] j
  return ⟨← r.required "at" readDuration, ← r.required "fade_in" readBool⟩

def readWatermark (origin : Origin) : Read Watermark := fun j => do
  let r ← record? ["path", "stream", "location", "size", "opacity", "horizontal_margin_percent",
    "vertical_margin_percent", "place_within_source_content", "z_index", "fade_points"] j
  return {
    path := ← r.required "path" readText
    stream := ← r.required "stream" readVideoStream
    anchor := ← r.withDefault "location" .bottomRight readAnchor
    size := ← r.withDefault "size" .actual (readWatermarkSize origin)
    opacity := ← r.withDefault "opacity" 100 readUInt32
    horizontalMargin := ← r.withDefault "horizontal_margin_percent" 0 readFloat
    verticalMargin := ← r.withDefault "vertical_margin_percent" 0 readFloat
    withinContent := ← r.withDefault "place_within_source_content" false readBool
    zIndex := ← r.withDefault "z_index" 0 readInt32
    fades := ← r.withDefault "fade_points" [] (readList readFadePoint) }

def readSubtitle : Read Subtitle := fun j => do
  let r ← record? ["path", "stream", "relative_index", "method"] j
  return {
    path := ← r.required "path" readText
    stream := ← r.required "stream" readSubtitleStream
    relativeIndex := ← r.withDefault "relative_index" 0 readUInt32
    method := ← r.withDefault "method" .burn readSubtitleMethod }

def readGraphics : Read Graphics := fun j => do
  let r ← record? ["path", "size", "frame_rate", "z_index"] j
  return {
    path := ← r.required "path" readText
    size := ← r.required "size" readSize
    frameRate := ← r.required "frame_rate" readUInt32
    zIndex := ← r.withDefault "z_index" 0 readInt32 }

/-! ## Requests and capabilities -/

def readVideoSource : Read VideoSource := fun j => do
  let r ← record? ["path", "stream"] j
  return ⟨← r.required "path" readText, ← r.required "stream" readVideoStream⟩

def readAudioSource : Read AudioSource := fun j => do
  let r ← record? ["path", "stream"] j
  return ⟨← r.required "path" readText, ← r.required "stream" readAudioStream⟩

def readRequest (origin : Origin) : Read Request := fun j => do
  let r ← record? ["video", "audio", "watermark", "subtitle", "graphics", "target", "playout"] j
  return {
    video := ← r.required "video" readVideoSource
    audio := ← r.optional "audio" none readAudioSource
    watermark := ← r.optional "watermark" none (readWatermark origin)
    subtitle := ← r.optional "subtitle" none readSubtitle
    graphics := ← r.optional "graphics" none readGraphics
    target := ← r.withDefault "target" {} readTarget
    settings := ← r.withDefault "playout" {} readSettings }

def readCodecSupport : Read CodecSupport := fun j => do
  let r ← record? ["format", "bit_depths"] j
  return {
    format := ← r.required "format" readVideoFormat
    bitDepths := ← r.withDefault "bit_depths" [8] (readList (readNat UInt8.size)) }

def readRateControlEntry : Read (VideoFormat × RateControl) := fun j => do
  let r ← record? ["format", "mode"] j
  return (← r.required "format" readVideoFormat, ← r.required "mode" readRateControl)

def readCapabilities : Read Capabilities := fun j => do
  let r ← record? ["decoders", "encoders", "rate_control"] j
  return {
    decoders := ← r.withDefault "decoders" [] (readList readCodecSupport)
    encoders := ← r.withDefault "encoders" [] (readList readCodecSupport)
    rateControl := ← r.withDefault "rate_control" [] (readList readRateControlEntry) }

end Json

end Playout
