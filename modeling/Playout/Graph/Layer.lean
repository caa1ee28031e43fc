import Playout.Filter.Video
import Playout.Graph.Position

/-!
# Layers

What is composited over the main frames: an input stream, the calls that prepare it, and the
filter that lays it over the frames.
-/

namespace Playout

/-- A stream of an input, by the places of both. -/
structure StreamRef where
  input : Nat
  stream : UInt32
deriving DecidableEq

namespace StreamRef

def text (r : StreamRef) : String := toString r.input ++ ":" ++ toString r.stream.toNat

end StreamRef

/-- The kinds of layers, in the order in which a compiler adds them. -/
inductive LayerKind where
  | subtitle
  | watermark
  | graphics
deriving DecidableEq

def LayerKind.label : LayerKind → String
  | subtitle => "st"
  | watermark => "wm"
  | graphics => "gfx"

structure Layer where
  kind : LayerKind
  input : StreamRef
  prepare : List Call
  overlay : Call
  zIndex : Int
deriving DecidableEq

namespace Layer

def label (l : Layer) : String := l.kind.label

/-- The label of the frames with this layer on them. -/
def outputLabel (l : Layer) : String := "v" ++ l.label

def overlayName : Backend → String
  | .software => "overlay"
  | .cuda => "overlay_cuda"
  | .qsv => "overlay_qsv"
  | .vaapi => "overlay_vaapi"

/-- The layout that the compositing filter takes for pictures with transparency. -/
def alphaFormat : Backend → String
  | .software | .cuda => "yuva420p"
  | .qsv | .vaapi => "bgra"

def alphaCall (b : Backend) : Call := ⟨"format", [place (alphaFormat b)]⟩

/-- The move of a prepared layer to where it is composited. -/
def uploadCalls : Backend → List Call
  | .software => []
  | .cuda => [⟨"hwupload_cuda", []⟩]
  | .qsv => [⟨"hwupload", [keyed "extra_hw_frames" "64"]⟩]
  | .vaapi => [⟨"hwupload", []⟩]

def scaleCall (size : Size) : Backend → Call
  | .qsv => ⟨"scale_qsv", [keyedNat "w" size.width.toNat, keyedNat "h" size.height.toNat]⟩
  | b => ⟨FilterWork.scaler b, [placeNat size.width.toNat, placeNat size.height.toNat]⟩

/-- The nearest whole number made even, at least 2. -/
def evenSide (x : Float) : UInt32 :=
  let n := (Binary64.roundToUInt32 x).toNat
  UInt32.ofNat (max n 2 - max n 2 % 2)

/-- The size of a watermark with a width in percent: its own proportions, or a square if it has
none. -/
def watermarkSize (widthPercent : Float) (picture frame : Size) : Size :=
  let width := evenSide (widthPercent / 100 * frame.width.toFloat)
  ⟨width, if picture.isEmpty then width
    else evenSide (width.toFloat * picture.height.toFloat / picture.width.toFloat)⟩

def fadeCall (p : FadePoint) : Call :=
  ⟨"fade", [place (if p.fadeIn then "in" else "out"), keyed "st" p.time.decimalSeconds,
    keyed "d" "1", keyed "alpha" "1"]⟩

/-- A watermark over frames of a padded size whose picture has a scaled size. -/
def watermark (w : Watermark) (input : StreamRef) (b : Backend) (scaledSize paddedSize : Size) :
    Except Failure Layer := do
  let frame := if w.withinContent then scaledSize else paddedSize
  let offset : Offset :=
    if w.withinContent then
      ⟨(paddedSize.width.toNat - scaledSize.width.toNat) / 2,
        (paddedSize.height.toNat - scaledSize.height.toNat) / 2⟩
    else ⟨0, 0⟩
  let position ← w.anchor.position frame w.horizontalMargin w.verticalMargin offset
  return {
    kind := .watermark
    input := input
    prepare :=
      (if w.opacity.toNat < 100 then
        [⟨"colorchannelmixer", [keyed "aa" ("0." ++ padded 2 w.opacity.toNat)]⟩]
      else [])
      ++ [alphaCall b]
      ++ w.fades.map fadeCall
      ++ uploadCalls b
      ++ (match w.size with
        | .scaled percent => [scaleCall (watermarkSize percent w.stream.frameSize frame) b]
        | .actual => [])
    overlay := ⟨overlayName b, position⟩
    zIndex := w.zIndex.toInt }

/-- The z-index below which no other lies. -/
def lowest : Int := Int32.minValue.toInt

theorem lowest_le (z : Int32) : lowest ≤ z.toInt := z.minValue_le_toInt

/-- Picture subtitles are made for the source's size; they are scaled into the padded frame and
centred. -/
def pictureSubtitle (input : StreamRef) (b : Backend) (source paddedSize : Size) : Layer where
  kind := .subtitle
  input := input
  prepare :=
    (if source ≠ paddedSize then
      [⟨"scale", [placeNat paddedSize.width.toNat, placeNat paddedSize.height.toNat,
        keyed "force_original_aspect_ratio" "decrease"]⟩]
    else [])
    ++ (if b.isHardware then alphaCall b :: uploadCalls b else [])
  overlay := ⟨overlayName b, [keyed "x" "(W-w)/2", keyed "y" "(H-h)/2"]⟩
  zIndex := lowest

def graphics (g : Graphics) (input : StreamRef) (b : Backend) (tenBit : Bool) : Layer where
  kind := .graphics
  input := input
  prepare := if b.isHardware then alphaCall b :: uploadCalls b else []
  overlay := ⟨overlayName b,
    if b.isHardware then [] else [keyed "format" (if tenBit then "yuv420p10" else "yuv420")]⟩
  zIndex := g.zIndex.toInt

end Layer

end Playout
