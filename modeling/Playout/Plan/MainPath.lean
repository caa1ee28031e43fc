import Playout.Filter.Video
import Playout.Item.Target
import Playout.Plan.Encoder

/-!
# The main path

The filters between decoder and encoder, in their order: deinterlacing, tone mapping, scaling,
cropping or padding, and the moves that the layers and the encoder need.  Every stage looks at the
frames that the stages before it leave, and adds a filter or none.
-/

namespace Playout

/-- A text subtitle for the main frames. -/
structure BurnedText where
  path : String
  index : UInt32
  fonts : Option String
deriving DecidableEq

/-- What the main path is to do. -/
structure PathPlan where
  backend : Backend
  encoder : VideoEncoder
  desired : Frame
  scaling : Scaling
  /-- Pixels are squared by changing the height. -/
  squareByHeight : Bool
  tonemapAlgorithm : String
  burned : Option BurnedText
  /-- Layers follow. -/
  hasLayers : Bool
deriving DecidableEq

namespace PathPlan

def deinterlace? (p : PathPlan) (f : Frame) : Option VideoFilter :=
  if p.desired.deinterlaced && !f.deinterlaced then some (.deinterlace p.backend f) else none

def tonemap? (p : PathPlan) (f : Frame) : Option VideoFilter :=
  if f.hdr && !p.desired.hdr then
    some (.tonemap p.backend f p.tonemapAlgorithm (p.desired.pixelFormat.getD .yuv420p).hosted)
  else none

/-- The box is what the picture is cut to, what it becomes, or what it must fit in. -/
def resize (p : PathPlan) : Resize :=
  match p.scaling, p.desired.croppedSize with
  | .crop, some cropped => ⟨cropped, p.desired.scaledSize, some .increase⟩
  | .stretch, _ => ⟨p.desired.scaledSize, p.desired.scaledSize, none⟩
  | _, _ => ⟨p.desired.paddedSize, p.desired.scaledSize, some .decrease⟩

/-- Frames of the right size on an accelerator are only converted to the encoder's format. -/
def scale? (p : PathPlan) (f : Frame) : Option VideoFilter :=
  if f.scaledSize ≠ p.desired.scaledSize ∨ f.anamorphic = true then
    some (.scale p.backend f p.resize p.encoder.surfaceFormat? p.squareByHeight)
  else match p.encoder.surfaceFormat? with
    | some format =>
      if p.backend.isHardware && f.isHardware && !f.hasWire format then
        some (.convert p.backend f format)
      else none
    | none => none

def frame? (p : PathPlan) (f : Frame) : Option VideoFilter :=
  match p.desired.croppedSize with
  | some cropped => if f.paddedSize ≠ cropped then some (.crop f cropped) else none
  | none =>
    if f.paddedSize ≠ p.desired.paddedSize then some (.pad p.backend f p.desired.paddedSize)
    else none

/-- An encoder that takes frames from host memory gets them there. -/
def toEncoder? (p : PathPlan) (f : Frame) : Option VideoFilter :=
  if f.isHardware && p.encoder.surfaceFormat?.isNone then
    some (.download f (p.encoder.pixelFormat?.or (f.pixelFormat.map PixelFormat.hosted)))
  else none

/-- Text is burned in host memory; layers are composited there without an accelerator's filters,
and with ten bits. -/
def overlaysInSoftware (p : PathPlan) (f : Frame) : Bool :=
  p.burned.isSome || (p.hasLayers && (!p.backend.isHardware || f.bitDepth == 10))

def toOverlays? (p : PathPlan) (f : Frame) : Option VideoFilter :=
  if p.overlaysInSoftware f && f.isHardware then
    some (.download f (f.pixelFormat.map PixelFormat.hosted))
  else none

def subtitles? (p : PathPlan) (f : Frame) : Option VideoFilter :=
  p.burned.map fun b => .subtitles f b.path b.index b.fonts

def stages (p : PathPlan) : List (Frame → Option VideoFilter) :=
  [p.deinterlace?, p.tonemap?, p.scale?, p.frame?, p.toEncoder?, p.toOverlays?, p.subtitles?]

end PathPlan

/-- Filters that are settled, and the frames after them. -/
structure MainPath where
  filters : List VideoFilter
  frame : Frame
deriving DecidableEq

namespace MainPath

def step (m : MainPath) (stage : Frame → Option VideoFilter) : MainPath :=
  match stage m.frame with
  | some v => ⟨m.filters ++ [v], v.next m.frame⟩
  | none => m

def compose (p : PathPlan) (f : Frame) : MainPath := p.stages.foldl step ⟨[], f⟩

/-- The family that lays the layers over the frames. -/
def overlayBackend (m : MainPath) (b : Backend) : Backend :=
  if m.frame.isHardware then b else .software

end MainPath

/-- The upload after the layers, for an encoder that takes frames from an accelerator. -/
def finalUpload? (b : Backend) (e : VideoEncoder) (f : Frame) : Option VideoFilter :=
  match e.surfaceFormat? with
  | some format => if f.isHardware || !b.isHardware then none else some (.upload b (some format))
  | none => none

end Playout
