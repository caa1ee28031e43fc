import Playout.Filter.Escape
import Playout.Filter.Transfer

/-!
# Video filters

The filters on the way of the main frames.  A filter that works on frames brings them to its
family's memory first; the move is settled when the filter is built for the frames at hand, and
`next` says what the frames are afterwards.
-/

namespace Playout

inductive KeepAspect where
  | decrease
  | increase
deriving DecidableEq

def KeepAspect.text : KeepAspect → String
  | decrease => "decrease"
  | increase => "increase"

/-- The box handed to a scaling filter, and the size the picture then has. -/
structure Resize where
  box : Size
  result : Size
  aspect : Option KeepAspect
deriving DecidableEq

/-- What a filter does to frames that lie in its memory. -/
inductive FilterWork where
  | deinterlace
  | tonemap (algorithm : String) (pixels : PixelFormat)
  /-- `square` makes pixels square first, by changing the height if it is true. -/
  | scale (resize : Resize) (pixels : Option PixelFormat) (square : Option Bool)
  | convert (pixels : PixelFormat)
  | pad (size : Size)
  | crop (size : Size)
  | subtitles (path : String) (index : UInt32) (fonts : Option String)
deriving DecidableEq

namespace FilterWork

def scaler : Backend → String
  | .software => "scale"
  | .cuda => "scale_cuda"
  | .qsv => "scale_qsv"
  | .vaapi => "scale_vaapi"

def deinterlaceCall : Backend → Call
  | .software => ⟨"yadif", [place "1"]⟩
  | .cuda => ⟨"yadif_cuda", []⟩
  | .qsv => ⟨"deinterlace_qsv", []⟩
  | .vaapi => ⟨"deinterlace_vaapi", []⟩

def tonemapCalls (algorithm : String) (p : PixelFormat) : Backend → List Call
  | .software => [
      ⟨"zscale", [keyed "transfer" "linear"]⟩,
      ⟨"tonemap", [place algorithm]⟩,
      ⟨"zscale", [keyed "transfer" "bt709", keyed "matrix" "bt709", keyed "primaries" "bt709"]⟩,
      Transfer.formatCall p]
  | .cuda => [
      ⟨"hwupload", [keyed "derive_device" "vulkan"]⟩,
      ⟨"libplacebo", [keyed "tonemapping" algorithm, keyed "colorspace" "bt709",
        keyed "color_primaries" "bt709", keyed "color_trc" "bt709", keyed "format" p.text]⟩,
      ⟨"hwupload", [keyed "derive_device" "cuda"]⟩]
  | .qsv => [⟨"vpp_qsv", [keyed "tonemap" "1", keyed "format" p.text]⟩]
  | .vaapi => [
      ⟨"hwmap", [keyed "derive_device" "opencl"]⟩,
      ⟨"tonemap_opencl", [keyed "tonemap" algorithm, keyed "transfer" "bt709",
        keyed "matrix" "bt709", keyed "primaries" "bt709", keyed "format" p.text]⟩,
      ⟨"hwmap", [keyed "derive_device" "vaapi", keyed "reverse" "1"]⟩]

def formatArgument : Option PixelFormat → List Argument
  | some p => [keyed "format" p.text]
  | none => []

def resizeCall (r : Resize) (p : Option PixelFormat) (b : Backend) : Call :=
  ⟨scaler b,
    (match b with
      | .qsv => [keyedNat "w" r.result.width.toNat, keyedNat "h" r.result.height.toNat]
      | _ =>
        [placeNat r.box.width.toNat, placeNat r.box.height.toNat]
        ++ (if b = .software then [keyed "flags" "fast_bilinear"] else [])
        ++ (match r.aspect with
          | some a => [keyed "force_original_aspect_ratio" a.text]
          | none => []))
    ++ formatArgument p⟩

/-- Every pixel is made square by stretching the height, or else the width. -/
def squareCalls (byHeight : Bool) (b : Backend) : List Call := [
  ⟨scaler b, if byHeight then [place "iw", place "sar*ih"] else [place "iw*sar", place "ih"]⟩,
  ⟨"setsar", [place "1"]⟩]

def convertCall (p : PixelFormat) : Backend → Call
  | .software => Transfer.formatCall p
  | .qsv => ⟨"vpp_qsv", [keyed "format" p.text]⟩
  | b => ⟨scaler b, [keyed "format" p.text]⟩

def padCall (size : Size) : Backend → Call
  | .vaapi => ⟨"pad_vaapi", [keyedNat "w" size.width.toNat, keyedNat "h" size.height.toNat,
      keyed "x" "-1", keyed "y" "-1", keyed "color" "black"]⟩
  | _ => ⟨"pad", [placeNat size.width.toNat, placeNat size.height.toNat, place "-1", place "-1",
      keyed "color" "black"]⟩

def subtitlesCall (path : String) (index : UInt32) (fonts : Option String) : Call :=
  ⟨"subtitles", [place (escape path), keyedNat "si" index.toNat]
    ++ (match fonts with
      | some folder => [keyed "fontsdir" (escape folder)]
      | none => [])⟩

def calls (b : Backend) : FilterWork → List Call
  | deinterlace => [deinterlaceCall b]
  | tonemap algorithm p => tonemapCalls algorithm p b
  | scale r p square =>
    (match square with
      | some byHeight => squareCalls byHeight b
      | none => [])
    ++ [resizeCall r p b]
  | convert p => [convertCall p b]
  | pad size => [padCall size b]
  | crop size => [⟨"crop", [placeNat size.width.toNat, placeNat size.height.toNat]⟩]
  | subtitles path index fonts => [subtitlesCall path index fonts]

/-- What the work leaves of the frames it is given. -/
def next (w : FilterWork) (f : Frame) : Frame :=
  match w with
  | deinterlace => { f with deinterlaced := true }
  | tonemap _ p => { f with pixelFormat := some p, hdr := false }
  | scale r p _ =>
    { f with
      scaledSize := r.result
      paddedSize := r.result
      anamorphic := false
      pixelFormat := p.or f.pixelFormat }
  | convert p => { f with anamorphic := false, pixelFormat := some p }
  | pad size => { f with paddedSize := size }
  | crop size => { f with scaledSize := size, paddedSize := size }
  | subtitles _ _ _ => f

theorem next_memory (w : FilterWork) (f : Frame) : (w.next f).memory = f.memory := by
  cases w <;> rfl

end FilterWork

inductive VideoFilter where
  /-- Work by a family of filters, after the move that brings the frames there. -/
  | work (backend : Backend) (lead : Option Transfer) (work : FilterWork)
  /-- Nothing but a move. -/
  | move (transfer : Transfer)
deriving DecidableEq

namespace VideoFilter

def leadOf (b : Backend) (f : Frame) : Option Transfer := Transfer.toward? b f b.memory

/-- Work on frames, with the move that they need. -/
def on (b : Backend) (f : Frame) (w : FilterWork) : VideoFilter := work b (leadOf b f) w

def deinterlace (b : Backend) (f : Frame) : VideoFilter := on b f .deinterlace

/-- QSV and VAAPI leave semi-planar frames. -/
def tonemap (b : Backend) (f : Frame) (algorithm : String) (wanted : PixelFormat) : VideoFilter :=
  on b f (.tonemap algorithm (match b with
    | .software | .cuda => wanted
    | .qsv | .vaapi => wanted.semiPlanar))

/-- Frames that are not square are squared first; only an accelerator converts on the way. -/
def scale (b : Backend) (f : Frame) (r : Resize) (p : Option PixelFormat) (byHeight : Bool) :
    VideoFilter :=
  on b f (.scale r (if b.isHardware then p else none)
    (if f.anamorphic then some byHeight else none))

def convert (b : Backend) (f : Frame) (p : PixelFormat) : VideoFilter := on b f (.convert p)

/-- VAAPI pads its own frames; every other family leaves that to the host. -/
def padBackend : Backend → Backend
  | .vaapi => .vaapi
  | _ => .software

def pad (b : Backend) (f : Frame) (size : Size) : VideoFilter := on (padBackend b) f (.pad size)

def crop (f : Frame) (size : Size) : VideoFilter := on .software f (.crop size)

def subtitles (f : Frame) (path : String) (index : UInt32) (fonts : Option String) : VideoFilter :=
  on .software f (.subtitles path index fonts)

/-- A target that the surfaces carry already is no conversion. -/
def download (f : Frame) (target : Option PixelFormat) : VideoFilter :=
  let source := f.pixelFormat.getD .nv12
  move (.download source (target.filter fun t => !t.sameWire source))

def upload (b : Backend) (p : Option PixelFormat) : VideoFilter := move (.upload b p)

def calls : VideoFilter → List Call
  | work b lead w => (match lead with
      | some t => t.calls
      | none => []) ++ w.calls b
  | move t => t.calls

def text (v : VideoFilter) : String := Call.chainText v.calls

def isConversion : VideoFilter → Bool
  | work _ _ (.convert _) => true
  | _ => false

def next (v : VideoFilter) (f : Frame) : Frame :=
  match v with
  | work b _ w => w.next (Transfer.moved b f b.memory)
  | move t => t.next f

/-- The frames after filters that run one after the other. -/
def nextAll (filters : List VideoFilter) (f : Frame) : Frame :=
  filters.foldl (fun f v => v.next f) f

@[simp] theorem nextAll_nil (f : Frame) : nextAll [] f = f := rfl

@[simp] theorem nextAll_cons (v : VideoFilter) (vs : List VideoFilter) (f : Frame) :
    nextAll (v :: vs) f = nextAll vs (v.next f) := rfl

theorem nextAll_append (vs ws : List VideoFilter) (f : Frame) :
    nextAll (vs ++ ws) f = nextAll ws (nextAll vs f) := by
  simp [nextAll]

/-- After work the frames lie in the memory of its family. -/
theorem next_work_memory (b : Backend) (lead : Option Transfer) (w : FilterWork) (f : Frame) :
    ((work b lead w).next f).memory = b.memory := by
  show (w.next (Transfer.moved b f b.memory)).memory = b.memory
  rw [FilterWork.next_memory, Transfer.moved_memory]

end VideoFilter

end Playout
