/-!
# Pixel formats

The layouts ffmpeg names, and the pair of layouts that describes a picture on its way: the layout
it is understood in and the one it travels in.
-/

namespace Playout

inductive PixelLayout where
  | yuv420p
  | yuvj420p
  | yuv420p10le
  | yuv444p
  | yuv444p10le
  | yuva420p
  | nv12
  | p010le
  | vaapi
  | qsv
  | cuda
deriving DecidableEq

namespace PixelLayout

def all : List PixelLayout :=
  [yuv420p, yuvj420p, yuv420p10le, yuv444p, yuv444p10le, yuva420p, nv12, p010le, vaapi, qsv, cuda]

def text : PixelLayout → String
  | yuv420p => "yuv420p"
  | yuvj420p => "yuvj420p"
  | yuv420p10le => "yuv420p10le"
  | yuv444p => "yuv444p"
  | yuv444p10le => "yuv444p10le"
  | yuva420p => "yuva420p"
  | nv12 => "nv12"
  | p010le => "p010le"
  | vaapi => "vaapi"
  | qsv => "qsv"
  | cuda => "cuda"

/-- The layout a text names; `p010` is a second name of `p010le`. -/
def ofText? (s : String) : Option PixelLayout :=
  if s = "p010" then some p010le else all.find? fun l => l.text = s

theorem mem_all (l : PixelLayout) : l ∈ all := by
  cases l <;> decide

/-- Whether the layout is that of frames in an accelerator's memory. -/
def isSurface : PixelLayout → Bool
  | vaapi | qsv | cuda => true
  | _ => false

def bitDepth : PixelLayout → Nat
  | yuv420p10le | yuv444p10le | p010le => 10
  | _ => 8

end PixelLayout

/-- `name` is the layout of the picture and `wire` the one ffmpeg sees.  They differ when a planar
picture travels semi-planar or on an accelerator's surface. -/
structure PixelFormat where
  name : PixelLayout
  wire : PixelLayout
deriving DecidableEq

namespace PixelFormat

def plain (l : PixelLayout) : PixelFormat := ⟨l, l⟩

def yuv420p : PixelFormat := plain .yuv420p

def yuv420p10le : PixelFormat := plain .yuv420p10le

def nv12 : PixelFormat := plain .nv12

def ofText? (s : String) : Option PixelFormat := (PixelLayout.ofText? s).map plain

def text (f : PixelFormat) : String := f.wire.text

def bitDepth (f : PixelFormat) : Nat :=
  if f.wire.isSurface then f.name.bitDepth else f.wire.bitDepth

def isTenBit (f : PixelFormat) : Bool := f.bitDepth == 10

/-- The same picture carried as nv12 or p010le. -/
def semiPlanar (f : PixelFormat) : PixelFormat :=
  { f with wire := if f.isTenBit then .p010le else .nv12 }

def isSemiPlanar (f : PixelFormat) : Bool := f.wire == .nv12 || f.wire == .p010le

/-- The format that travels as the picture's own layout, if host memory can hold that. -/
def hosted? (f : PixelFormat) : Option PixelFormat :=
  if f.name.isSurface then none else some (plain f.name)

/-- The format a downloaded picture is converted to. -/
def hosted (f : PixelFormat) : PixelFormat := f.hosted?.getD f

def sameWire (f g : PixelFormat) : Bool := f.wire == g.wire

theorem bitDepth_semiPlanar (f : PixelFormat) : f.semiPlanar.bitDepth = f.bitDepth := by
  obtain ⟨name, wire⟩ := f
  cases name <;> cases wire <;> rfl

end PixelFormat

end Playout
