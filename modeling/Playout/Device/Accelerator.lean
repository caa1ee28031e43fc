import Playout.Media.Codec

/-!
# Accelerators

The hardware a pipeline may run on, the two memories frames lie in, and the families of filters.
Only three accelerators have filters of their own; beside the others frames are filtered in host
memory.
-/

namespace Playout

/-- `none` is the host's processor. -/
inductive Accelerator where
  | none
  | nvenc
  | qsv
  | vaapi
  | videoToolbox
  | amf
deriving DecidableEq

namespace Accelerator

def all : List Accelerator := [none, nvenc, qsv, vaapi, videoToolbox, amf]

def text : Accelerator → String
  | none => "none"
  | nvenc => "nvenc"
  | qsv => "qsv"
  | vaapi => "vaapi"
  | videoToolbox => "videotoolbox"
  | amf => "amf"

def isHardware : Accelerator → Bool
  | none => false
  | _ => true

/-- The formats the accelerator has an encoder for. -/
def encodes : Accelerator → VideoFormat → Bool
  | nvenc, .h264 | nvenc, .hevc | nvenc, .av1 => true
  | amf, .h264 | amf, .hevc | amf, .av1 => true
  | qsv, .h264 | qsv, .hevc | qsv, .mpeg2video | qsv, .av1 => true
  | vaapi, .h264 | vaapi, .hevc | vaapi, .mpeg2video | vaapi, .av1 => true
  | videoToolbox, .h264 | videoToolbox, .hevc => true
  | _, _ => false

/-- The name of the accelerator's encoder for a format. -/
def encoderName? (a : Accelerator) (format : VideoFormat) : Option String :=
  if a.encodes format then format.deviceText?.map fun codec => codec ++ "_" ++ a.text
  else Option.none

end Accelerator

/-- Where frames lie. -/
inductive Memory where
  | software
  | hardware
deriving DecidableEq

/-- A family of filters. -/
inductive Backend where
  | software
  | cuda
  | qsv
  | vaapi
deriving DecidableEq

namespace Backend

def all : List Backend := [software, cuda, qsv, vaapi]

def text : Backend → String
  | software => "software"
  | cuda => "cuda"
  | qsv => "qsv"
  | vaapi => "vaapi"

def isHardware : Backend → Bool
  | software => false
  | _ => true

/-- The memory the family works in. -/
def memory (b : Backend) : Memory := if b.isHardware then .hardware else .software

def ofAccelerator : Accelerator → Backend
  | .nvenc => cuda
  | .qsv => qsv
  | .vaapi => vaapi
  | .none | .videoToolbox | .amf => software

/-- The family of a pipeline that may decode or encode on an accelerator. -/
def ofPipeline (a : Accelerator) (decodes encodes : Bool) : Backend :=
  if decodes || encodes then ofAccelerator a else software

@[simp] theorem memory_software : memory software = .software := rfl

theorem memory_eq_hardware_iff {b : Backend} : b.memory = .hardware ↔ b.isHardware = true := by
  cases b <;> decide

end Backend

end Playout
