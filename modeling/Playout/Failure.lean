import Playout.Device.Accelerator
import Playout.Frame

/-!
# Failures

A request may be refused for what it asks, and the work on it may be given up where a number does
not fit or where two accounts of the same pipeline differ.
-/

namespace Playout

/-- What is wrong with a target or its output. -/
inductive TargetProblem where
  | emptyResolution (size : Size)
  | bitDepth (depth : Nat)
  | videoRate
  | frameRate
  | audioChannels
  | hlsSettingsMissing
deriving DecidableEq

namespace TargetProblem

def message : TargetProblem → String
  | emptyResolution size => "resolution " ++ size.text ++ " is empty"
  | bitDepth depth => "bit depth " ++ toString depth ++ " is not 8 or 10"
  | videoRate => "video bitrate and buffer size must be positive"
  | frameRate => "frame rate must be positive"
  | audioChannels => "audio channels must be positive"
  | hlsSettingsMissing => "hls output needs a playlist path and segment template"

end TargetProblem

/-- Why media facts could not be had. -/
inductive ProbeProblem where
  | notRunnable (reason : String)
  /-- The program failed and said why. -/
  | reported (text : String)
  | notJson
  | unexpectedShape
  | noFormatSection
deriving DecidableEq

namespace ProbeProblem

def message : ProbeProblem → String
  | notRunnable reason => "could not run ffprobe: " ++ reason
  | reported text => text
  | notJson => "invalid ffprobe output:"
  | unexpectedShape => "unexpected ffprobe output:"
  | noFormatSection => "no format section"

end ProbeProblem

inductive CodecSide where
  | decoder
  | encoder
deriving DecidableEq

def CodecSide.text : CodecSide → String
  | decoder => "decoder"
  | encoder => "encoder"

/-- The two accounts of a finished pipeline, the state of its frames and what its encoders
declare, differ in the name of a part. -/
inductive Disagreement where
  | videoFormat (state encoder : VideoFormat)
  | pixelFormat (state : Option PixelFormat) (encoder : PixelFormat)
  | audioFormat (state : Option AudioFormat) (encoder : AudioFormat)
deriving DecidableEq

namespace Disagreement

/-- The word with a capital first letter. -/
def capital (s : String) : String :=
  match s.toList with
  | [] => ""
  | c :: r => String.ofList (c.toUpper :: r)

def message : Disagreement → String
  | videoFormat s e => "video format " ++ s.text ++ " != " ++ e.text
  | pixelFormat s e =>
    let state := match s with
      | some p =>
        "Some(PixelFormat \x7b name: " ++ capital p.name.text ++ ", wire: " ++ capital p.wire.text
          ++ " \x7d)"
      | none => "None"
    "pixel format " ++ state ++ " != " ++ e.text
  | audioFormat s e =>
    let state := match s with
      | some a => "Some(" ++ capital a.text ++ ")"
      | none => "None"
    "audio format " ++ state ++ " != " ++ e.text

end Disagreement

/-- Why work was given up. -/
inductive Fault where
  /-- A margin and the offset of the content exceed 32 bits together. -/
  | marginTooLarge
  /-- The frames of one segment exceed 32 bits. -/
  | segmentTooLong
  | durationTooLong
  | disagreement (parts : List Disagreement)
deriving DecidableEq

namespace Fault

def quoted (s : String) : String :=
  "\x22" ++ String.ofList (s.toList.flatMap fun c =>
    if c = '\x22' ∨ c = '\x5c' then ['\x5c', c] else [c]) ++ "\x22"

def message : Fault → String
  | marginTooLarge => "attempt to add with overflow"
  | segmentTooLong => "attempt to multiply with overflow"
  | durationTooLong =>
    "cannot convert float seconds to Duration: value is either too big or NaN"
  | disagreement parts =>
    "folded pipeline state disagrees with the encoders: ["
      ++ ", ".intercalate (parts.map fun p => quoted p.message) ++ "]"

end Fault

inductive Failure where
  | invalidTarget (problem : TargetProblem)
  | unsupported (side : CodecSide) (format : String) (accelerator : Accelerator)
  | probe (problem : ProbeProblem)
  | fault (fault : Fault)
deriving DecidableEq

namespace Failure

def message : Failure → String
  | invalidTarget problem => "invalid target: " ++ problem.message
  | unsupported side format accelerator =>
    "no " ++ side.text ++ " for " ++ format ++ " with " ++ accelerator.text ++ " acceleration"
  | probe problem => "ffprobe failed: " ++ problem.message
  | fault f => f.message

end Failure

end Playout
