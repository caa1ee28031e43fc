/-!
# Video and audio formats

A format stands for what a codec name says; two video formats name no codec: `copy` passes the
stream through, and `undetermined` leaves the choice to ffmpeg.
-/

namespace Playout

inductive VideoFormat where
  | h264
  | hevc
  | mpeg1video
  | mpeg2video
  | mpeg4
  | msmpeg4v2
  | msmpeg4v3
  | vc1
  | vp9
  | av1
  | rawvideo
  | copy
  | undetermined
deriving DecidableEq

namespace VideoFormat

def all : List VideoFormat :=
  [h264, hevc, mpeg1video, mpeg2video, mpeg4, msmpeg4v2, msmpeg4v3, vc1, vp9, av1, rawvideo, copy,
    undetermined]

theorem mem_all (f : VideoFormat) : f ∈ all := by
  cases f <;> decide

def text : VideoFormat → String
  | h264 => "h264"
  | hevc => "hevc"
  | mpeg1video => "mpeg1video"
  | mpeg2video => "mpeg2video"
  | mpeg4 => "mpeg4"
  | msmpeg4v2 => "msmpeg4v2"
  | msmpeg4v3 => "msmpeg4v3"
  | vc1 => "vc1"
  | vp9 => "vp9"
  | av1 => "av1"
  | rawvideo => "rawvideo"
  | copy => "copy"
  | undetermined => "undetermined"

/-- The format of a codec name, in any case of its ASCII letters.  No name at all is
`undetermined`. -/
def ofCodec? (codec : String) : Option VideoFormat :=
  let name := codec.map Char.toLower
  if name = "" then some undetermined
  else if name = "h265" then some hevc
  else all.find? fun f => f.text = name

/-- The format's part of the names of hardware decoders and encoders. -/
def deviceText? : VideoFormat → Option String
  | h264 => some "h264"
  | hevc => some "hevc"
  | mpeg2video => some "mpeg2"
  | mpeg4 => some "mpeg4"
  | vc1 => some "vc1"
  | vp9 => some "vp9"
  | av1 => some "av1"
  | _ => none

end VideoFormat

inductive AudioFormat where
  | aac
  | ac3
  | copy
deriving DecidableEq

namespace AudioFormat

def all : List AudioFormat := [aac, ac3, copy]

def text : AudioFormat → String
  | aac => "aac"
  | ac3 => "ac3"
  | copy => "copy"

/-- The format of a codec name, in any case of its ASCII letters. -/
def ofCodec? (codec : String) : Option AudioFormat :=
  let name := codec.map Char.toLower
  all.find? fun f => f.text = name

end AudioFormat

end Playout
