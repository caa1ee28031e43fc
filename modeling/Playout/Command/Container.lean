import Playout.Failure

/-!
# Containers

What the output is packed into and where it goes: a pipe, the segments of a live playlist, or a
file.
-/

namespace Playout

structure HlsOutput where
  playlist : String
  segments : String
  segmentSeconds : UInt32
  frameRate : UInt32
deriving DecidableEq

namespace HlsOutput

/-- The frames of one segment, if their number fits in 32 bits. -/
def segmentFrames (h : HlsOutput) : Except Failure Nat :=
  if h.frameRate.toNat * h.segmentSeconds.toNat < UInt32.size then
    .ok (h.frameRate.toNat * h.segmentSeconds.toNat)
  else .error (.fault .segmentTooLong)

def arguments (h : HlsOutput) (frames : Nat) : List String :=
  let seconds := toString h.segmentSeconds.toNat
  ["-g", toString frames,
    "-keyint_min", toString frames,
    "-force_key_frames", "expr:gte(t,n_forced*" ++ seconds ++ ")",
    "-f", "hls",
    "-hls_time", seconds,
    "-hls_list_size", "0",
    "-segment_list_flags", "+live",
    "-hls_segment_type", "mpegts",
    "-hls_segment_filename", h.segments,
    "-hls_flags", "program_date_time+append_list+omit_endlist+independent_segments",
    h.playlist]

end HlsOutput

inductive Container where
  | mpegts
  | mp4
  | mkv
  | nut
  | hls (output : HlsOutput)
  /-- ffmpeg tells the container from the path. -/
  | file (path : String)
deriving DecidableEq

namespace Container

def kind? : Container → Option ContainerKind
  | mpegts => some .mpegts
  | mp4 => some .mp4
  | mkv => some .mkv
  | nut => some .nut
  | hls _ => some .hls
  | file _ => none

def arguments : Container → Except Failure (List String)
  | mpegts => .ok ["-f", "mpegts", "-mpegts_flags", "+initial_discontinuity", "pipe:1"]
  | mp4 => .ok ["-f", "mp4", "pipe:1"]
  | mkv => .ok ["-f", "matroska", "pipe:1"]
  | nut => .ok ["-f", "nut", "pipe:1"]
  | hls h => h.segmentFrames.map h.arguments
  | file path => .ok [path]

def next (c : Container) (f : Frame) : Frame :=
  match c with
  | hls h =>
    { f with
      container := some .hls
      hlsPlaylist := some h.playlist
      hlsSegments := some h.segments }
  | c => { f with container := c.kind? }

end Container

end Playout
