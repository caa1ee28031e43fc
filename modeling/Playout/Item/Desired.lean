import Playout.Item.Settings
import Playout.Item.Target

/-!
# The desired state

The state of the frames that a target asks for.  The size of the picture in it is found by fitting
the source's square picture into the resolution, or by covering the resolution with it; sides that
are computed are even.
-/

namespace Playout

/-- The greatest even number up to `n`, but at least 2, kept to 32 bits. -/
def evenDown (n : Nat) : UInt32 := UInt32.ofNat (max (n - n % 2) 2)

/-- The least even number from `n` on, kept to 32 bits. -/
def evenUp (n : Nat) : UInt32 := UInt32.ofNat (n + n % 2)

namespace Size

/-- The largest size with even computed side and the proportions of `source` inside `target`. -/
def fitWithin (source target : Size) : Size :=
  let sw := source.width.toNat
  let sh := source.height.toNat
  let tw := target.width.toNat
  let th := target.height.toNat
  if sw * th ≤ tw * sh then ⟨evenDown (sw * th / sh), target.height⟩
  else ⟨target.width, evenDown (sh * tw / sw)⟩

/-- The smallest size with even computed side and the proportions of `source` around `target`. -/
def cover (source target : Size) : Size :=
  let sw := source.width.toNat
  let sh := source.height.toNat
  let tw := target.width.toNat
  let th := target.height.toNat
  if tw * sh ≤ sw * th then ⟨evenUp ((sw * th + sh - 1) / sh), target.height⟩
  else ⟨target.width, evenUp ((sh * tw + sw - 1) / sw)⟩

end Size

/-- The size a picture is scaled to, and the size it is cut to. -/
def Scaling.sizes (s : Scaling) (picture resolution : Size) : Size × Option Size :=
  if picture.isEmpty then (resolution, none)
  else match s with
    | .scaleAndPad => (picture.fitWithin resolution, none)
    | .stretch => (resolution, none)
    | .crop => (picture.cover resolution, some resolution)

namespace Target

/-- The state the target asks for, whether or not the target is valid. -/
def frame (t : Target) (source : VideoStream) (settings : Settings) : Frame where
  realtime := settings.realtime
  infiniteLoop := settings.infiniteLoop
  videoFormat := t.videoFormat
  pixelFormat := some t.pixelFormat
  memory := .software
  scaledSize := (t.scaling.sizes source.squareSize t.resolution).1
  paddedSize := t.resolution
  croppedSize := (t.scaling.sizes source.squareSize t.resolution).2
  anamorphic := false
  deinterlaced := t.deinterlace && source.interlaced
  hdr := false
  frameRate := t.frameRate
  videoBitrate := t.videoBitrate
  videoBufferSize := t.videoBufferSize
  audioFormat := t.audio.audioFormat
  accelerator := t.accelerator
  container := some settings.container
  hlsPlaylist := settings.hls.map HlsSettings.playlist
  hlsSegments := settings.hls.map HlsSettings.segments

def desired (t : Target) (source : VideoStream) (settings : Settings) : Except Failure Frame :=
  match t.problem? with
  | some p => .error (.invalidTarget p)
  | none => .ok (t.frame source settings)

end Target

end Playout
