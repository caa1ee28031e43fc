import Playout.Frame
import Playout.Media.Duration

/-!
# Settings

How one item of a channel is played, and where the tools find what they need.
-/

namespace Playout

structure HlsSettings where
  playlist : String
  segments : String
deriving DecidableEq

structure Metadata where
  serviceProvider : Option String := none
  serviceName : Option String := none
  audioLanguage : Option String := none
deriving DecidableEq

/-- How one item is played. -/
structure Settings where
  start : Option Duration := none
  finish : Option Duration := none
  realtime : Bool := true
  initialBurst : UInt32 := 0
  infiniteLoop : Bool := false
  container : ContainerKind := .mpegts
  hls : Option HlsSettings := none
  metadata : Metadata := {}
  saveReport : Bool := false
deriving DecidableEq

namespace Settings

/-- The start, unless it is the very beginning. -/
def seek? (s : Settings) : Option Duration := s.start.filter fun d => !d.isZero

/-- What lies between start and finish, if there is anything. -/
def limit? (s : Settings) : Option Duration :=
  (s.finish.map fun finish => finish.minus (s.start.getD .zero)).filter fun d => !d.isZero

end Settings

structure Config where
  ffmpeg : String := "ffmpeg"
  ffprobe : String := "ffprobe"
  reportsFolder : String := "/tmp/channelcast/reports"
  fontsFolder : Option String := none
  /-- The device of VAAPI targets that name none. -/
  vaapiDevice : String := "/dev/dri/renderD128"
  segmentSeconds : UInt32 := 4
deriving DecidableEq

end Playout
