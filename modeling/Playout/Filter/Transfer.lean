import Playout.Filter.Call
import Playout.Frame

/-!
# Moving frames between memories

A move to an accelerator's memory or back to the host's, the calls that make it, and the format
the frames have afterwards.
-/

namespace Playout

inductive Transfer where
  | upload (backend : Backend) (requested : Option PixelFormat)
  /-- From surfaces that carry `source`, and into another format if one is wanted. -/
  | download (source : PixelFormat) (target : Option PixelFormat)
deriving DecidableEq

namespace Transfer

def formatCall (p : PixelFormat) : Call := ⟨"format", [place p.text]⟩

/-- CUDA keeps the layout unless one is requested; QSV and VAAPI surfaces carry nv12 or p010le. -/
def uploadCalls (b : Backend) (requested : Option PixelFormat) : List Call :=
  let surface := (requested.getD .yuv420p).semiPlanar
  match b with
  | .software => []
  | .cuda =>
    match requested with
    | some p => [formatCall p, ⟨"hwupload_cuda", []⟩]
    | none => [⟨"hwupload_cuda", []⟩]
  | .qsv => [formatCall surface, ⟨"hwupload", [keyed "extra_hw_frames" "64"]⟩]
  | .vaapi => [⟨"format", [place (surface.text ++ "|vaapi")]⟩, ⟨"hwupload", []⟩]

def downloadCalls (source : PixelFormat) (target : Option PixelFormat) : List Call :=
  [⟨"hwdownload", []⟩, formatCall source]
  ++ (match target with
    | some t => if t.sameWire source then [] else [formatCall t]
    | none => [])

def calls : Transfer → List Call
  | upload b requested => uploadCalls b requested
  | download source target => downloadCalls source target

/-- The format of frames after an upload. -/
def uploaded (b : Backend) (current requested : Option PixelFormat) : Option PixelFormat :=
  match b with
  | .software => current
  | .cuda => requested.or current
  | .qsv | .vaapi => some ((requested.or current).getD .yuv420p).semiPlanar

/-- An upload by a family without a memory of its own does nothing. -/
def next (t : Transfer) (f : Frame) : Frame :=
  match t with
  | upload b requested =>
    if b.isHardware then
      { f with memory := .hardware, pixelFormat := uploaded b f.pixelFormat requested }
    else f
  | download source target =>
    { f with memory := .software, pixelFormat := some (target.getD source) }

/-- QSV and VAAPI surfaces are told the format they receive. -/
def requestedBy (b : Backend) (f : Frame) : Option PixelFormat :=
  match b with
  | .qsv | .vaapi => f.pixelFormat
  | .software | .cuda => none

/-- The move that brings frames to a memory, if one is needed and can be made. -/
def toward? (b : Backend) (f : Frame) (target : Memory) : Option Transfer :=
  match f.memory, target with
  | .software, .hardware => if b.isHardware then some (upload b (requestedBy b f)) else none
  | .hardware, .software => some (download (f.pixelFormat.getD .nv12) none)
  | _, _ => none

/-- The frames after that move: an upload may change their format, a download does not. -/
def moved (b : Backend) (f : Frame) (target : Memory) : Frame :=
  match toward? b f target with
  | some (upload b requested) => (upload b requested).next f
  | some (download _ _) => { f with memory := .software }
  | none => f

theorem moved_memory_software (b : Backend) (f : Frame) :
    (moved b f .software).memory = .software := by
  unfold moved toward?
  cases h : f.memory <;> simp [h]

theorem moved_memory_of_isHardware {b : Backend} (hb : b.isHardware = true) (f : Frame) :
    (moved b f .hardware).memory = .hardware := by
  unfold moved toward?
  cases h : f.memory <;> simp [h, hb, next]

theorem moved_memory (b : Backend) (f : Frame) : (moved b f b.memory).memory = b.memory := by
  cases hb : b.isHardware
  · have : b.memory = .software := by simp [Backend.memory, hb]
    rw [this]
    exact moved_memory_software b f
  · have : b.memory = .hardware := by simp [Backend.memory, hb]
    rw [this]
    exact moved_memory_of_isHardware hb f

end Transfer

end Playout
