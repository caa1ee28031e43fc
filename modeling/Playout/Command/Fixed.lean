import Playout.Command.Pipeline

/-!
# Fixed pipelines

Two jobs that need no decision: passing an endless playlist on, and shrinking an image.
-/

namespace Playout

/-- Every stream of an endless playlist is copied. -/
def concatPipeline (url : String) (metadata : Metadata) : Pipeline where
  steps := [
    .global .quiet,
    .global .generateTimestamps,
    .output .noMuxDelay,
    .output (.fastStart false),
    .output .closedGop,
    .output (.sceneChange 0),
    .output .copyAll,
    .output (.metadata metadata),
    .container .mpegts]
  inputs := [.withOptions url .concat [.concatFormat, .readrate 0, .infiniteLoop]]
  initial := .ofSource {} true true

/-- An image is scaled down to a height and keeps its proportions. -/
def resizePipeline (source result : String) (height : UInt32) : Pipeline :=
  let stream : VideoStream := { frameSize := ⟨0, height⟩, stillImage := true }
  { steps := [
      .global .quiet,
      .output (.videoFilter (Call.text ⟨"scale", [place "-1", placeNat height.toNat,
        keyed "force_original_aspect_ratio" "decrease"]⟩)),
      .container (.file result)]
    inputs := [.withOptions source (.video stream) []]
    initial := .ofSource stream false false }

end Playout
