import Playout.Filter.Call
import Playout.Item.Target

/-!
# Audio filters
-/

namespace Playout

inductive AudioFilter where
  | resample
  | loudNorm
  | dynAudNorm
  /-- Silence up to a whole length. -/
  | pad (length : Duration)
deriving DecidableEq

namespace AudioFilter

def call : AudioFilter → Call
  | resample => ⟨"aresample", [keyed "async" "1"]⟩
  | loudNorm => ⟨"loudnorm", [keyed "I" "-16", keyed "TP" "-1.5", keyed "LRA" "11"]⟩
  | dynAudNorm => ⟨"dynaudnorm", [keyed "f" "500", keyed "g" "31"]⟩
  | pad length => ⟨"apad", [keyed "whole_dur" (toString length.milliseconds ++ "ms")]⟩

/-- The filters of a transcoded stream; the resampler always leads. -/
def chain (loudness : Loudness) (padTo : Option Duration) : List AudioFilter :=
  [resample]
  ++ (match loudness with
    | .off => []
    | .loudNorm => [loudNorm]
    | .dynAudNorm => [dynAudNorm])
  ++ (padTo.map pad).toList

end AudioFilter

end Playout
