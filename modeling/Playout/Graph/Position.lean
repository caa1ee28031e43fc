import Playout.Failure
import Playout.Filter.Call
import Playout.Item.Request

/-!
# Places of a watermark

A margin is a percentage of a side, rounded to whole pixels; beside an edge of the content it
counts from there.
-/

namespace Playout

/-- Pixels to the left of the content and above it. -/
structure Offset where
  x : Nat
  y : Nat
deriving DecidableEq

/-- A percentage of a side in whole pixels. -/
def percentOf (percent : Float) (side : UInt32) : UInt32 :=
  Binary64.roundToUInt32 (percent / 100 * side.toFloat)

/-- A margin with the offset beside it, within 32 bits. -/
def marginWith (margin : UInt32) (offset : Nat) : Except Failure Nat :=
  if margin.toNat + offset < UInt32.size then .ok (margin.toNat + offset)
  else .error (.fault .marginTooLarge)

namespace Anchor

/-- Both margins are checked, also those that the place does not use. -/
def position (a : Anchor) (frame : Size) (horizontal vertical : Float) (offset : Offset) :
    Except Failure (List Argument) := do
  let x ← marginWith (percentOf horizontal frame.width) offset.x
  let y ← marginWith (percentOf vertical frame.height) offset.y
  let left := keyedNat "x" x
  let center := keyed "x" "(W-w)/2"
  let right := keyed "x" ("W-w-" ++ toString x)
  let top := keyedNat "y" y
  let middle := keyed "y" "(H-h)/2"
  let bottom := keyed "y" ("H-h-" ++ toString y)
  return match a with
    | topLeft => [left, top]
    | topMiddle => [center, top]
    | topRight => [right, top]
    | leftMiddle => [left, middle]
    | middleCenter => [center, middle]
    | rightMiddle => [right, middle]
    | bottomLeft => [left, bottom]
    | bottomMiddle => [center, bottom]
    | bottomRight => [right, bottom]

end Anchor

end Playout
