import Playout.Number.Decimal

/-!
# Durations

A length of time in whole nanoseconds, of less than `2 ^ 64` seconds.  It is written as a clock
time for seeking and limiting, and as a decimal number of seconds inside filters.
-/

namespace Playout

structure Duration where
  nanoseconds : Nat
  lt_limit : nanoseconds < UInt64.size * 1000000000
deriving DecidableEq

namespace Duration

def zero : Duration := ⟨0, by decide⟩

/-- Nanoseconds past a second count as seconds; too many seconds are refused. -/
def ofParts? (seconds nanoseconds : Nat) : Option Duration :=
  if h : seconds * 1000000000 + nanoseconds < UInt64.size * 1000000000 then some ⟨_, h⟩ else none

def seconds (d : Duration) : Nat := d.nanoseconds / 1000000000

def subsecond (d : Duration) : Nat := d.nanoseconds % 1000000000

def milliseconds (d : Duration) : Nat := d.nanoseconds / 1000000

def isZero (d : Duration) : Bool := d.nanoseconds == 0

/-- What is left of `d` after `e`, nothing if `e` is the longer one. -/
def minus (d e : Duration) : Duration :=
  ⟨d.nanoseconds - e.nanoseconds, Nat.lt_of_le_of_lt (Nat.sub_le _ _) d.lt_limit⟩

theorem seconds_lt (d : Duration) : d.seconds < UInt64.size := by
  have := d.lt_limit
  unfold seconds
  omega

/-- Hours, minutes and seconds with two digits or more, then the milliseconds unless they are
zero. -/
def clock (d : Duration) : String :=
  let s := d.seconds
  let millis := d.subsecond / 1000000
  let base := padded 2 (s / 3600) ++ ":" ++ padded 2 (s / 60 % 60) ++ ":" ++ padded 2 (s % 60)
  if millis = 0 then base else base ++ "." ++ padded 3 millis

/-- The sum of the nearest binary64 numbers to the whole seconds and to the rest. -/
def toFloat (d : Duration) : Float :=
  (UInt64.ofNat d.seconds).toFloat + (UInt64.ofNat d.subsecond).toFloat / 1000000000

/-- Seconds as the shortest decimal of `toFloat`. -/
def decimalSeconds (d : Duration) : String :=
  match Binary64.magnitude d.toFloat with
  | .finite m e => (Decimal.shortest m e).positional
  | _ => ""

/-- The nearest number of nanoseconds to a number of seconds that is zero or more, a half going to
the even one; nothing from `2 ^ 64` seconds on. -/
def ofSeconds? (x : Float) : Option Duration :=
  match Binary64.magnitude x with
  | .finite m e =>
    let (num, den) := Binary64.ratio m e
    let n := roundHalfEven (num * 1000000000) den
    if h : n < UInt64.size * 1000000000 then some ⟨n, h⟩ else none
  | _ => none

end Duration

end Playout
