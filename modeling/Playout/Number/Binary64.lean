/-!
# Rounding with binary64 numbers

A finite number of the format is a natural number times a power of two; it is read off the bits
here, and every rounding is done on natural numbers.
-/

namespace Playout

/-- The nearest natural number to `num / den`, a half going to the even one. -/
def roundHalfEven (num den : Nat) : Nat :=
  let q := num / den
  let r := num % den
  if 2 * r < den ∨ (2 * r = den ∧ q % 2 = 0) then q else q + 1

theorem roundHalfEven_of_dvd {num den : Nat} (hden : 0 < den) (h : num % den = 0) :
    roundHalfEven num den = num / den := by
  simp [roundHalfEven, h, hden]

/-- The size of a number, sign aside. -/
inductive Magnitude where
  /-- The value `mantissa * 2 ^ exponent`. -/
  | finite (mantissa : Nat) (exponent : Int)
  | infinite
  | notANumber

namespace Magnitude

def ofBits (bits : Nat) : Magnitude :=
  let fraction := bits % (1 <<< 52)
  let field : Nat := (bits >>> 52) % (1 <<< 11)
  if field = 0x7ff then
    if fraction = 0 then .infinite else .notANumber
  else if field = 0 then .finite fraction (-1074)
  else .finite ((1 <<< 52) + fraction) ((field : Int) - 1075)

end Magnitude

namespace Binary64

def isNegative (x : Float) : Bool := (x.toBits.toNat >>> 63) % 2 == 1

def magnitude (x : Float) : Magnitude := .ofBits x.toBits.toNat

/-- `m * 2 ^ e` as a quotient of natural numbers. -/
def ratio (m : Nat) (e : Int) : Nat × Nat :=
  if 0 ≤ e then (m <<< e.toNat, 1) else (m, 1 <<< (-e).toNat)

theorem ratio_den_pos (m : Nat) (e : Int) : 0 < (ratio m e).2 := by
  unfold ratio
  split
  · exact Nat.one_pos
  · rw [Nat.one_shiftLeft]
    exact Nat.two_pow_pos _

/-- The exponent `e` with `2 ^ e ≤ num / den < 2 ^ (e + 1)`, for positive `num` and `den`. -/
def binaryOrder (num den : Nat) : Int :=
  let e : Int := num.log2 - den.log2
  let below := if 0 ≤ e then num < den <<< e.toNat else num <<< (-e).toNat < den
  if below then e - 1 else e

/-- The bits of the number nearest to `num / den`, a half going to the even one; a quotient past
the greatest number is infinite. -/
def bitsOfRatio (num den : Nat) : Nat :=
  if num = 0 then 0
  else
    let unit := max (binaryOrder num den - 52) (-1074)
    let steps :=
      if 0 ≤ unit then roundHalfEven num (den <<< unit.toNat)
      else roundHalfEven (num <<< (-unit).toNat) den
    min (((unit + 1074).toNat <<< 52) + steps) (0x7ff <<< 52)

/-- The number nearest to `num / den`, with a sign. -/
def ofRatio (negative : Bool) (num den : Nat) : Float :=
  Float.ofBits (UInt64.ofNat (bitsOfRatio num den + if negative then 1 <<< 63 else 0))

/-- The nearest whole number, halves away from zero, kept within 32 bits: a negative number and
one that is not a number give zero. -/
def roundToUInt32 (x : Float) : UInt32 :=
  match magnitude x with
  | .notANumber => 0
  | .infinite => if isNegative x then 0 else UInt32.ofNat (UInt32.size - 1)
  | .finite m e =>
    if isNegative x then 0
    else
      let (num, den) := ratio m e
      UInt32.ofNat (min ((2 * num + den) / (2 * den)) (UInt32.size - 1))

end Binary64

end Playout
