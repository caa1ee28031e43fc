import Playout.Number.Binary64
import Playout.Text.Whole

/-!
# Decimal text of binary64 numbers

The shortest decimal that reads back as the same number, the two ways in which it is written, and
reading a decimal as the nearest number.
-/

namespace Playout

/-- The value `digits * 10 ^ exponent`. -/
structure Decimal where
  digits : Nat
  exponent : Int
deriving DecidableEq

namespace Decimal

/-- The same value with no zero at the end of its digits. -/
def normalize (d : Decimal) : Decimal := go (Nat.toDigits 10 d.digits).length d
where
  go : Nat → Decimal → Decimal
    | 0, d => d
    | n + 1, d =>
      if d.digits ≠ 0 ∧ d.digits % 10 = 0 then go n ⟨d.digits / 10, d.exponent + 1⟩ else d

/-- The power of ten of the first digit of `num / den`, for positive `num` and `den`. -/
def order (num den : Nat) : Int :=
  if den ≤ num then (Nat.toDigits 10 (num / den)).length - 1 else go 400 1 num
where
  go : Nat → Int → Nat → Int
    | 0, k, _ => -k
    | fuel + 1, k, num => if den ≤ 10 * num then -k else go fuel (k + 1) (10 * num)

/-- The numbers of the interval `[low, high] / den`, or of its interior. -/
structure Interval where
  low : Nat
  high : Nat
  den : Nat
  closed : Bool

def Interval.contains (i : Interval) (num den : Nat) : Bool :=
  if i.closed then i.low * den ≤ num * i.den && num * i.den ≤ i.high * den
  else i.low * den < num * i.den && num * i.den < i.high * den

/-- The grid of multiples of `10 ^ exponent` next to `num / den`: the multiple that lies in the
interval, the nearer one if both neighbours do, and the upper one if they are equally near. -/
def onGrid? (i : Interval) (num den : Nat) (exponent : Int) : Option Decimal :=
  let up := Nat.pow 10 exponent.toNat
  let down := Nat.pow 10 (-exponent).toNat
  let below := num * down / (den * up)
  let rest := num * down % (den * up)
  let lower := i.contains (below * up) down
  let upper := i.contains ((below + 1) * up) down
  if lower && (!upper || 2 * rest < den * up) then some ⟨below, exponent⟩
  else if upper then some ⟨below + 1, exponent⟩
  else none

/-- The decimal with the fewest digits among those nearest to the finite number `m * 2 ^ e`, and
the nearest of these. -/
def shortest (m : Nat) (e : Int) : Decimal :=
  if m = 0 then ⟨0, 0⟩
  else
    let (num, den) := Binary64.ratio (4 * m) (e - 2)
    let quarter := 1 <<< (e - 2).toNat
    let gapBelow := if m = 1 <<< 52 ∧ -1074 < e then quarter else 2 * quarter
    let i : Interval := ⟨num - gapBelow, num + 2 * quarter, den, m % 2 == 0⟩
    let top := order num den
    match (List.range 17).findSome? fun (n : Nat) => onGrid? i num den (top - n) with
    | some d => d.normalize
    | none => ⟨num / den, 0⟩

/-- All digits, with a point among them where the value has places, and no exponent. -/
def positional (d : Decimal) : String :=
  let ds := Nat.toDigits 10 d.digits
  if 0 ≤ d.exponent then
    String.ofList (ds ++ List.replicate (if d.digits = 0 then 0 else d.exponent.toNat) '0')
  else
    let places := (-d.exponent).toNat
    let ds := List.replicate (places + 1 - ds.length) '0' ++ ds
    String.ofList (ds.take (ds.length - places) ++ '.' :: ds.drop (ds.length - places))

/-- One digit, the other digits after a point, and the exponent after an `e`. -/
def scientific (d : Decimal) : String :=
  match Nat.toDigits 10 d.digits with
  | [] => "0"
  | [c] => String.singleton c ++ "e" ++ toString d.exponent
  | c :: r => String.ofList (c :: '.' :: r) ++ "e" ++ toString (d.exponent + r.length)

/-- The reading of a decimal text: an optional sign, then `inf`, `infinity` or `nan` in either
case, or digits with an optional point and an optional exponent, with a digit before or after the
point. -/
def parseFloat? (cs : List Char) : Option Float :=
  let (negative, body) := match cs with
    | '+' :: r => (false, r)
    | '-' :: r => (true, r)
    | _ => (false, cs)
  let word := String.ofList (body.map Char.toLower)
  if word = "inf" ∨ word = "infinity" then some (if negative then -infinity else infinity)
  else if word = "nan" then some (infinity - infinity)
  else
    let (whole, rest) := takeDigits body
    let (places, rest) := match rest with
      | '.' :: r => takeDigits r
      | _ => ([], rest)
    if whole.isEmpty && places.isEmpty then none
    else (exponent? rest).map fun e => value negative (whole ++ places) (e - places.length)
where
  infinity : Float := Float.ofBits 0x7ff0000000000000
  /-- What may follow the digits: nothing, or an exponent. -/
  exponent? : List Char → Option Int
    | [] => some 0
    | c :: r =>
      if c = 'e' ∨ c = 'E' then
        let (negative, body) := match r with
          | '+' :: r => (false, r)
          | '-' :: r => (true, r)
          | _ => (false, r)
        (parseDigits? body).map fun n => if negative then -(n : Int) else n
      else none
  /-- Past 310 and below -400 digits from the point no exponent matters any more. -/
  value (negative : Bool) (digits : List Nat) (exponent : Int) : Float :=
    let n := ofDigits digits
    if n = 0 then Binary64.ofRatio negative 0 1
    else
      let first := exponent + (Nat.toDigits 10 n).length
      if 310 < first then (if negative then -infinity else infinity)
      else if first < -400 then Binary64.ofRatio negative 0 1
      else if 0 ≤ exponent then Binary64.ofRatio negative (n * Nat.pow 10 exponent.toNat) 1
      else Binary64.ofRatio negative n (Nat.pow 10 (-exponent).toNat)

end Decimal

end Playout
