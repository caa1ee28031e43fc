import Playout.Json.Value
import Playout.Text.Whole

/-!
# Reading JSON

The grammar of RFC 8259 over the characters of a text.  A whole number of 64 bits stays whole.
Any other number is a significand of up to 64 bits, further digits dropped, that is multiplied or
divided by a power of ten in binary64 arithmetic; so the last bit may differ from that of the
nearest number.
-/

namespace Playout

namespace Json

def isSpace (c : Char) : Bool := c == ' ' || c == '\n' || c == '\t' || c == '\r'

def skipSpace (cs : List Char) : List Char := cs.dropWhile isSpace

/-! ## Texts -/

def hexValue? (c : Char) : Option Nat :=
  let n := c.toNat
  if 0x30 ≤ n ∧ n ≤ 0x39 then some (n - 0x30)
  else if 0x61 ≤ n ∧ n ≤ 0x66 then some (n - 0x57)
  else if 0x41 ≤ n ∧ n ≤ 0x46 then some (n - 0x37)
  else none

/-- The character that a single letter after a backslash stands for. -/
def escaped? (c : Char) : Option Char :=
  match c with
  | '\x22' => some '\x22'
  | '\x5c' => some '\x5c'
  | '/' => some '/'
  | 'b' => some '\x08'
  | 'f' => some '\x0c'
  | 'n' => some '\n'
  | 'r' => some '\r'
  | 't' => some '\t'
  | _ => none

/-- The units up to the closing quote, an escape of four digits being one unit. -/
def readUnits : List Char → Option (List Nat × List Char)
  | [] => none
  | '\x22' :: rest => some ([], rest)
  | '\x5c' :: 'u' :: a :: b :: c :: d :: rest => do
    let unit := (← hexValue? a) * 4096 + (← hexValue? b) * 256 + (← hexValue? c) * 16
      + (← hexValue? d)
    let (units, rest) ← readUnits rest
    return (unit :: units, rest)
  | '\x5c' :: c :: rest => do
    let c ← escaped? c
    let (units, rest) ← readUnits rest
    return (c.toNat :: units, rest)
  | c :: rest =>
    if c.toNat < 0x20 ∨ c = '\x5c' then none
    else do
      let (units, rest) ← readUnits rest
      return (c.toNat :: units, rest)

def isLead (n : Nat) : Bool := 0xd800 ≤ n && n < 0xdc00

def isTrail (n : Nat) : Bool := 0xdc00 ≤ n && n < 0xe000

/-- The characters of units whose surrogates stand in pairs. -/
def joinUnits : List Nat → Option (List Char)
  | [] => some []
  | [n] => if isLead n || isTrail n then none else some [Char.ofNat n]
  | n :: m :: rest =>
    if isLead n then
      if isTrail m then
        (joinUnits rest).map (Char.ofNat (0x10000 + (n - 0xd800) * 0x400 + (m - 0xdc00)) :: ·)
      else none
    else if isTrail n then none
    else (joinUnits (m :: rest)).map (Char.ofNat n :: ·)

/-- The text after an opening quote. -/
def readQuoted (cs : List Char) : Option (Option String × List Char) :=
  (readUnits cs).map fun (units, rest) => ((joinUnits units).map String.ofList, rest)

/-! ## Numbers -/

/-- The digits taken while the significand stays within 64 bits: the significand, how many were
taken and how many were left. -/
def absorb (significand : Nat) : List Nat → Nat × Nat × Nat
  | [] => (significand, 0, 0)
  | d :: ds =>
    if significand * 10 + d < UInt64.size then
      let (s, taken, left) := absorb (significand * 10 + d) ds
      (s, taken + 1, left)
    else (significand, 0, ds.length + 1)

def tenPower (k : Nat) : Float := Binary64.ofRatio false (Nat.pow 10 k) 1

/-- A value divided by powers of ten down to an exponent of at least -308. -/
def divideDown (x : Float) : Nat → Float
  | 0 => x
  | k + 1 =>
    if k + 1 ≤ 308 then x / tenPower (k + 1)
    else if x == 0 then x
    else divideDown (x / tenPower 308) (k + 1 - 308)
termination_by k => k
decreasing_by omega

/-- `significand * 10 ^ exponent` in binary64 arithmetic. -/
def scaled (negative : Bool) (significand : Nat) (exponent : Int) : JsonNumber :=
  let x := (UInt64.ofNat significand).toFloat
  let signed (x : Float) := JsonNumber.real (if negative then -x else x)
  if 0 ≤ exponent then
    if significand = 0 then signed x
    else if 308 < exponent then .tooLarge
    else
      let y := x * tenPower exponent.toNat
      if y.isInf then .tooLarge else signed y
  else signed (divideDown x (-exponent).toNat)

/-- The number of its digits before and after the point and its exponent, each part that is
missing being `none`. -/
def numberOf (negative : Bool) (whole : List Nat) (places : Option (List Nat))
    (exponent : Option Int) : JsonNumber :=
  let (significand, _, left) := absorb 0 whole
  let (significand, taken, _) := absorb significand (places.getD [])
  if places.isNone && exponent.isNone && left = 0 then
    if !negative then .whole significand
    else if significand = 0 ∨ UInt64.size / 2 < significand then
      .real (-(UInt64.ofNat significand).toFloat)
    else .whole (-(significand : Int))
  else
    let exponent := exponent.getD 0
    if UInt32.size / 2 ≤ exponent.natAbs then
      if significand ≠ 0 ∧ 0 < exponent then .tooLarge
      else .real (if negative then -0.0 else 0.0)
    else scaled negative significand (left - taken + exponent)

/-- The digits after an exponent's letter and sign. -/
def readExponent (cs : List Char) : Option (Int × List Char) :=
  let (negative, body) := match cs with
    | '+' :: r => (false, r)
    | '-' :: r => (true, r)
    | _ => (false, cs)
  match takeDigits body with
  | ([], _) => none
  | (ds, rest) => some (if negative then -(ofDigits ds : Int) else ofDigits ds, rest)

def readPlaces (cs : List Char) : Option (Option (List Nat) × List Char) :=
  match cs with
  | '.' :: r =>
    match takeDigits r with
    | ([], _) => none
    | (ds, rest) => some (some ds, rest)
  | _ => some (none, cs)

def readNumber (cs : List Char) : Option (JsonNumber × List Char) := do
  let (negative, body) := match cs with
    | '-' :: r => (true, r)
    | _ => (false, cs)
  let (whole, rest) ← match takeDigits body with
    | ([], _) => none
    | (0 :: _ :: _, _) => none
    | (ds, rest) => some (ds, rest)
  let (places, rest) ← readPlaces rest
  match rest with
  | c :: r =>
    if c = 'e' ∨ c = 'E' then
      let (exponent, rest) ← readExponent r
      return (numberOf negative whole places (some exponent), rest)
    else return (numberOf negative whole places none, rest)
  | [] => return (numberOf negative whole places none, rest)

/-! ## Values -/

def expect (c : Char) (cs : List Char) : Option (List Char) :=
  match skipSpace cs with
  | d :: rest => if c = d then some rest else none
  | [] => none

mutual

/-- A value at the start of a text.  Every call but the one for a container's first item takes a
character away, so twice the length of the text is fuel enough. -/
def readValue : Nat → List Char → Option (Json × List Char)
  | 0, _ => none
  | n + 1, cs =>
    match skipSpace cs with
    | 'n' :: 'u' :: 'l' :: 'l' :: rest => some (null, rest)
    | 't' :: 'r' :: 'u' :: 'e' :: rest => some (bool true, rest)
    | 'f' :: 'a' :: 'l' :: 's' :: 'e' :: rest => some (bool false, rest)
    | '\x22' :: rest => (readQuoted rest).map fun (s, rest) => (text s, rest)
    | '[' :: rest =>
      match skipSpace rest with
      | ']' :: rest => some (array [], rest)
      | rest => (readItems n rest).map fun (items, rest) => (array items, rest)
    | '\x7b' :: rest =>
      match skipSpace rest with
      | '\x7d' :: rest => some (object [], rest)
      | rest => (readFields n rest).map fun (fields, rest) => (object fields, rest)
    | cs => (readNumber cs).map fun (x, rest) => (number x, rest)

/-- Items up to the closing bracket. -/
def readItems : Nat → List Char → Option (List Json × List Char)
  | 0, _ => none
  | n + 1, cs => do
    let (item, rest) ← readValue n cs
    match skipSpace rest with
    | ',' :: rest =>
      let (items, rest) ← readItems n rest
      return (item :: items, rest)
    | ']' :: rest => return ([item], rest)
    | _ => none

/-- Fields up to the closing brace. -/
def readFields : Nat → List Char → Option (List (Option String × Json) × List Char)
  | 0, _ => none
  | n + 1, cs => do
    let rest ← expect '\x22' cs
    let (key, rest) ← readQuoted rest
    let rest ← expect ':' rest
    let (value, rest) ← readValue n rest
    match skipSpace rest with
    | ',' :: rest =>
      let (fields, rest) ← readFields n rest
      return ((key, value) :: fields, rest)
    | '\x7d' :: rest => return ([(key, value)], rest)
    | _ => none

end

/-- The one value of a text, with nothing but space around it. -/
def parse? (s : String) : Option Json :=
  let cs := s.toList
  match readValue (2 * cs.length + 2) cs with
  | some (j, rest) => if (skipSpace rest).isEmpty then some j else none
  | none => none

end Json

end Playout
