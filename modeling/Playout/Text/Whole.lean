/-!
# Whole numbers as text

Reading runs of ASCII digits, and writing with a least number of digits.
-/

namespace Playout

def digitValue? (c : Char) : Option Nat :=
  if 0x30 ≤ c.toNat ∧ c.toNat ≤ 0x39 then some (c.toNat - 0x30) else none

def isDigit (c : Char) : Bool := (digitValue? c).isSome

/-- The values of the leading digits, and what follows them. -/
def takeDigits : List Char → List Nat × List Char
  | [] => ([], [])
  | c :: r =>
    match digitValue? c with
    | some d => let (ds, rest) := takeDigits r; (d :: ds, rest)
    | none => ([], c :: r)

/-- The number that digits write, most significant first. -/
def ofDigits (ds : List Nat) : Nat := ds.foldl (fun n d => 10 * n + d) 0

/-- One or more digits and nothing else. -/
def parseDigits? (cs : List Char) : Option Nat :=
  match takeDigits cs with
  | ([], _) => none
  | (ds, []) => some (ofDigits ds)
  | _ => none

/-- One or more digits after an optional plus sign, and nothing else. -/
def parseWhole? : List Char → Option Nat
  | '+' :: r => parseDigits? r
  | cs => parseDigits? cs

def parseUInt32? (cs : List Char) : Option UInt32 :=
  match parseWhole? cs with
  | some n => if n < UInt32.size then some (UInt32.ofNat n) else none
  | none => none

/-- At least `width` digits, filled up with zeros on the left. -/
def padded (width n : Nat) : String :=
  let ds := Nat.toDigits 10 n
  String.ofList (List.replicate (width - ds.length) '0' ++ ds)

end Playout
