import Playout.Json.Value
import Playout.Number.Decimal

/-!
# Writing JSON

On one line, or with each item on a line of its own behind two blanks a level.
-/

namespace Playout

namespace Json

def hexDigit (n : Nat) : Char := (Nat.digitChar n)

/-- The characters that a character is written as inside quotes. -/
def quotedChar (c : Char) : List Char :=
  if c = '\x22' ∨ c = '\x5c' then ['\x5c', c]
  else if c = '\n' then ['\x5c', 'n']
  else if c = '\r' then ['\x5c', 'r']
  else if c = '\t' then ['\x5c', 't']
  else if c.toNat = 0x08 then ['\x5c', 'b']
  else if c.toNat = 0x0c then ['\x5c', 'f']
  else if c.toNat < 0x20 then
    ['\x5c', 'u', '0', '0', hexDigit (c.toNat / 16), hexDigit (c.toNat % 16)]
  else [c]

def quoted (s : String) : String :=
  "\x22" ++ String.ofList (s.toList.flatMap quotedChar) ++ "\x22"

/-- A number with its point from `1e-5` up to below `1e16`, and with an exponent elsewhere. -/
def realText (x : Float) : String :=
  match Binary64.magnitude x with
  | .finite m e =>
    let d := Decimal.shortest m e
    let first := d.exponent + (Nat.toDigits 10 d.digits).length
    let body :=
      if d.digits = 0 then "0.0"
      else if -5 < first ∧ first ≤ 16 then
        if 0 ≤ d.exponent then d.positional ++ ".0" else d.positional
      else d.scientific
    (if Binary64.isNegative x then "-" else "") ++ body
  | _ => "null"

def numberText : JsonNumber → String
  | .whole n => toString n
  | .real x => realText x
  | .tooLarge => "null"

/-- What stands between the items of a container at a depth. -/
structure Layout where
  /-- Before an item at this depth, and before the closing bracket one less deep. -/
  newline : Nat → String
  colon : String

def Layout.compact : Layout where
  newline _ := ""
  colon := ":"

def Layout.pretty : Layout where
  newline depth := "\n" ++ String.ofList (List.replicate (2 * depth) ' ')
  colon := ": "

def enclose (l : Layout) (depth : Nat) (first last : String) (items : List String) : String :=
  if items.isEmpty then first ++ last
  else first ++ ",".intercalate (items.map fun i => l.newline (depth + 1) ++ i)
    ++ l.newline depth ++ last

mutual

def render (l : Layout) (depth : Nat) : Json → String
  | null => "null"
  | bool b => if b then "true" else "false"
  | number n => numberText n
  | text s => quoted (s.getD "")
  | array items => enclose l depth "[" "]" (renderItems l (depth + 1) items)
  | object fields => enclose l depth "\x7b" "\x7d" (renderFields l (depth + 1) fields)

def renderItems (l : Layout) (depth : Nat) : List Json → List String
  | [] => []
  | j :: rest => render l depth j :: renderItems l depth rest

def renderFields (l : Layout) (depth : Nat) : List (Option String × Json) → List String
  | [] => []
  | (k, v) :: rest =>
    (quoted (k.getD "") ++ l.colon ++ render l depth v) :: renderFields l depth rest

end

def compact (j : Json) : String := render .compact 0 j

def pretty (j : Json) : String := render .pretty 0 j

end Json

end Playout
