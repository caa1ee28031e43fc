import Playout.Json.Value

/-!
# Reading records

How values are taken out of JSON.  A record is an object with known fields, each at most once, or
an array of its fields in their order; what is missing may have a default.
-/

namespace Playout

namespace Json

abbrev Read (α : Type) := Json → Option α

/-! ## Single values -/

def readText : Read String
  | .text s => s
  | _ => none

def readBool : Read Bool
  | .bool b => some b
  | _ => none

def readInt (low high : Int) : Read Int
  | .number (.whole n) => if low ≤ n ∧ n ≤ high then some n else none
  | _ => none

def readNat (limit : Nat) : Read Nat := fun j => (readInt 0 (limit - 1) j).map Int.toNat

def readUInt32 : Read UInt32 := fun j => (readNat UInt32.size j).map UInt32.ofNat

def readInt32 : Read Int32 := fun j =>
  (readInt Int32.minValue.toInt Int32.maxValue.toInt j).map Int32.ofInt

/-- A signed number of 64 bits as binary64. -/
def floatOfInt (n : Int) : Float :=
  let x := (UInt64.ofNat n.natAbs).toFloat
  if n < 0 then -x else x

def readFloat : Read Float
  | .number (.whole n) => some (floatOfInt n)
  | .number (.real x) => some x
  | _ => none

/-- `null` stands for nothing. -/
def readOption (read : Read α) : Read (Option α)
  | .null => some none
  | j => (read j).map some

def readList (read : Read α) : Read (List α)
  | .array items => items.mapM read
  | _ => none

def readPair (first : Read α) (second : Read β) : Read (α × β)
  | .array [a, b] => do return (← first a, ← second b)
  | _ => none

/-- A variant by its name alone, or by its name with content. -/
def variant? : Json → Option (String × Option Json)
  | .text (some name) => some (name, none)
  | .object [(some name, content)] => some (name, some content)
  | _ => none

/-- A variant without content is its name, or the name with `null`. -/
def readChoice (choices : List (String × α)) : Read α := fun j => do
  let (name, content) ← variant? j
  match content with
  | none | some .null => (choices.find? fun c => c.1 == name).map Prod.snd
  | _ => none

/-! ## Records -/

structure Record where
  fields : List (String × Json)
  /-- Whether the fields were given by their places. -/
  byPlace : Bool

/-- The fields of an object that are known, each at most once. -/
def knownFields? (names : List String) : List (Option String × Json) → Option (List (String × Json))
  | [] => some []
  | (none, _) :: _ => none
  | (some name, value) :: rest => do
    let known ← knownFields? names rest
    if names.contains name then
      if known.any fun f => f.1 == name then none else some ((name, value) :: known)
    else some known

def record? (names : List String) : Json → Option Record
  | .object fields => (knownFields? names fields).map fun fields => ⟨fields, false⟩
  | .array items =>
    if items.length ≤ names.length then some ⟨names.zip items, true⟩ else none
  | _ => none

/-- A record without fields that are unknown. -/
def exactRecord? (names : List String) (j : Json) : Option Record :=
  match j with
  | .object fields =>
    if fields.all fun f => f.1.any names.contains then record? names j else none
  | _ => record? names j

namespace Record

def find? (r : Record) (name : String) : Option Json :=
  (r.fields.find? fun f => f.1 == name).map Prod.snd

def required (r : Record) (name : String) (read : Read α) : Option α :=
  (r.find? name).bind read

/-- A field that may be `null`, and that an object may leave out. -/
def nullable (r : Record) (name : String) (read : Read α) : Option (Option α) :=
  match r.find? name with
  | some j => readOption read j
  | none => if r.byPlace then none else some none

/-- A field that may be left out. -/
def withDefault (r : Record) (name : String) (default : α) (read : Read α) : Option α :=
  match r.find? name with
  | some j => read j
  | none => some default

/-- A field that may be `null`, and that may be left out altogether. -/
def optional (r : Record) (name : String) (default : Option α) (read : Read α) :
    Option (Option α) :=
  r.withDefault name default (readOption read)

end Record

end Json

end Playout
