import Playout.Number.Binary64

/-!
# JSON values

A value as it is written: fields in their order and as often as they stand there, numbers that
are too large and texts with half a surrogate pair among them.  `settle?` gives the value that a
reader without such remains would hold.
-/

namespace Playout

/-- A number: whole within 64 bits, or binary64, or too large for either. -/
inductive JsonNumber where
  | whole (n : Int)
  | real (x : Float)
  | tooLarge

/-- A text is missing where half a surrogate pair stands in it. -/
inductive Json where
  | null
  | bool (b : Bool)
  | number (n : JsonNumber)
  | text (s : Option String)
  | array (items : List Json)
  | object (fields : List (Option String × Json))

namespace Json

def str (s : String) : Json := text (some s)

def nat (n : Nat) : Json := number (.whole n)

def int (n : Int) : Json := number (.whole n)

/-- An object with fields that are all well-formed. -/
def ofFields (fields : List (String × Json)) : Json :=
  object (fields.map fun (k, v) => (some k, v))

def ofOption (f : α → Json) : Option α → Json
  | some a => f a
  | none => null

/-- The fields with the last value of each key, in the order of first occurrence. -/
def lastFields (fields : List (Option String × Json)) : List (Option String × Json) :=
  fields.foldl put []
where
  put (kept : List (Option String × Json)) (field : Option String × Json) :
      List (Option String × Json) :=
    if kept.any fun f => f.1 == field.1 then
      kept.map fun f => if f.1 == field.1 then field else f
    else kept ++ [field]

/-- The value with one field of each key, the last one; nothing if it holds a number that is too
large or a text that is missing, or if containers nest deeper than `depth`. -/
def settle? (depth : Nat) (j : Json) : Option Json :=
  match depth, j with
  | _, null => some null
  | _, bool b => some (bool b)
  | _, number .tooLarge => none
  | _, number n => some (number n)
  | _, text s => s.map str
  | 0, array _ => none
  | 0, object _ => none
  | d + 1, array items => (items.mapM (settle? d)).map array
  | d + 1, object fields =>
    (fields.mapM fun (field : Option String × Json) =>
      match field.1 with
      | some key => (settle? d field.2).map fun v => (some key, v)
      | none => none).map fun fields => object (lastFields fields)

/-- Containers nest at most this deep. -/
def depthLimit : Nat := 127

def settled? (j : Json) : Option Json := j.settle? depthLimit

end Json

end Playout
