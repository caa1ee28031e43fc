/-!
# Filter calls

The text of a filter graph is made of calls: a filter's name with its arguments, divided by
colons.  Calls that run one after the other are divided by commas.
-/

namespace Playout

/-- One argument of a filter, with its key or by its place. -/
structure Argument where
  key : Option String
  value : String
deriving DecidableEq

namespace Argument

def text (a : Argument) : String :=
  match a.key with
  | some k => k ++ "=" ++ a.value
  | none => a.value

end Argument

/-- An argument by its place. -/
def place (value : String) : Argument := ⟨none, value⟩

/-- An argument with a key. -/
def keyed (key value : String) : Argument := ⟨some key, value⟩

def placeNat (n : Nat) : Argument := place (toString n)

def keyedNat (key : String) (n : Nat) : Argument := keyed key (toString n)

structure Call where
  name : String
  arguments : List Argument := []
deriving DecidableEq

namespace Call

def text (c : Call) : String :=
  match c.arguments with
  | [] => c.name
  | args => c.name ++ "=" ++ ":".intercalate (args.map Argument.text)

/-- The text of calls that run one after the other. -/
def chainText (calls : List Call) : String := ",".intercalate (calls.map text)

end Call

end Playout
