/-!
# Escaped values

A value inside a filter's arguments has a backslash before each character that would divide or
quote.  `splitUnescaped` takes one level of backslashes away again and cuts at the separators that
stand without one.
-/

namespace Playout

def isSpecial (c : Char) : Bool :=
  c == '\x5c' || c == ':' || c == '\x27' || c == ',' || c == ';' || c == '[' || c == ']'

def escapeChars (cs : List Char) : List Char :=
  cs.flatMap fun c => if isSpecial c then ['\x5c', c] else [c]

def escape (s : String) : String := String.ofList (escapeChars s.toList)

theorem escapeChars_cons_of_special {c : Char} (hc : isSpecial c = true) (r : List Char) :
    escapeChars (c :: r) = '\x5c' :: c :: escapeChars r := by
  simp [escapeChars, hc]

theorem escapeChars_cons {c : Char} (hc : isSpecial c = false) (r : List Char) :
    escapeChars (c :: r) = c :: escapeChars r := by
  simp [escapeChars, hc]

/-- A character of a text with its backslash, if it has one. -/
structure Marked where
  char : Char
  escaped : Bool
deriving DecidableEq

/-- The characters of a text, each that follows a backslash marked; a backslash at the very end
stands for itself. -/
def markEscapes : List Char → List Marked
  | [] => []
  | [c] => [⟨c, false⟩]
  | c :: d :: r =>
    if c = '\x5c' then ⟨d, true⟩ :: markEscapes r else ⟨c, false⟩ :: markEscapes (d :: r)

/-- The pieces between the separators that stand without a backslash. -/
def splitMarked (sep : Char) : List Marked → List (List Marked)
  | [] => [[]]
  | m :: r =>
    if m.char = sep ∧ m.escaped = false then [] :: splitMarked sep r
    else match splitMarked sep r with
      | [] => [[m]]
      | piece :: rest => (m :: piece) :: rest

/-- Reading an escaped text marks exactly the special characters. -/
theorem markEscapes_escapeChars (cs : List Char) :
    markEscapes (escapeChars cs) = cs.map fun c => ⟨c, isSpecial c⟩ := by
  induction cs with
  | nil => rfl
  | cons c r ih =>
    cases hc : isSpecial c with
    | true =>
      rw [escapeChars_cons_of_special hc, markEscapes, if_pos rfl, ih, List.map_cons, hc]
    | false =>
      have hne : c ≠ '\x5c' := by
        rintro rfl
        cases hc
      rw [escapeChars_cons hc, List.map_cons, ← ih, hc]
      cases escapeChars r with
      | nil => rfl
      | cons d t => rw [markEscapes, if_neg hne]

def plainText (ms : List Marked) : String := String.ofList (ms.map Marked.char)

/-- The fields of a text at the separators that stand without a backslash, one level of
backslashes taken away. -/
def splitUnescaped (sep : Char) (s : String) : List String :=
  (splitMarked sep (markEscapes s.toList)).map plainText

end Playout
