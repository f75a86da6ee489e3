import TurtleTrace.Text.Basic

/-!
# Brackets

The closing bracket that belongs to an opening one, and the parts of a text between separators
outside brackets and parentheses.
-/

namespace TurtleTrace

set_option autoImplicit false

/-- How many characters stand before the closing bracket that brings the depth back to zero. -/
def closingFrom (depth : Int) : Text → Option Nat
  | [] => none
  | c :: rest =>
    if c = '[' then (closingFrom (depth + 1) rest).map (· + 1)
    else if c = ']' then
      if depth = 1 then some 0 else (closingFrom (depth - 1) rest).map (· + 1)
    else (closingFrom depth rest).map (· + 1)

/-- The index of the closing bracket that matches the opening one at a given index. -/
def closingBracket? (t : Text) (opening : Nat) : Option Nat :=
  (closingFrom 0 (t.drop opening)).map (· + opening)

/-- Puts a character in front of the first part. -/
def consFirst (c : Char) : List Text → List Text
  | [] => [[c]]
  | part :: parts => (c :: part) :: parts

/-- The parts of a text between separators at depth zero, from a given depth on. Brackets and
parentheses count alike, and a closing one too many is passed over. -/
def splitTopFrom (separator : Char) (depth : Nat) : Text → List Text
  | [] => [[]]
  | c :: rest =>
    if c = '[' ∨ c = '(' then consFirst c (splitTopFrom separator (depth + 1) rest)
    else if c = ']' ∨ c = ')' then consFirst c (splitTopFrom separator (depth - 1) rest)
    else if c = separator ∧ depth = 0 then [] :: splitTopFrom separator depth rest
    else consFirst c (splitTopFrom separator depth rest)

def splitTopLevel (separator : Char) (t : Text) : List Text := splitTopFrom separator 0 t

end TurtleTrace
