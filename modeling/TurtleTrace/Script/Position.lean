import TurtleTrace.Text.Basic

/-!
# Positions

A line and a column, both counted from one, and how reading a text moves them on.
-/

namespace TurtleTrace

set_option autoImplicit false

structure Position where
  line : Int
  column : Int
  deriving DecidableEq, Repr

namespace Position

def after (p : Position) (c : Char) : Position :=
  if c = '\n' then ⟨p.line + 1, 1⟩ else ⟨p.line, p.column + 1⟩

def afterText (p : Position) (t : Text) : Position := t.foldl after p

theorem afterText_append (p : Position) (s t : Text) :
    p.afterText (s ++ t) = (p.afterText s).afterText t := List.foldl_append

theorem line_afterText (p : Position) (t : Text) :
    (p.afterText t).line = p.line + t.newlines := by
  induction t generalizing p with
  | nil => simp [afterText, Text.newlines]
  | cons c t ih =>
    have h := ih (p.after c)
    simp only [afterText, List.foldl_cons] at h ⊢
    rw [h]
    by_cases hc : c = '\n'
    · simp [after, hc, Text.newlines]; omega
    · simp [after, hc, Text.newlines]

end Position

end TurtleTrace
