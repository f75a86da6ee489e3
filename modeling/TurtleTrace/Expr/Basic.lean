import TurtleTrace.Text.Basic

/-!
# Arithmetic expressions

The tree of an expression. Operators and functions that the language does not know can stand in a
tree; evaluating one is an error of its own.
-/

namespace TurtleTrace

set_option autoImplicit false

inductive Operator where
  | add
  | sub
  | mul
  | div
  | pow
  | other (sign : Text)
  deriving DecidableEq, Repr

def Operator.sign : Operator → Text
  | add => ['+']
  | sub => ['-']
  | mul => ['*']
  | div => ['/']
  | pow => ['^']
  | other s => s

def Operator.ofSign (s : Text) : Operator :=
  if s = ['+'] then add
  else if s = ['-'] then sub
  else if s = ['*'] then mul
  else if s = ['/'] then div
  else if s = ['^'] then pow
  else other s

inductive Function where
  | sqrt
  | ln
  | exp
  | log10
  | other (name : Text)
  deriving DecidableEq, Repr

def Function.name : Function → Text
  | sqrt => ['s', 'q', 'r', 't']
  | ln => ['l', 'n']
  | exp => ['e', 'x', 'p']
  | log10 => ['l', 'o', 'g', '1', '0']
  | other n => n

/-- The known function of a name in lower case. -/
def Function.known? (name : Text) : Option Function :=
  [sqrt, ln, exp, log10].find? (·.name = name)

def Function.ofName (name : Text) : Function := (known? name).getD (other name)

inductive Expr where
  | number (value : Float)
  | var (name : Text)
  | negate (operand : Expr)
  | binary (operator : Operator) (left right : Expr)
  | apply (function : Function) (argument : Expr)
  deriving DecidableEq, Repr

end TurtleTrace
