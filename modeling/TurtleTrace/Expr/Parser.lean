import TurtleTrace.Text.LowerCase
import TurtleTrace.Number.Literal
import TurtleTrace.Expr.Basic
import TurtleTrace.Expr.Token

/-!
# Reading expressions

From the loosest to the tightest: sums, products, powers (grouping to the right), a minus in front,
and atoms. An atom is a sum in parentheses, a variable `:name`, a function applied to a unary
expression, or a number literal.

The readers of sums, products and powers are built over any reader of unary expressions. The reader
of unary expressions is a recursion on a bound for the nesting; a bound of the number of tokens
leaves nothing out, because each level takes a token away.
-/

namespace TurtleTrace

set_option autoImplicit false

namespace Expr

/-- A reader takes an expression from the front of the tokens and hands on the rest. -/
abbrev Reader := List Token → Option (Expr × List Token)

def sumOperator? : Token → Option Operator
  | .sign .plus => some .add
  | .sign .minus => some .sub
  | _ => none

def productOperator? : Token → Option Operator
  | .sign .star => some .mul
  | .sign .slash => some .div
  | _ => none

/-- The rest of a chain whose operands so far make up `left`; the chain groups to the left. The
number bounds the operators that are still taken. -/
def chainFrom (operand : Reader) (operator? : Token → Option Operator) : Nat → Expr → Reader
  | 0, left, tokens => some (left, tokens)
  | _ + 1, left, [] => some (left, [])
  | n + 1, left, token :: rest =>
    match operator? token with
    | none => some (left, token :: rest)
    | some op =>
      match operand rest with
      | none => none
      | some (right, rest) => chainFrom operand operator? n (.binary op left right) rest

/-- Operands joined by operators of one level. -/
def chain (operand : Reader) (operator? : Token → Option Operator) (bound : Nat) : Reader :=
  fun tokens =>
    match operand tokens with
    | none => none
    | some (left, rest) => chainFrom operand operator? bound left rest

/-- A unary expression, or one raised to a power. -/
def power (unary : Reader) : Nat → Reader
  | 0, tokens => unary tokens
  | n + 1, tokens =>
    match unary tokens with
    | none => none
    | some (left, .sign .caret :: rest) =>
      match power unary n rest with
      | none => none
      | some (right, rest) => some (.binary .pow left right, rest)
    | some (left, rest) => some (left, rest)

def product (unary : Reader) (bound : Nat) : Reader :=
  chain (power unary bound) productOperator? bound

def sum (unary : Reader) (bound : Nat) : Reader :=
  chain (product unary bound) sumOperator? bound

/-- What a word at the place of an atom stands for. -/
inductive Word where
  | reference (name : Text)
  | function (f : Function)
  | literal (value : Float)
  deriving DecidableEq, Repr

/-- Reads a word: a variable after a colon, the name of a function in any case, or a number. -/
def Word.ofText? (letters : Text) : Option Word :=
  match letters with
  | ':' :: name => if name.isEmpty then none else some (.reference (Text.lower name))
  | _ =>
    match Function.known? (Text.lower letters) with
    | some f => some (.function f)
    | none => (readNumber? letters).map .literal

/-- A unary expression with at most `bound` levels of nesting. -/
def unary : (bound : Nat) → Reader
  | 0, _ => none
  | bound + 1, tokens =>
    match tokens with
    | .sign .minus :: rest => (unary bound rest).map fun (e, rest) => (.negate e, rest)
    | .sign .opening :: rest =>
      match sum (unary bound) bound rest with
      | some (e, .sign .closing :: rest) => some (e, rest)
      | _ => none
    | .word letters :: rest =>
      match Word.ofText? letters with
      | none => none
      | some (.reference name) => some (.var name, rest)
      | some (.function f) => (unary bound rest).map fun (e, rest) => (.apply f e, rest)
      | some (.literal value) => some (.number value, rest)
    | _ => none

/-- Reads all the tokens as one expression. -/
def ofTokens? (tokens : List Token) : Option Expr :=
  match sum (unary tokens.length) tokens.length tokens with
  | some (e, []) => some e
  | _ => none

/-- Reads a whole text as an expression; an empty or malformed text is none. -/
def parse? (t : Text) : Option Expr := ofTokens? (Token.scan t)

end Expr

end TurtleTrace
