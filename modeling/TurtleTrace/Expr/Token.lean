import TurtleTrace.Text.Basic

/-!
# Tokens of expressions

Blanks separate tokens and each of the seven signs `+ - * / ^ ( )` is a token of its own; every other
run of characters is a word.
-/

namespace TurtleTrace

set_option autoImplicit false

inductive Sign where
  | plus
  | minus
  | star
  | slash
  | caret
  | opening
  | closing
  deriving DecidableEq, Repr

def Sign.char : Sign → Char
  | plus => '+'
  | minus => '-'
  | star => '*'
  | slash => '/'
  | caret => '^'
  | opening => '('
  | closing => ')'

def Sign.ofChar? : Char → Option Sign
  | '+' => some plus
  | '-' => some minus
  | '*' => some star
  | '/' => some slash
  | '^' => some caret
  | '(' => some opening
  | ')' => some closing
  | _ => none

inductive Token where
  | sign (s : Sign)
  | word (letters : Text)
  deriving DecidableEq, Repr

namespace Token

def text : Token → Text
  | sign s => [s.char]
  | word w => w

/-- The word that has been read so far, last letter first, if there is one. -/
def flush : Text → List Token
  | [] => []
  | letters => [word letters.reverse]

/-- The tokens of a text that goes on from the letters of an unfinished word, last letter first. -/
def scanFrom (letters : Text) : Text → List Token
  | [] => flush letters
  | c :: rest =>
    if isBlank c then flush letters ++ scanFrom [] rest
    else
      match Sign.ofChar? c with
      | some s => flush letters ++ sign s :: scanFrom [] rest
      | none => scanFrom (c :: letters) rest

def scan (t : Text) : List Token := scanFrom [] t

end Token

end TurtleTrace
