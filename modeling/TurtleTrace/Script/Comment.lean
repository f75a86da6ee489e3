import TurtleTrace.Sorting
import TurtleTrace.Text.Basic
import TurtleTrace.Script.Position

/-!
# Comments of a script

Comments are found in two passes. The first finds the block comments `/* … */`, the second the line
comments that `#` or `//` opens. Each pass takes a text apart into pieces, single characters of code
and whole comments, whose sources put together are the text again. Blanking a comment puts a space
for each of its characters and keeps its line ends, so that what is left stands where it stood.

An opening mark `/*` without an end opens a comment that goes to the end of the text, unless a line
comment was opened before it on its line: then it belongs to that comment.
-/

namespace TurtleTrace

set_option autoImplicit false

structure Comment where
  text : Text
  line : Int
  endLine : Option Int := none
  deriving DecidableEq, Repr

def Comment.lastLine (c : Comment) : Int := c.endLine.getD c.line

/-! ## Pieces -/

/-- Part of a script text: a character outside comments, or a comment with its marks. -/
inductive Piece where
  | code (c : Char)
  | comment (body : Text)
  deriving DecidableEq, Repr

def blankChar (c : Char) : Char := if c = '\n' then '\n' else ' '

namespace Piece

/-- What the piece was read from. -/
def source : Piece → Text
  | code c => [c]
  | comment body => body

/-- The piece with a comment blanked. -/
def blanked : Piece → Text
  | code c => [c]
  | comment body => body.map blankChar

end Piece

/-- The text with its comments blanked. -/
def blankComments (pieces : List Piece) : Text := pieces.flatMap Piece.blanked

/-- The comments among pieces that start on a given line; `shown` makes the text that is kept. -/
def commentsFrom (shown : Text → Text) (line : Int) : List Piece → List Comment
  | [] => []
  | .code c :: rest => commentsFrom shown (line + Text.newlines [c]) rest
  | .comment body :: rest =>
    let last := line + body.newlines
    ⟨shown body, line, if last = line then none else some last⟩ :: commentsFrom shown last rest

/-! ## Block comments -/

/-- The end of a block comment: the text up to and with the first `*/`, and the text after it. -/
def closeBlock? : Text → Option (Text × Text)
  | [] => none
  | '*' :: '/' :: rest => some (['*', '/'], rest)
  | c :: rest => (closeBlock? rest).map fun (body, after) => (c :: body, after)

/-- Whether a line comment is opened somewhere in a part of a line. The marks are the same read
backwards, so the part may be given last character first. -/
def opensLineComment : Text → Bool
  | [] => false
  | '#' :: _ => true
  | '/' :: '/' :: _ => true
  | _ :: rest => opensLineComment rest

/-- The current line after one more character, last character first. -/
def lineAfter (before : Text) (c : Char) : Text := if c = '\n' then [] else c :: before

theorem closeBlock?_append {t body after : Text} (h : closeBlock? t = some (body, after)) :
    body ++ after = t := by
  fun_induction closeBlock? t generalizing body after with
  | case1 => simp at h
  | case2 rest => simp only [Option.some.injEq, Prod.mk.injEq] at h; simp [← h.1, ← h.2]
  | case3 c rest _ ih =>
    simp only [Option.map_eq_some_iff, Prod.mk.injEq] at h
    obtain ⟨⟨b, a⟩, hr, hb, ha⟩ := h
    simp only at hb ha
    rw [← hb, ← ha, List.cons_append, ih hr]

/-- The pieces of a text after the part `before` of the same line, last character first, in which
block comments are blanked. -/
def blockPieces (before : Text) : Text → List Piece
  | [] => []
  | '/' :: '*' :: rest =>
    match h : closeBlock? rest with
    | some (body, after) =>
      have : after.length < rest.length + 2 := by
        have := congrArg List.length (closeBlock?_append h)
        simp only [List.length_append] at this
        omega
      .comment ('/' :: '*' :: body) ::
        blockPieces ((('/' :: '*' :: body).map blankChar).foldl lineAfter before) after
    | none =>
      if opensLineComment before then
        .code '/' :: .code '*' :: blockPieces ('*' :: '/' :: before) rest
      else [.comment ('/' :: '*' :: rest)]
  | c :: rest => .code c :: blockPieces (lineAfter before c) rest
termination_by t => t.length

/-- Whether a piece is a block comment without an end. -/
def Piece.isUnclosed : Piece → Bool
  | code _ => false
  | comment body => (closeBlock? (body.drop 2)).isNone

/-- Where the first block comment without an end opens. -/
def unclosedAt (p : Position) : List Piece → Option Position
  | [] => none
  | piece :: rest =>
    if piece.isUnclosed then some p else unclosedAt (p.afterText piece.source) rest

/-! ## Line comments -/

/-- Whether a character belongs to a line. -/
def inLine (c : Char) : Bool := c ≠ '\n'

/-- The pieces of a text without block comments. -/
def linePieces : Text → List Piece
  | [] => []
  | '#' :: rest =>
    have : (rest.dropWhile inLine).length < rest.length + 1 := by
      have := (List.dropWhile_sublist inLine (l := rest)).length_le
      omega
    .comment ('#' :: rest.takeWhile inLine) :: linePieces (rest.dropWhile inLine)
  | '/' :: '/' :: rest =>
    have : (rest.dropWhile inLine).length < rest.length + 2 := by
      have := (List.dropWhile_sublist inLine (l := rest)).length_le
      omega
    .comment ('/' :: '/' :: rest.takeWhile inLine) :: linePieces (rest.dropWhile inLine)
  | c :: rest => .code c :: linePieces rest
termination_by t => t.length

/-! ## Both passes -/

/-- A carriage return in front of a line feed is dropped. -/
def normalizeLineEnds : Text → Text
  | [] => []
  | '\r' :: '\n' :: rest => '\n' :: normalizeLineEnds rest
  | c :: rest => c :: normalizeLineEnds rest

/-- A script text with its comments taken out. -/
structure Cleaned where
  text : Text
  comments : List Comment
  unclosed : Option Position
  deriving DecidableEq, Repr

/-- Takes the comments out of a source whose first line has the given number. -/
def clean (firstLine : Int) (source : Text) : Cleaned :=
  let blocks := blockPieces [] (normalizeLineEnds source)
  let lines := linePieces (blankComments blocks)
  { text := blankComments lines
    comments := sortOn Comment.line
      (commentsFrom id firstLine blocks ++ commentsFrom Text.trim firstLine lines)
    unclosed := unclosedAt ⟨firstLine, 1⟩ blocks }

end TurtleTrace
