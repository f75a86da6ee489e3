import TurtleTrace.Diagnostic.Basic
import TurtleTrace.Script.Comment

/-!
# Statements

A text without comments is cut into chunks at every semicolon and line end outside square brackets;
a closing bracket too many is passed over. A bracket that is still open at the end of the text does
not swallow the rest of the script: its chunk ends with its first line. A chunk that is not blank is
a statement, with the place of its first and after its last character.
-/

namespace TurtleTrace

set_option autoImplicit false

/-! ## Chunks -/

/-- How a scan for the end of a chunk ended. -/
inductive ChunkEnd where
  | separator (mark : Char) (rest : Text)
  | textEnd (depth : Nat)
  deriving DecidableEq, Repr

/-- A scan with one more character in front. -/
def keep (c : Char) (scan : Text × ChunkEnd) : Text × ChunkEnd := (c :: scan.1, scan.2)

/-- Reads up to the first separator outside brackets, from a given depth of open brackets. -/
def scanChunk (depth : Nat) : Text → Text × ChunkEnd
  | [] => ([], .textEnd depth)
  | c :: rest =>
    if c = '[' then keep c (scanChunk (depth + 1) rest)
    else if c = ']' then keep c (scanChunk (depth - 1) rest)
    else if depth = 0 ∧ (c = ';' ∨ c = '\n') then ([], .separator c rest)
    else keep c (scanChunk depth rest)

/-- A part of the text between separators; `whole` if no bracket was open at its end. -/
structure Chunk where
  start : Position
  text : Text
  whole : Bool
  deriving DecidableEq, Repr

theorem scanChunk_separator {depth : Nat} {t rest : Text} {mark : Char}
    (h : (scanChunk depth t).2 = .separator mark rest) :
    (scanChunk depth t).1 ++ mark :: rest = t := by
  induction t generalizing depth with
  | nil => simp [scanChunk] at h
  | cons c t ih =>
    unfold scanChunk at h ⊢
    split
    · rename_i hc; simp only [hc, if_true, keep] at h; simp [keep, ih h]
    · rename_i hc
      simp only [hc, if_false] at h
      split
      · rename_i hd; simp only [hd, if_true, keep] at h; simp [keep, ih h]
      · rename_i hd
        simp only [hd, if_false] at h
        split
        · rename_i he
          simp only [he, and_self, if_true, ChunkEnd.separator.injEq] at h
          simp [h.1, h.2]
        · rename_i he; simp only [he, if_false, keep] at h; simp [keep, ih h]

/-- The chunks of a text that starts at a given place. -/
def chunksFrom (p : Position) (t : Text) : List Chunk :=
  match h : (scanChunk 0 t).2 with
  | .separator mark rest =>
    have : rest.length < t.length := by
      have := congrArg List.length (scanChunk_separator h)
      simp only [List.length_append, List.length_cons] at this
      omega
    ⟨p, (scanChunk 0 t).1, true⟩ ::
      chunksFrom ((p.afterText (scanChunk 0 t).1).after mark) rest
  | .textEnd depth =>
    if depth = 0 then [⟨p, t, true⟩]
    else
      match hc : t.cutBefore '\n' with
      | some (first, mark :: rest) =>
        have : rest.length < t.length := by
          have := congrArg List.length (Text.cutBefore_append hc)
          simp only [List.length_append, List.length_cons] at this
          omega
        ⟨p, first, false⟩ :: chunksFrom ((p.afterText first).after mark) rest
      | _ => [⟨p, t, false⟩]
termination_by t.length

/-! ## Statements -/

structure Statement where
  text : Text
  start : Position
  stop : Position
  deriving DecidableEq, Repr

namespace Statement

/-- The statement of a chunk, unless the chunk is blank. -/
def ofChunk? (chunk : Chunk) : Option Statement :=
  let text := chunk.text.trim
  if text.isEmpty then none
  else
    let start := chunk.start.afterText (chunk.text.takeWhile isBlank)
    some ⟨text, start, start.afterText text⟩

def line (s : Statement) : Int := s.start.line

def span (s : Statement) : Span :=
  if s.stop.line = s.start.line then
    Span.onLine s.start.line s.start.column s.stop.column
  else ⟨s.start.line, s.start.column, s.stop.line, s.stop.column⟩

/-- The statement with its place in front. -/
def located (s : Statement) : Text :=
  Text.ofInt s.start.line ++ ':' :: Text.ofInt s.start.column ++ ':' :: s.text

end Statement

/-- The statements of a text without comments whose first line has the given number. -/
def statements (firstLine : Int) (t : Text) : List Statement :=
  (chunksFrom ⟨firstLine, 1⟩ t).filterMap Statement.ofChunk?

/-- The message on a block comment without an end. -/
def unclosedMessage : Text := "Unclosed multi-line comment".toList

/-- The diagnostics of taking the comments out. -/
def Cleaned.diagnostics (c : Cleaned) : List Diagnostic :=
  match c.unclosed with
  | none => []
  | some p =>
    [⟨unclosedMessage, Span.onLine p.line p.column (p.column + 2), .syntactic, .error⟩]

/-- A script text taken apart. -/
structure Lexed where
  statements : List Statement
  comments : List Comment
  diagnostics : List Diagnostic
  deriving DecidableEq, Repr

def lex (firstLine : Int) (source : Text) : Lexed :=
  let cleaned := clean firstLine source
  { statements := statements firstLine cleaned.text
    comments := cleaned.comments
    diagnostics := cleaned.diagnostics }

end TurtleTrace
