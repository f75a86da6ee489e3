import TurtleTrace.Diagnostic.Log
import TurtleTrace.Expr.Parser
import TurtleTrace.Script.Brackets
import TurtleTrace.Script.Command
import TurtleTrace.Script.Statement

/-!
# Reading commands

A statement is a keyword, in any case, and its arguments, or a colon and the name of a stored list.
Every statement gives one command or one diagnostic on its span.
-/

namespace TurtleTrace

set_option autoImplicit false

/-! ## What can be wrong with a statement -/

/-- What a pair of square brackets encloses. -/
inductive Enclosure where
  | storedList
  | loopBody
  | positionLabel
  | markerLabel
  | printedText
  deriving DecidableEq, Repr

def Enclosure.title : Enclosure → Text
  | storedList => "MAKE instruction list".toList
  | loopBody => "REPEAT body".toList
  | positionLabel => "EXTCOMMENTPOS label".toList
  | markerLabel => "EXTMARKER label".toList
  | printedText => "PRINT string".toList

inductive StatementFault where
  | noKeyword (text : Text)
  | unknownKeyword (word : Text)
  | needsNothing (kind : Kind)
  | needsValue (kind : Kind)
  | badExpression (text : Text)
  | needsTwoValues (kind : Kind)
  | tooManyValues (kind : Kind)
  | unquotedName
  | missingName
  | missingValue (name : Text)
  | repeatNeedsBody
  | repeatBodyShape
  | repeatNeedsCount
  | labelNeedsBrackets
  | labelNeedsComma
  | markerNeedsTwo
  | printNeedsArgument
  | emptyArgument
  | callNeedsName
  | textAfterCall (name : Text)
  | unclosed (what : Enclosure)
  | textAfter (what : Enclosure)
  deriving DecidableEq, Repr

namespace StatementFault

/-- The two values of a kind, as hints name them. -/
def valueHint (kind : Kind) : Text :=
  if kind = .arc then "(angle, radius)".toList else "(x, y)".toList

def message : StatementFault → Text
  | noKeyword text => "Unexpected text: ".toList ++ text
  | unknownKeyword word => "Unknown command: ".toList ++ word
  | needsNothing kind => kind.keyword ++ " does not take any arguments".toList
  | needsValue kind => kind.keyword ++ " requires a value".toList
  | badExpression text => "Invalid expression: ".toList ++ text
  | needsTwoValues kind =>
    kind.keyword ++ " requires two values separated by a comma ".toList ++ valueHint kind
  | tooManyValues kind =>
    "Too many values for ".toList ++ kind.keyword ++ ' ' :: valueHint kind
  | unquotedName => "MAKE requires a quoted variable name (MAKE \"name value)".toList
  | missingName => "MAKE requires a variable name".toList
  | missingValue name => "MAKE requires a value for \"".toList ++ name
  | repeatNeedsBody => "REPEAT requires a count and an instruction list".toList
  | repeatBodyShape => "REPEAT body must be in brackets or a :name instruction list".toList
  | repeatNeedsCount => "REPEAT requires a count".toList
  | labelNeedsBrackets => "EXTCOMMENTPOS label must be in brackets".toList
  | labelNeedsComma => "EXTMARKER label must be followed by a comma before coordinates".toList
  | markerNeedsTwo => "EXTMARKER coordinates must be exactly 2 values (x, y)".toList
  | printNeedsArgument => "PRINT requires at least one argument".toList
  | emptyArgument => "PRINT has an empty argument".toList
  | callNeedsName => "Instruction list call requires a name after ':'".toList
  | textAfterCall name => "Unexpected text after :".toList ++ name
  | unclosed what => what.title ++ " missing closing bracket".toList
  | textAfter what => "Unexpected text after ".toList ++ what.title

def category : StatementFault → Category
  | unknownKeyword _ => .semantic
  | _ => .syntactic

end StatementFault

abbrev Reading (α : Type) := Except StatementFault α

/-! ## Arguments -/

def readExpr (t : Text) : Reading Expr :=
  match Expr.parse? t with
  | none => .error (.badExpression t.trim)
  | some e => .ok e

/-- The text inside brackets that open at the front of `t` and must end it. -/
def readInterior (what : Enclosure) (t : Text) : Reading Text :=
  match closingFrom 0 t with
  | none => .error (.unclosed what)
  | some index =>
    if (Text.trim (t.drop (index + 1))).isEmpty then .ok ((t.take index).drop 1)
    else .error (.textAfter what)

def readNothing (kind : Kind) (action : Action) (rest : Text) : Reading Action :=
  if rest.isEmpty then .ok action else .error (.needsNothing kind)

def readValue (kind : Kind) (action : Expr → Action) (rest : Text) : Reading Action :=
  if rest.isEmpty then .error (.needsValue kind) else (readExpr rest).map action

def readPair (first second : Text) : Reading (Expr × Expr) := do
  let x ← readExpr first
  let y ← readExpr second
  return (x, y)

def readTwoValues (kind : Kind) (action : Expr → Expr → Action) (rest : Text) : Reading Action :=
  match splitTopLevel ',' rest with
  | [] | [_] => .error (.needsTwoValues kind)
  | [first, second] => (readPair first second).map fun (x, y) => action x y
  | _ => .error (.tooManyValues kind)

/-- Whether a character belongs to a keyword or to a quoted name. -/
def inWord (c : Char) : Bool := !isBlank c && c ≠ '['

def readMake : Text → Reading Action
  | '"' :: rest =>
    let name := rest.takeWhile inWord
    let value := Text.trim (rest.dropWhile inWord)
    if name.isEmpty then .error .missingName
    else if value.isEmpty then .error (.missingValue name)
    else if Text.startsWith '[' value then
      (readInterior .storedList value).map (.makeList (Text.lower name))
    else (readExpr value).map (.makeNumber (Text.lower name))
  | _ => .error .unquotedName

def readCount (t : Text) : Reading Expr :=
  if t.isEmpty then .error .repeatNeedsCount else readExpr t

/-- Reads a loop. A body in brackets starts on the line of its bracket; a named body is the last word. -/
def readRepeat (statement : Statement) (rest : Text) : Reading Action :=
  if rest.isEmpty then .error .repeatNeedsBody
  else
    match rest.cutBefore '[' with
    | some (count, bracket) => do
      let body ← readInterior .loopBody bracket
      let count ← readCount count.trim
      let above := Text.newlines (statement.text.takeWhile (· ≠ '['))
      return .repeatBody count body (statement.line + above)
    | none =>
      match rest.cutLastWord with
      | (before, ':' :: name) =>
        if before.isEmpty || name.isEmpty then .error .repeatBodyShape
        else (readCount before.trim).map (.repeatNamed · (Text.lower name))
      | _ => .error .repeatBodyShape

def readNotePosition (rest : Text) : Reading Action :=
  if rest.isEmpty then .ok (.notePosition none)
  else if rest.startsWith '[' then
    (readInterior .positionLabel rest).map fun label => .notePosition (some label.trim)
  else .error .labelNeedsBrackets

def readPlace (t : Text) : Reading (Expr × Expr) :=
  match splitTopLevel ',' t with
  | [first, second] => readPair first second
  | _ => .error .markerNeedsTwo

def readMarker (rest : Text) : Reading Action :=
  if rest.isEmpty then .ok (.marker none none)
  else if rest.startsWith '[' then
    match closingFrom 0 rest with
    | none => .error (.unclosed .markerLabel)
    | some index =>
      let label := Text.trim ((rest.take index).drop 1)
      match Text.trim (rest.drop (index + 1)) with
      | [] => .ok (.marker (some label) none)
      | ',' :: place => (readPlace place).map fun p => .marker (some label) (some p)
      | _ => .error .labelNeedsComma
  else (readPlace rest).map fun p => .marker none (some p)

def readPrintItem (t : Text) : Reading PrintItem :=
  if t.isEmpty then .error .emptyArgument
  else if t.startsWith '[' then
    (readInterior .printedText t).map fun text => .text text.trim
  else (readExpr t).map .value

def readPrintItems : List Text → Reading (List PrintItem)
  | [] => .ok []
  | part :: parts => do
    let item ← readPrintItem part.trim
    let items ← readPrintItems parts
    return item :: items

def readPrint (rest : Text) : Reading Action :=
  if rest.isEmpty then .error .printNeedsArgument
  else (readPrintItems (splitTopLevel ',' rest)).map .print

def readCall (name rest : Text) : Reading Action :=
  if name.isEmpty then .error .callNeedsName
  else if rest.isEmpty then .ok (.call (Text.lower name))
  else .error (.textAfterCall name)

/-! ## Keywords -/

/-- The capitals of a character, as far as they make up keywords. Besides the small letters a to z, the
capitals A to Z are reached from the sharp s, the dotless i, the long s and the seven Latin ligatures;
every other character stands for itself, and then the word is no keyword. -/
def Text.capitalsOf (c : Char) : Text :=
  if 'a' ≤ c ∧ c ≤ 'z' then [c.toUpper]
  else
    match c.toNat with
    | 0xDF => ['S', 'S']
    | 0x131 => ['I']
    | 0x17F => ['S']
    | 0xFB00 => ['F', 'F']
    | 0xFB01 => ['F', 'I']
    | 0xFB02 => ['F', 'L']
    | 0xFB03 => ['F', 'F', 'I']
    | 0xFB04 => ['F', 'F', 'L']
    | 0xFB05 => ['S', 'T']
    | 0xFB06 => ['S', 'T']
    | _ => [c]

def Text.capitals (word : Text) : Text := word.flatMap capitalsOf

/-! ## Statements -/

/-- Reads the arguments that a kind of command takes. -/
def readArguments (statement : Statement) (kind : Kind) (rest : Text) : Reading Action :=
  match kind with
  | .pu => readNothing kind .penUp rest
  | .pd => readNothing kind .penDown rest
  | .home => readNothing kind .home rest
  | .fd => readValue kind .forward rest
  | .bk => readValue kind .back rest
  | .lt => readValue kind .left rest
  | .rt => readValue kind .right rest
  | .seth => readValue kind .setHeading rest
  | .setx => readValue kind .setX rest
  | .sety => readValue kind .setY rest
  | .extsetfn => readValue kind .setResolution rest
  | .arc => readTwoValues kind .arc rest
  | .setxy => readTwoValues kind .setXY rest
  | .make => readMake rest
  | .repeat => readRepeat statement rest
  | .extcommentpos => readNotePosition rest
  | .extmarker => readMarker rest
  | .print => readPrint rest
  | .call => .error (.unknownKeyword kind.keyword)

namespace Statement

def action (s : Statement) : Reading Action :=
  let word := s.text.takeWhile inWord
  let rest := Text.trim (s.text.dropWhile inWord)
  match word with
  | [] => .error (.noKeyword s.text)
  | ':' :: name => readCall name rest
  | word =>
    match Kind.ofSpelling? (Text.capitals word) with
    | none => .error (.unknownKeyword word)
    | some kind => readArguments s kind rest

def command (s : Statement) : Reading Command := s.action.map fun action => ⟨action, s.line⟩

def diagnostic (s : Statement) (fault : StatementFault) : Diagnostic :=
  ⟨fault.message, s.span, fault.category, .error⟩

end Statement

/-! ## Scripts -/

/-- What was read from a script text. -/
structure Parsed where
  commands : List Command
  diagnostics : List Diagnostic
  comments : List Comment
  statementCount : Nat
  deriving DecidableEq, Repr

/-- Reads statements in order; those that cannot be read are reported to the log. -/
def readStatements (log : DiagnosticLog) : List Statement → List Command × DiagnosticLog
  | [] => ([], log)
  | s :: rest =>
    match s.command with
    | .ok command =>
      let (commands, log) := readStatements log rest
      (command :: commands, log)
    | .error fault => readStatements (log.report (s.diagnostic fault)) rest

/-- Reads a script text whose first line has the given number, reporting to a log that may hold
earlier diagnostics; the answer has only its own. -/
def parseInto (log : DiagnosticLog) (firstLine : Int) (source : Text) : Parsed × DiagnosticLog :=
  let lexed := lex firstLine source
  let (commands, after) := readStatements (log.reportAll lexed.diagnostics) lexed.statements
  ({ commands
     diagnostics := after.since log.mark
     comments := lexed.comments
     statementCount := lexed.statements.length }, after)

def parse (firstLine : Int) (source : Text) : Parsed := (parseInto .empty firstLine source).1

end TurtleTrace
