import TurtleTrace.Text.Basic
import TurtleTrace.Text.Digit

/-!
# Arguments of the command line

Options may stand anywhere among the other arguments. A long option takes its value after an equals
sign or as the next argument; short options can be joined, and the last of them takes the rest of
its word, or the next argument, as its value. Two hyphens alone end the options.
-/

namespace TurtleTrace.CommandLine

set_option autoImplicit false

/-- Options by meaning. -/
inductive Switch where
  | output
  | resolution
  | indent
  | circles
  | noCircles
  | settings
  | verbose
  | help
  deriving DecidableEq, Repr

def Switch.takesValue : Switch → Bool
  | output | resolution | indent | settings => true
  | _ => false

/-- The options of a command by their names. -/
abbrev Switches := List (Text × Switch)

def commonSwitches : Switches := [("--help".toList, .help)]

def checkSwitches : Switches :=
  [("-v".toList, .verbose), ("--verbose".toList, .verbose)] ++ commonSwitches

def renderSwitches : Switches :=
  [("-o".toList, .output), ("--output".toList, .output), ("--fn".toList, .resolution),
    ("--indent".toList, .indent), ("--circles".toList, .circles),
    ("--no-circles".toList, .noCircles), ("--config".toList, .settings)] ++ checkSwitches

/-- Arguments taken apart: options with their values (empty for those that take none), and the
rest. -/
structure Scanned where
  options : List (Switch × Text) := []
  operands : List Text := []
  deriving DecidableEq, Repr

def Scanned.withOptions (s : Scanned) (options : List (Switch × Text)) : Scanned :=
  { s with options := options ++ s.options }

def Scanned.withOperand (s : Scanned) (operand : Text) : Scanned :=
  { s with operands := operand :: s.operands }

/-- What one word of options says: the options it completes, and one that still needs its value. -/
structure OptionWord where
  complete : List (Switch × Text) := []
  pending : Option Switch := none
  deriving DecidableEq, Repr

def readLong (switches : Switches) (word : Text) : Option OptionWord :=
  let name := word.takeWhile (· ≠ '=')
  match switches.lookup name, word.dropWhile (· ≠ '=') with
  | none, _ => none
  | some switch, [] =>
    some (if switch.takesValue then ⟨[], some switch⟩ else ⟨[(switch, [])], none⟩)
  | some switch, _ :: value => if switch.takesValue then some ⟨[(switch, value)], none⟩ else none

def readShort (switches : Switches) : Text → Option OptionWord
  | [] => some {}
  | letter :: rest =>
    match switches.lookup ['-', letter] with
    | none => none
    | some switch =>
      if switch.takesValue then
        some (if rest.isEmpty then ⟨[], some switch⟩ else ⟨[(switch, rest)], none⟩)
      else
        (readShort switches rest).map fun word =>
          { word with complete := (switch, []) :: word.complete }

/-- The options in a word, `none` inside if it is no option word, `none` outside if it is wrong. -/
def readWord (switches : Switches) : Text → Option (Option OptionWord)
  | '-' :: '-' :: rest => (readLong switches ('-' :: '-' :: rest)).map some
  | '-' :: letter :: rest => (readShort switches (letter :: rest)).map some
  | _ => some none

/-- Takes arguments apart; `none` if an option is unknown or lacks its value. -/
def scan (switches : Switches) : List Text → Option Scanned
  | [] => some {}
  | word :: rest =>
    if word = ['-', '-'] then some { operands := rest }
    else
      match readWord switches word with
      | none => none
      | some none => (scan switches rest).map (·.withOperand word)
      | some (some ⟨complete, none⟩) => (scan switches rest).map (·.withOptions complete)
      | some (some ⟨complete, some switch⟩) =>
        match rest with
        | [] => none
        | value :: rest =>
          (scan switches rest).map (·.withOptions (complete ++ [(switch, value)]))

/-- The last value given for an option. -/
def Scanned.value? (s : Scanned) (switch : Switch) : Option Text :=
  s.options.reverse.lookup switch

def Scanned.asksHelp (s : Scanned) : Bool := s.options.any (·.1 = .help)

def Scanned.verbosity (s : Scanned) : Nat := s.options.countP (·.1 = .verbose)

/-- The last of the two options on circles, if one was given. -/
def Scanned.circles? (s : Scanned) : Option Bool :=
  s.options.reverse.findSome? fun (switch, _) =>
    if switch = .circles then some true
    else if switch = .noCircles then some false
    else none

/-! ## Integers -/

/-- Digits with single underscores between them. -/
def readGrouped : Text → Option (List Nat)
  | [] => none
  | [c] => (digitValue? c).map ([·])
  | c :: '_' :: rest =>
    match digitValue? c, readGrouped rest with
    | some d, some digits => some (d :: digits)
    | _, _ => none
  | c :: rest =>
    match digitValue? c, readGrouped rest with
    | some d, some digits => some (d :: digits)
    | _, _ => none

/-- An integer with an optional sign, in digits of any script, between blanks. -/
def readInteger (t : Text) : Option Int :=
  match Text.trim t with
  | '-' :: rest => (readGrouped rest).map fun digits => -(digitsValue digits : Int)
  | '+' :: rest => (readGrouped rest).map fun digits => (digitsValue digits : Int)
  | rest => (readGrouped rest).map fun digits => (digitsValue digits : Int)

/-- An integer that is not below a bound. -/
def readAtLeast (bound : Int) (t : Text) : Option Int :=
  match readInteger t with
  | some n => if bound ≤ n then some n else none
  | none => none

end TurtleTrace.CommandLine
