import TurtleTrace.CommandLine.Arguments

/-!
# Invocations

What a command line asks for. Anything that cannot be understood is a usage error.
-/

namespace TurtleTrace.CommandLine

set_option autoImplicit false

structure RenderOptions where
  script : Text
  output : Option Text := none
  resolution : Option Int := none
  indent : Option Int := none
  circles : Option Bool := none
  settings : Option Text := none
  verbosity : Nat := 0
  deriving DecidableEq, Repr

inductive Invocation where
  | render (options : RenderOptions)
  | check (script : Text) (verbosity : Nat)
  | initConfig (path : Text)
  | help
  deriving DecidableEq, Repr

/-- An option that may be missing but must be right if it is given. -/
def optional {α : Type} (read : Text → Option α) : Option Text → Option (Option α)
  | none => some none
  | some t => (read t).map some

/-- A path that was given; an empty one counts as missing. -/
def pathOption (value : Option Text) : Option Text := value.filter (!·.isEmpty)

def renderInvocation (s : Scanned) : Option Invocation :=
  match s.operands, optional (readAtLeast 1) (s.value? .resolution),
      optional (readAtLeast 0) (s.value? .indent) with
  | [script], some resolution, some indent =>
    some (.render
      { script
        output := pathOption (s.value? .output)
        resolution
        indent
        circles := s.circles?
        settings := pathOption (s.value? .settings)
        verbosity := s.verbosity })
  | _, _, _ => none

def checkInvocation (s : Scanned) : Option Invocation :=
  match s.operands with
  | [script] => some (.check script s.verbosity)
  | _ => none

def initInvocation (s : Scanned) : Option Invocation :=
  match s.operands with
  | [path] => some (.initConfig path)
  | _ => none

/-- Reads the arguments of one command. -/
def readCommand (switches : Switches) (read : Scanned → Option Invocation) (arguments : List Text) :
    Option Invocation :=
  match scan switches arguments with
  | none => none
  | some s => if s.asksHelp then some .help else read s

/-- What the arguments ask for; `none` is a usage error. -/
def Invocation.ofArguments? : List Text → Option Invocation
  | [] => none
  | word :: rest =>
    if word = "render".toList then readCommand renderSwitches renderInvocation rest
    else if word = "check".toList then readCommand checkSwitches checkInvocation rest
    else if word = "init-config".toList then readCommand commonSwitches initInvocation rest
    else if word = "--help".toList then some .help
    else none

end TurtleTrace.CommandLine
