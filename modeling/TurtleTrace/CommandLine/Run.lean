import TurtleTrace.CommandLine.Invocation
import TurtleTrace.Session
import TurtleTrace.Settings.File

/-!
# Running the command line

A run is a function from the arguments and the files to an exit code, the two streams and the files
that are written. Log lines go to the stream of errors, in the order of what they tell, down to the
level that was asked for.
-/

namespace TurtleTrace.CommandLine

set_option autoImplicit false

/-! ## Log lines -/

inductive Level where
  | debug
  | info
  | warning
  deriving DecidableEq, Repr

def Level.rank : Level → Nat
  | debug => 0
  | info => 1
  | warning => 2

def Level.title : Level → Text
  | debug => "DEBUG".toList
  | info => "INFO".toList
  | warning => "WARNING".toList

/-- The lowest level that is shown. -/
def Level.ofVerbosity : Nat → Level
  | 0 => warning
  | 1 => info
  | _ => debug

structure LogLine where
  level : Level
  source : Text
  message : Text
  deriving DecidableEq, Repr

/-- A log line as the stream shows it, unless its level is too low. -/
def LogLine.show (threshold : Level) (l : LogLine) : Text :=
  if l.level.rank < threshold.rank then []
  else l.level.title ++ ' ' :: l.source ++ ": ".toList ++ l.message ++ ['\n']

def eventLine : Event → LogLine
  | .parsed statements commands diagnostics comments =>
    ⟨.debug, "turtlescad.core.parser".toList,
      "Parsed ".toList ++ Text.ofNat statements ++ " statements into ".toList ++
        Text.ofNat commands ++ " commands (".toList ++ Text.ofNat diagnostics ++
        " diagnostics, ".toList ++ Text.ofNat comments ++ " comments)".toList⟩
  | .entered frame depth =>
    let name := match frame.name with
      | none => []
      | some name => if name.isEmpty then [] else " :".toList ++ name
    ⟨.debug, "turtlescad.handlers.control_flow".toList,
      frame.kind.keyword ++ name ++ " x".toList ++ Text.ofInt frame.count ++
        " at depth ".toList ++ Text.ofNat depth⟩
  | .finished steps segments polygons markers =>
    ⟨.debug, "turtlescad.core.interpreter".toList,
      "Executed ".toList ++ Text.ofNat steps ++ " steps: ".toList ++ Text.ofNat segments ++
        " segments, ".toList ++ Text.ofNat polygons ++ " polygons, ".toList ++
        Text.ofNat markers ++ " markers".toList⟩

def noticeLine : Notice → LogLine
  | .event e => eventLine e
  | .runtimeError message =>
    ⟨.warning, "turtlescad.logo_processor".toList, "Runtime error: ".toList ++ message⟩
  | .processed segments polygons markers =>
    ⟨.info, "turtlescad.logo_processor".toList,
      "Processed script: ".toList ++ Text.ofNat segments ++ " segments, ".toList ++
        Text.ofNat polygons ++ " polygons, ".toList ++ Text.ofNat markers ++ " markers".toList⟩
  | .failed errors =>
    ⟨.info, "turtlescad.logo_processor".toList,
      "Processing failed with ".toList ++ Text.ofNat errors ++ " errors".toList⟩

def warningLine (w : SettingWarning) : LogLine :=
  ⟨.warning, "turtlescad.config.settings".toList, w.message⟩

def wroteLine (path : Text) : LogLine :=
  ⟨.info, "turtlescad.main".toList, "Wrote ".toList ++ path⟩

/-! ## Files and reports -/

/-- What a path leads to. -/
inductive Entry where
  | missing
  | directory
  | file (content : Text)
  deriving DecidableEq, Repr

/-- What a run leaves behind. -/
structure Report where
  exit : Nat
  stdout : Text := []
  stderr : Text := []
  writes : List (Text × Text) := []
  fault : Option ArithmeticFault := none
  deriving DecidableEq, Repr

def Report.usage : Report := { exit := 2 }

def helpText : Text :=
  "Usage: render SCRIPT | check SCRIPT | init-config PATH\n".toList

/-- Reading a text file makes every line end a line feed. -/
def universalLineEnds : Text → Text
  | [] => []
  | '\r' :: '\n' :: rest => '\n' :: universalLineEnds rest
  | '\r' :: rest => '\n' :: universalLineEnds rest
  | c :: rest => c :: universalLineEnds rest

/-- A diagnostic as the stream of errors shows it. -/
def errorLine (d : Diagnostic) : Text :=
  "Line ".toList ++ Text.ofInt d.span.startLine ++ ':' :: Text.ofInt d.span.startColumn ++
    ": ".toList ++ d.message ++ ['\n']

/-- What was processed, and what the stream of errors says about it. -/
structure Processed where
  session : Session
  stderr : Text
  fault : Option ArithmeticFault

def processScript (settings : Settings) (threshold : Level) (script : Text) : Option Processed :=
  match Session.open? settings with
  | .error _ => none
  | .ok session =>
    let (session, fault, notices) := session.process (universalLineEnds script)
    let told := notices.flatMap fun n => (noticeLine n).show threshold
    let errors := match fault with
      | none => session.log.sorted.flatMap errorLine
      | some _ => []
    some ⟨session, told ++ errors, fault⟩

def exitCode (session : Session) : Nat := if session.successful then 0 else 1

/-! ## The three commands -/

/-- The settings of a run: those of the file, then those of the options. -/
def renderSettings (options : RenderOptions) (read : Text → Entry) :
    Settings × List SettingWarning :=
  let (settings, warnings) := match options.settings with
    | none => (Settings.default, [])
    | some path =>
      Settings.load path (match read path with
        | .file content => some (universalLineEnds content)
        | _ => none)
  ({ settings with
     resolution := options.resolution.getD settings.resolution
     indent := options.indent.getD settings.indent
     circles := options.circles.getD settings.circles }, warnings)

/-- Whether an optional path may be used as a file. -/
def notDirectory (read : Text → Entry) : Option Text → Bool
  | none => true
  | some path => read path ≠ .directory

def runRender (options : RenderOptions) (read : Text → Entry) : Report :=
  match read options.script with
  | .file script =>
    if notDirectory read options.output && notDirectory read options.settings then
      let threshold := Level.ofVerbosity options.verbosity
      let (settings, warnings) := renderSettings options read
      let warned := warnings.flatMap fun w => (warningLine w).show threshold
      match processScript settings threshold script with
      | none => .usage
      | some ⟨_, stderr, some fault⟩ =>
        { exit := 1, stderr := warned ++ stderr, fault := some fault }
      | some ⟨session, stderr, none⟩ =>
        let text := session.scad ++ ['\n']
        match options.output with
        | none => { exit := exitCode session, stdout := text, stderr := warned ++ stderr }
        | some path =>
          { exit := exitCode session
            stderr := warned ++ stderr ++ (wroteLine path).show threshold
            writes := [(path, text)] }
    else .usage
  | _ => .usage

def runCheck (script : Text) (verbosity : Nat) (read : Text → Entry) : Report :=
  match read script with
  | .file content =>
    match processScript .default (Level.ofVerbosity verbosity) content with
    | none => .usage
    | some ⟨_, stderr, some fault⟩ => { exit := 1, stderr, fault := some fault }
    | some ⟨session, stderr, none⟩ =>
      { exit := exitCode session, stdout := session.summary ++ ['\n'], stderr }
  | _ => .usage

def runInit (path : Text) (read : Text → Entry) : Report :=
  if read path = .directory then .usage
  else
    { exit := 0
      stdout := "Wrote default configuration to ".toList ++ path ++ ['\n']
      writes := [(path, Settings.default.save)] }

def run (arguments : List Text) (read : Text → Entry) : Report :=
  match Invocation.ofArguments? arguments with
  | none => .usage
  | some .help => { exit := 0, stdout := helpText }
  | some (.render options) => runRender options read
  | some (.check script verbosity) => runCheck script verbosity read
  | some (.initConfig path) => runInit path read

/-- The paths that a run may read. -/
def pathsOf (arguments : List Text) : List Text :=
  match Invocation.ofArguments? arguments with
  | some (.render options) =>
    options.script :: options.output.toList ++ options.settings.toList
  | some (.check script _) => [script]
  | some (.initConfig path) => [path]
  | _ => []

end TurtleTrace.CommandLine
