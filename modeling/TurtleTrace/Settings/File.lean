import TurtleTrace.Json.Reader
import TurtleTrace.Settings.Basic

/-!
# Settings files

Settings are saved as a JSON object with one member per line. The file is opened first and then written
part by part, so a number with too many digits, which cannot be written, leaves it unfinished. When
settings are loaded, a member that is missing, has another type or is out of its range leaves the
default, with a warning in the last two cases; other members are passed over.
-/

namespace TurtleTrace

set_option autoImplicit false

inductive Field where
  | resolution
  | indent
  | circles
  | callDepth
  | steps
  deriving DecidableEq, Repr

namespace Field

def all : List Field := [resolution, indent, circles, callDepth, steps]

/-- The key of a setting in a file. -/
def key : Field → Text
  | resolution => "arc_resolution_default".toList
  | indent => "indent_spaces".toList
  | circles => "prefer_circle_primitives".toList
  | callDepth => "max_call_depth".toList
  | steps => "max_steps".toList

/-- The type of a setting as messages name it. -/
def typeName : Field → Text
  | circles => "bool".toList
  | _ => "int".toList

/-- The settings with one of them replaced by a JSON value of its type. -/
def set? (f : Field) (s : Settings) (value : Json) : Option Settings :=
  match f, value with
  | resolution, .int n => some { s with resolution := n }
  | indent, .int n => some { s with indent := n }
  | circles, .bool b => some { s with circles := b }
  | callDepth, .int n => some { s with callDepth := n }
  | steps, .int n => some { s with steps := n }
  | _, _ => none

/-- A setting as the file shows it. -/
def valueText (f : Field) (s : Settings) : Text :=
  match f with
  | resolution => Text.ofInt s.resolution
  | indent => Text.ofInt s.indent
  | circles => if s.circles then "true".toList else "false".toList
  | callDepth => Text.ofInt s.callDepth
  | steps => Text.ofInt s.steps

/-- Whether a setting can be written: its text may not have more digits than an integer may. -/
def isWritable (f : Field) (s : Settings) : Bool :=
  (f.valueText s).countP Char.isDigit ≤ Json.maxIntDigits

end Field

/-! ## Saving -/

/-- What stands in front of the value of a setting, from the end of the line before it on. -/
def Field.front (f : Field) : Text := ['\n', ' ', ' ', '"'] ++ f.key ++ ['"', ':', ' ']

/-- The value of a setting as it is written, if it can be. -/
def Field.valueText? (f : Field) (s : Settings) : Option Text :=
  if f.isWritable s then some (f.valueText s) else none

/-- The parts in which settings are written: each behind a mark, the brace that opens the object or a
comma, and then the brace that closes it. A value that cannot be written is a part without a text. -/
def settingParts (s : Settings) (mark : Char) : List Field → List (Option Text)
  | [] => [some "\n\x7d".toList]
  | f :: rest => some (mark :: f.front) :: f.valueText? s :: settingParts s ',' rest

/-- What is in a file after it was written, and whether it was written to the end. -/
structure Saved where
  file : Text
  complete : Bool
  deriving DecidableEq, Repr

/-- Writes parts one after the other, and stops at one that has no text. -/
def writeParts : List (Option Text) → Saved
  | [] => ⟨[], true⟩
  | none :: _ => ⟨[], false⟩
  | some part :: rest =>
    let saved := writeParts rest
    { saved with file := part ++ saved.file }

def Settings.saved (s : Settings) : Saved := writeParts (settingParts s '\x7b' Field.all)

/-- The file that saving leaves in place of the one before it. -/
def Settings.save (s : Settings) : Text := s.saved.file

/-! ## Loading -/

/-- What is reported when settings are loaded. -/
inductive SettingWarning where
  | unreadable (path : Text)
  | notAnObject (path : Text)
  | wrongType (field : Field) (value : Json)
  | outOfRange (field : Field) (fault : SettingFault)

def SettingWarning.message : SettingWarning → Text
  | unreadable path => "Could not read config ".toList ++ path ++ ", using defaults".toList
  | notAnObject path =>
    "Config ".toList ++ path ++ " is not a JSON object, using defaults".toList
  | wrongType field value =>
    "Ignoring config field ".toList ++ field.key ++ ": expected ".toList ++ field.typeName ++
      ", got ".toList ++ value.display
  | outOfRange field fault =>
    "Ignoring config field ".toList ++ field.key ++ ": ".toList ++ fault.message

/-- Takes one setting from the members of an object. -/
def Field.load (f : Field) (members : List (List Nat × Json)) (s : Settings) :
    Settings × List SettingWarning :=
  match Json.member? f.key members with
  | none => (s, [])
  | some value =>
    match f.set? s value with
    | none => (s, [.wrongType f value])
    | some changed =>
      match changed.fault? with
      | none => (changed, [])
      | some fault => (s, [.outOfRange f fault])

def loadFields (members : List (List Nat × Json)) :
    List Field → Settings → Settings × List SettingWarning
  | [], s => (s, [])
  | f :: rest, s =>
    let (s, warnings) := f.load members s
    let (s, more) := loadFields members rest s
    (s, warnings ++ more)

/-- The settings in the members of an object. -/
def Settings.ofMembers (members : List (List Nat × Json)) : Settings × List SettingWarning :=
  loadFields members Field.all .default

/-- The settings in a file that has been read, or not. -/
def Settings.load (path : Text) (content : Option Text) : Settings × List SettingWarning :=
  match content.bind Json.read? with
  | none => (.default, [.unreadable path])
  | some (.object members) => Settings.ofMembers members
  | some _ => (.default, [.notAnObject path])

end TurtleTrace
