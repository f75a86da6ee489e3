import TurtleTrace.Text.Basic

/-!
# Settings

The five settings of a run, their ranges, and the first range that a value is out of.
-/

namespace TurtleTrace

set_option autoImplicit false

structure Settings where
  resolution : Int := 40
  indent : Int := 2
  circles : Bool := true
  callDepth : Int := 100
  steps : Int := 1000000
  deriving DecidableEq, Repr

def Settings.default : Settings := {}

/-- The greatest call depth that may be set. -/
def callDepthLimit : Int := 200

/-- A setting that is out of its range. -/
inductive SettingFault where
  | resolution (value : Int)
  | indent (value : Int)
  | callDepth (value : Int)
  | steps (value : Int)
  deriving DecidableEq, Repr

def SettingFault.message : SettingFault → Text
  | resolution value =>
    "arc_resolution_default must be at least 1, got ".toList ++ Text.ofInt value
  | indent value => "indent_spaces must not be negative, got ".toList ++ Text.ofInt value
  | callDepth value =>
    "max_call_depth must be between 1 and ".toList ++ Text.ofInt callDepthLimit ++
      ", got ".toList ++ Text.ofInt value
  | steps value => "max_steps must be at least 1, got ".toList ++ Text.ofInt value

/-- The first setting that is out of its range. -/
def Settings.fault? (s : Settings) : Option SettingFault :=
  if s.resolution < 1 then some (.resolution s.resolution)
  else if s.indent < 0 then some (.indent s.indent)
  else if s.callDepth < 1 ∨ callDepthLimit < s.callDepth then some (.callDepth s.callDepth)
  else if s.steps < 1 then some (.steps s.steps)
  else none

end TurtleTrace
