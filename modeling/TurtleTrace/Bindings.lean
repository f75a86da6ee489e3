import TurtleTrace.Sorting
import TurtleTrace.Text.LowerCase

/-!
# Bindings

The variables of a run. A name is looked up in lower case; it holds a number or an instruction list,
which is script text that is read when it runs.
-/

namespace TurtleTrace

set_option autoImplicit false

inductive Value where
  | number (v : Float)
  | list (text : Text)
  deriving DecidableEq, Repr

/-- Why a variable cannot be read; the name is in lower case. -/
inductive LookupFault where
  | undefined (name : Text)
  | listAsNumber (name : Text)
  | numberAsList (name : Text)
  deriving DecidableEq, Repr

def LookupFault.message : LookupFault → Text
  | undefined name => "Undefined variable: ".toList ++ name
  | listAsNumber name =>
    "Cannot use instruction list variable :".toList ++ name ++ " in numeric expression".toList
  | numberAsList name => "Variable :".toList ++ name ++ " is not an instruction list".toList

/-- Names in lower case with their values, each name once. -/
structure Bindings where
  entries : List (Text × Value) := []
  deriving DecidableEq, Repr

namespace Bindings

def empty : Bindings := {}

/-- Replaces the value of a key in place, or adds the key at the end. -/
def put (key : Text) (value : Value) : List (Text × Value) → List (Text × Value)
  | [] => [(key, value)]
  | (k, v) :: rest => if k = key then (k, value) :: rest else (k, v) :: put key value rest

def set (b : Bindings) (name : Text) (value : Value) : Bindings :=
  ⟨put (Text.lower name) value b.entries⟩

def find? (b : Bindings) (name : Text) : Option Value := b.entries.lookup (Text.lower name)

def defines (b : Bindings) (name : Text) : Bool := (b.find? name).isSome

def get (b : Bindings) (name : Text) : Except LookupFault Value :=
  match b.find? name with
  | none => .error (.undefined (Text.lower name))
  | some value => .ok value

def number (b : Bindings) (name : Text) : Except LookupFault Float :=
  match b.find? name with
  | none => .error (.undefined (Text.lower name))
  | some (.number v) => .ok v
  | some (.list _) => .error (.listAsNumber (Text.lower name))

def list (b : Bindings) (name : Text) : Except LookupFault Text :=
  match b.find? name with
  | none => .error (.undefined (Text.lower name))
  | some (.list text) => .ok text
  | some (.number _) => .error (.numberAsList (Text.lower name))

/-- The order of texts by code points. -/
def textUpTo : Text → Text → Bool
  | [], _ => true
  | _ :: _, [] => false
  | c :: s, d :: t => c.toNat < d.toNat || (c == d && textUpTo s t)

/-- The bindings by name. -/
def sorted (b : Bindings) : List (Text × Value) :=
  sortBy (fun x y => textUpTo x.1 y.1) b.entries

theorem lookup_put_self (key : Text) (value : Value) (entries : List (Text × Value)) :
    (put key value entries).lookup key = some value := by
  induction entries with
  | nil => simp [put]
  | cons entry rest ih =>
    obtain ⟨k, v⟩ := entry
    by_cases h : k = key
    · simp [put, h]
    · have hk : (key == k) = false := by simpa using fun hkey => h hkey.symm
      simp [put, h, List.lookup_cons, hk, ih]

theorem find?_set_self (b : Bindings) (name : Text) (value : Value) :
    (b.set name value).find? name = some value :=
  lookup_put_self _ _ _

end Bindings

end TurtleTrace
