import TurtleTrace.Bindings
import TurtleTrace.Number.Power
import TurtleTrace.Number.Scientific
import TurtleTrace.Expr.Basic

/-!
# Evaluating expressions

The value of an expression under bindings, or the first fault from left to right. Sums, differences
and products may leave the finite numbers; a script may only use a value that has not, and
`evaluate` checks that.
-/

namespace TurtleTrace

set_option autoImplicit false

inductive EvalFault where
  | lookup (fault : LookupFault)
  | unknownFunction (name : Text)
  | functionDomain (f : Function) (argument : Float)
  | functionOverflow (f : Function)
  | divisionByZero
  | powerDomain (base exponent : Float)
  | powerOverflow (base exponent : Float)
  | unknownOperator (sign : Text)
  | notFinite
  deriving DecidableEq, Repr

/-- The name of a function as messages show it. -/
def Function.title (f : Function) : Text := f.name.map Char.toUpper

def EvalFault.message : EvalFault → Text
  | lookup fault => fault.message
  | unknownFunction name => "Unknown function: ".toList ++ name
  | functionDomain f argument =>
    "Math domain error: ".toList ++ f.title ++ ' ' :: general argument
  | functionOverflow f => "Numeric overflow in ".toList ++ f.title
  | divisionByZero => "Division by zero".toList
  | powerDomain base exponent =>
    "Math domain error: ".toList ++ general base ++ " ^ ".toList ++ general exponent
  | powerOverflow base exponent =>
    "Numeric overflow in ".toList ++ general base ++ " ^ ".toList ++ general exponent
  | unknownOperator sign => "Unknown operator: ".toList ++ sign
  | notFinite => "Expression result is not a finite number".toList

/-- The value of a function, where it has one. -/
def Function.value (f : Function) (x : Float) : Except EvalFault Float :=
  match f with
  | .sqrt => if x < 0 then .error (.functionDomain f x) else .ok x.sqrt
  | .ln => if x ≤ 0 then .error (.functionDomain f x) else .ok x.log
  | .log10 => if x ≤ 0 then .error (.functionDomain f x) else .ok x.log10
  | .exp =>
    let y := x.exp
    if y.isInf && x.isFinite then .error (.functionOverflow f) else .ok y
  | .other name => .error (.unknownFunction name)

/-- The value of an operator, where it has one. -/
def Operator.value (op : Operator) (x y : Float) : Except EvalFault Float :=
  match op with
  | .add => .ok (x + y)
  | .sub => .ok (x - y)
  | .mul => .ok (x * y)
  | .div => if y == 0 then .error .divisionByZero else .ok (x / y)
  | .pow =>
    match power x y with
    | .ok v => .ok v
    | .error .zeroToNegative => .error .divisionByZero
    | .error .notReal => .error (.powerDomain x y)
    | .error .tooLarge => .error (.powerOverflow x y)
  | .other sign => .error (.unknownOperator sign)

namespace Expr

def eval (b : Bindings) : Expr → Except EvalFault Float
  | number v => .ok v
  | var name =>
    match b.number name with
    | .ok v => .ok v
    | .error fault => .error (.lookup fault)
  | negate e =>
    match e.eval b with
    | .ok v => .ok (-v)
    | .error fault => .error fault
  | apply f e =>
    match e.eval b with
    | .ok v => f.value v
    | .error fault => .error fault
  | binary op l r =>
    match l.eval b with
    | .error fault => .error fault
    | .ok x =>
      match r.eval b with
      | .error fault => .error fault
      | .ok y => op.value x y

/-- The value of an expression that a script may use: it has to be finite. -/
def evaluate (b : Bindings) (e : Expr) : Except EvalFault Float :=
  match e.eval b with
  | .error fault => .error fault
  | .ok v => if v.isFinite then .ok v else .error .notFinite

theorem isFinite_of_evaluate {b : Bindings} {e : Expr} {v : Float}
    (h : e.evaluate b = .ok v) : v.isFinite = true := by
  unfold evaluate at h
  split at h
  · cases h
  · split at h
    · cases h; assumption
    · cases h

end Expr

end TurtleTrace
