import TurtleTrace.Number.Shortest
import TurtleTrace.Text.Quoted

/-!
# JSON values

Integers and other numbers are apart, a string is a row of code points (an escape can write half of a
pair), and an object keeps its members in the order in which their keys first came.
-/

namespace TurtleTrace

set_option autoImplicit false

inductive Json where
  | null
  | bool (b : Bool)
  | int (n : Int)
  | real (v : Float)
  | string (points : List Nat)
  | array (items : List Json)
  | object (members : List (List Nat × Json))

namespace Json

/-- The code points of a text. -/
def points (t : Text) : List Nat := t.map Char.toNat

/-- Replaces the value of a key in place, or adds the key at the end. -/
def put (key : List Nat) (value : Json) : List (List Nat × Json) → List (List Nat × Json)
  | [] => [(key, value)]
  | (k, v) :: rest => if k = key then (k, value) :: rest else (k, v) :: put key value rest

/-- The member of an object under a key. -/
def member? (key : Text) (members : List (List Nat × Json)) : Option Json :=
  members.lookup (points key)

mutual

/-- A value as messages show it. -/
def display : Json → Text
  | null => "None".toList
  | bool true => "True".toList
  | bool false => "False".toList
  | int n => Text.ofInt n
  | real v => shortest v
  | string points => Text.quoted points
  | array items => '[' :: displayItems items ++ [']']
  | object members => '\x7b' :: displayMembers members ++ ['\x7d']

def displayItems : List Json → Text
  | [] => []
  | [item] => display item
  | item :: items => display item ++ ", ".toList ++ displayItems items

def displayMembers : List (List Nat × Json) → Text
  | [] => []
  | [(key, value)] => Text.quoted key ++ ": ".toList ++ display value
  | (key, value) :: rest =>
    Text.quoted key ++ ": ".toList ++ display value ++ ", ".toList ++ displayMembers rest

end

end Json

end TurtleTrace
