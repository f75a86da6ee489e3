import TurtleTrace.Json.Basic

/-!
# Reading JSON

The reader follows the grammar of JSON with three additions: the words `NaN`, `Infinity` and
`-Infinity` are numbers. Of members with the same key the last one counts. A text that starts with a
byte order mark is refused, and so is an integer of more than 4300 digits.
-/

namespace TurtleTrace.Json

set_option autoImplicit false

/-- A reader takes a value from the front of a text and hands on the rest. -/
abbrev Reader (α : Type) := Text → Option (α × Text)

def isSpace (c : Char) : Bool := c = ' ' || c = '\t' || c = '\n' || c = '\r'

def skipSpace (t : Text) : Text := t.dropWhile isSpace

/-- The text after a given word. -/
def after? : Text → Text → Option Text
  | [], t => some t
  | _ :: _, [] => none
  | c :: word, d :: t => if c = d then after? word t else none

/-! ## Strings -/

def hexValue? (c : Char) : Option Nat :=
  if '0' ≤ c ∧ c ≤ '9' then some (c.toNat - 48)
  else if 'a' ≤ c ∧ c ≤ 'f' then some (c.toNat - 87)
  else if 'A' ≤ c ∧ c ≤ 'F' then some (c.toNat - 55)
  else none

def unit? (a b c d : Char) : Option Nat :=
  match hexValue? a, hexValue? b, hexValue? c, hexValue? d with
  | some a, some b, some c, some d => some (((a * 16 + b) * 16 + c) * 16 + d)
  | _, _, _, _ => none

def escape? : Char → Option Nat
  | '"' => some 0x22
  | '\\' => some 0x5C
  | '/' => some 0x2F
  | 'b' => some 0x08
  | 'f' => some 0x0C
  | 'n' => some 0x0A
  | 'r' => some 0x0D
  | 't' => some 0x09
  | _ => none

/-- The rest of a string after its opening quote, each escape as one unit. -/
def readUnits : Reader (List Nat)
  | [] => none
  | '"' :: rest => some ([], rest)
  | '\\' :: 'u' :: a :: b :: c :: d :: rest =>
    match unit? a b c d, readUnits rest with
    | some n, some (units, rest) => some (n :: units, rest)
    | _, _ => none
  | '\\' :: c :: rest =>
    match escape? c, readUnits rest with
    | some n, some (units, rest) => some (n :: units, rest)
    | _, _ => none
  | c :: rest =>
    if c = '\\' ∨ c.toNat < 0x20 then none
    else (readUnits rest).map fun (units, rest) => (c.toNat :: units, rest)

/-- Joins each pair of a high and a low surrogate. -/
def joinPairs : List Nat → List Nat
  | [] => []
  | [n] => [n]
  | high :: low :: rest =>
    if 0xD800 ≤ high ∧ high < 0xDC00 ∧ 0xDC00 ≤ low ∧ low < 0xE000 then
      (0x10000 + (high - 0xD800) * 0x400 + (low - 0xDC00)) :: joinPairs rest
    else high :: joinPairs (low :: rest)

def readString : Reader (List Nat) := fun t =>
  (readUnits t).map fun (units, rest) => (joinPairs units, rest)

/-! ## Numbers -/

def asciiDigits (t : Text) : List Nat × Text :=
  ((t.takeWhile Char.isDigit).map fun c => c.toNat - 48, t.dropWhile Char.isDigit)

/-- A point with at least one digit after it, or nothing. -/
def readFraction : Text → Option (List Nat) × Text
  | '.' :: rest =>
    match asciiDigits rest with
    | ([], _) => (none, '.' :: rest)
    | (digits, rest) => (some digits, rest)
  | t => (none, t)

/-- An exponent with an optional sign, or nothing. -/
def readExponent (t : Text) : Option Int × Text :=
  match t with
  | [] => (none, t)
  | mark :: rest =>
    if mark = 'e' ∨ mark = 'E' then
      let (negative, digits) :=
        match rest with
        | '-' :: digits => (true, digits)
        | '+' :: digits => (false, digits)
        | digits => (false, digits)
      match asciiDigits digits with
      | ([], _) => (none, t)
      | (digits, rest) =>
        let size : Int := digitsValue digits
        (some (if negative then -size else size), rest)
    else (none, t)

/-- The most digits of an integer. -/
def maxIntDigits : Nat := 4300

/-- A number whose sign has been read and whose whole part is `whole`. -/
def finishNumber (negative : Bool) (whole : List Nat) (t : Text) : Option (Json × Text) :=
  let (fraction, t) := readFraction t
  let (exponent, t) := readExponent t
  if fraction.isNone && exponent.isNone then
    if maxIntDigits < whole.length then none
    else
      let size : Int := digitsValue whole
      some (int (if negative then -size else size), t)
  else
    let fraction := fraction.getD []
    let size := ofDecimal (digitsValue (whole ++ fraction)) (exponent.getD 0 - fraction.length)
    some (real (if negative then -size else size), t)

def readSize (negative : Bool) : Reader Json
  | '0' :: rest => finishNumber negative [0] rest
  | t =>
    match asciiDigits t with
    | ([], _) => none
    | (digits, rest) => finishNumber negative digits rest

def readNumber : Reader Json
  | '-' :: 'I' :: rest => (after? "nfinity".toList rest).map fun rest => (real (-1 / 0), rest)
  | '-' :: rest => readSize true rest
  | t => readSize false t

/-! ## Values -/

/-- The items of an array after its bracket or a comma; the number bounds them. -/
def readItems (value : Reader Json) : Nat → Reader (List Json)
  | 0, _ => none
  | n + 1, t =>
    match value (skipSpace t) with
    | none => none
    | some (item, rest) =>
      match skipSpace rest with
      | ']' :: rest => some ([item], rest)
      | ',' :: rest => (readItems value n rest).map fun (items, rest) => (item :: items, rest)
      | _ => none

/-- The members of an object after its brace or a comma, added to those before. -/
def readMembers (value : Reader Json) :
    Nat → List (List Nat × Json) → Reader (List (List Nat × Json))
  | 0, _, _ => none
  | n + 1, before, t =>
    match skipSpace t with
    | '"' :: rest =>
      match readString rest with
      | none => none
      | some (key, rest) =>
        match skipSpace rest with
        | ':' :: rest =>
          match value (skipSpace rest) with
          | none => none
          | some (item, rest) =>
            let members := put key item before
            match skipSpace rest with
            | '\x7d' :: rest => some (members, rest)
            | ',' :: rest => readMembers value n members rest
            | _ => none
        | _ => none
    | _ => none

/-- A value with at most `bound` levels of nesting. -/
def readValue : (bound : Nat) → Reader Json
  | 0, _ => none
  | bound + 1, t =>
    match t with
    | [] => none
    | '"' :: rest => (readString rest).map fun (points, rest) => (string points, rest)
    | '[' :: rest =>
      match skipSpace rest with
      | ']' :: rest => some (array [], rest)
      | rest => (readItems (readValue bound) bound rest).map fun (items, rest) => (array items, rest)
    | '\x7b' :: rest =>
      match skipSpace rest with
      | '\x7d' :: rest => some (object [], rest)
      | rest =>
        (readMembers (readValue bound) bound [] rest).map fun (members, rest) =>
          (object members, rest)
    | 'n' :: rest => (after? "ull".toList rest).map fun rest => (null, rest)
    | 't' :: rest => (after? "rue".toList rest).map fun rest => (bool true, rest)
    | 'f' :: rest => (after? "alse".toList rest).map fun rest => (bool false, rest)
    | 'N' :: rest => (after? "aN".toList rest).map fun rest => (real (0 / 0), rest)
    | 'I' :: rest => (after? "nfinity".toList rest).map fun rest => (real (1 / 0), rest)
    | t => readNumber t

/-- Reads a whole text as one value. -/
def read? (t : Text) : Option Json :=
  match readValue (t.length + 1) (skipSpace t) with
  | some (value, rest) => if (skipSpace rest).isEmpty then some value else none
  | none => none

end TurtleTrace.Json
