/-!
# Texts

A text is a list of characters, so that positions count characters and every reader is a recursion
on the list. This file holds what the other modules share: splitting at a character, joining with a
separator, the decimal numerals of integers, blanks, and sets of characters.
-/

namespace TurtleTrace

set_option autoImplicit false

abbrev Text := List Char

namespace Text

/-! ## Cutting and joining -/

/-- The parts between the occurrences of `mark`; a text without `mark` is its only part. -/
def splitAt (mark : Char) : Text → List Text
  | [] => [[]]
  | c :: rest =>
    if c = mark then [] :: splitAt mark rest
    else
      match splitAt mark rest with
      | [] => [[c]]
      | part :: parts => (c :: part) :: parts

/-- The lines of a text, cut at every line feed. -/
def lines (t : Text) : List Text := splitAt '\n' t

/-- The parts in order with `glue` between neighbours. -/
def join (glue : Text) : List Text → Text
  | [] => []
  | [part] => part
  | part :: parts => part ++ glue ++ join glue parts

/-- How many line feeds a text holds. -/
def newlines (t : Text) : Nat := t.count '\n'

/-- Whether the first character is `c`. -/
def startsWith (c : Char) (t : Text) : Bool := t.head? == some c

/-- The part before the first `c` and the rest from it on; `none` if `c` does not occur. -/
def cutBefore (c : Char) : Text → Option (Text × Text)
  | [] => none
  | d :: rest =>
    if d = c then some ([], d :: rest)
    else (cutBefore c rest).map fun (before, after) => (d :: before, after)

theorem cutBefore_append {c : Char} {t before after : Text}
    (h : cutBefore c t = some (before, after)) : before ++ after = t := by
  induction t generalizing before after with
  | nil => simp [cutBefore] at h
  | cons d rest ih =>
    by_cases hd : d = c
    · simp only [cutBefore, hd, if_true, Option.some.injEq, Prod.mk.injEq] at h
      simp [← h.1, ← h.2, hd]
    · simp only [cutBefore, hd, if_false, Option.map_eq_some_iff, Prod.mk.injEq] at h
      obtain ⟨⟨b, a⟩, hr, hb, ha⟩ := h
      simp only at hb ha
      rw [← hb, ← ha, List.cons_append, ih hr]

/-! ## Numerals -/

def ofNat (n : Nat) : Text := Nat.toDigits 10 n

def ofInt : Int → Text
  | .ofNat n => ofNat n
  | .negSucc n => '-' :: ofNat (n + 1)

/-- The numeral of `n` filled up with zeros in front to at least `width` places. -/
def padded (width n : Nat) : Text :=
  let digits := ofNat n
  List.replicate (width - digits.length) '0' ++ digits

end Text

/-! ## Blanks -/

/-- The characters that separate words and may be cut from the ends of a text: the spaces, the line and
paragraph ends, and the four information separators U+001C to U+001F. -/
def isBlank (c : Char) : Bool :=
  let n := c.toNat
  (9 ≤ n && n ≤ 13) || (28 ≤ n && n ≤ 32) || n == 0x85 || n == 0xA0 || n == 0x1680 ||
    (0x2000 ≤ n && n ≤ 0x200A) || n == 0x2028 || n == 0x2029 || n == 0x202F || n == 0x205F ||
    n == 0x3000

namespace Text

def trimLeft (t : Text) : Text := t.dropWhile isBlank

def trimRight (t : Text) : Text := (t.reverse.dropWhile isBlank).reverse

/-- A text without the blanks at its two ends. -/
def trim (t : Text) : Text := trimRight (trimLeft t)

/-- The last word of a text that does not end in a blank, and all that stands before it. -/
def cutLastWord (t : Text) : Text × Text :=
  ((t.reverse.dropWhile (fun c => !isBlank c)).reverse,
    (t.reverse.takeWhile (fun c => !isBlank c)).reverse)

end Text

/-! ## Sets of characters -/

/-- A set of code points as an ascending list of marks: the set starts at the first, stops before the
second, starts again at the third, and so on. -/
abbrev Ranges := List Nat

/-- Whether `n` lies in the set that the marks describe. -/
def Ranges.holds : Ranges → Nat → Bool
  | start :: stop :: rest, n => if n < start then false else n < stop || Ranges.holds rest n
  | [start], n => start ≤ n
  | [], _ => false

end TurtleTrace
