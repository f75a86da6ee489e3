import TurtleTrace.Text.Basic
import TurtleTrace.Text.LowerCaseTable

/-!
# Lower case

The full lower case of a text. One letter becomes two characters (the dotted capital I), and the
capital sigma becomes the final small sigma at the end of a word.
-/

namespace TurtleTrace.Text

set_option autoImplicit false

/-- The lower case partner of a character, itself if it has none. -/
def lowerPartner (c : Char) : Char :=
  let n := c.toNat
  if n < 0x80 then
    if 0x41 ≤ n && n ≤ 0x5A then Char.ofNat (n + 32) else c
  else
    match capitalRuns.find? fun (first, last, stride, _) =>
        first ≤ n && n ≤ last && (n - first) % stride == 0 with
    | none => c
    | some (_, _, _, way) => Char.ofNat (n + way).toNat

/-- Whether a word goes on in this direction: the first character that is not looked through has
case. -/
def meetsCased (t : Text) : Bool :=
  match t.dropWhile fun c => caseIgnorable.holds c.toNat with
  | [] => false
  | c :: _ => cased.holds c.toNat

/-- The lower case of `c` between the text before it (nearest character first) and after it. -/
def lowerChar (before : Text) (c : Char) (after : Text) : Text :=
  if c = 'Σ' then
    if meetsCased before && !meetsCased after then ['ς'] else ['σ']
  else if c = 'İ' then ['i', Char.ofNat 0x307]
  else [lowerPartner c]

/-- The lower case of a text that follows `before`, nearest character first. -/
def lowerAfter (before : Text) : Text → Text
  | [] => []
  | c :: rest => lowerChar before c rest ++ lowerAfter (c :: before) rest

def lower (t : Text) : Text := lowerAfter [] t

end TurtleTrace.Text
