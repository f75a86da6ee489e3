import TurtleTrace.Json.Reader
import TurtleTrace.Proofs.Number.Numeral

/-!
# What the JSON reader makes of written values

A string without escapes is read as it stands, and the numeral of an integer as the integer, unless it
has too many digits.
-/

namespace TurtleTrace.Json

set_option autoImplicit false

/-! ## Strings -/

/-- No character is half of a pair. -/
theorem joinPairs_points (t : Text) : joinPairs (points t) = points t := by
  induction t with
  | nil => rfl
  | cons c t ih =>
    cases t with
    | nil => rfl
    | cons d t =>
      have hsingle : ¬ (0xD800 ≤ c.toNat ∧ c.toNat < 0xDC00 ∧ 0xDC00 ≤ d.toNat ∧ d.toNat < 0xE000) := by
        have hvalid : c.toNat < 0xD800 ∨ 0xDFFF < c.toNat := by
          obtain h | ⟨h, -⟩ := c.valid
          · exact .inl h
          · exact .inr h
        omega
      show joinPairs (c.toNat :: d.toNat :: points t) = c.toNat :: points (d :: t)
      rw [joinPairs, if_neg hsingle, ← ih]
      rfl

/-- Whether a character stands for itself in a string. -/
def isLiteral (c : Char) : Bool := c ≠ '"' && c ≠ '\\' && 0x20 ≤ c.toNat

theorem readUnits_append {w : Text} (h : ∀ c ∈ w, isLiteral c) (rest : Text) :
    readUnits (w ++ '"' :: rest) = some (points w, rest) := by
  induction w with
  | nil => rfl
  | cons c w ih =>
    obtain ⟨hc, hw⟩ := List.forall_mem_cons.mp h
    simp only [isLiteral, Bool.and_eq_true, decide_eq_true_eq] at hc
    obtain ⟨⟨hquote, hescape⟩, hcontrol⟩ := hc
    rw [List.cons_append, readUnits, ih hw, if_neg]
    · rfl
    · simp only [hescape, false_or]
      omega
    · exact hquote
    · exact fun _ _ _ _ _ he => absurd he hescape
    · exact fun _ _ he => absurd he hescape

theorem readString_append {w : Text} (h : ∀ c ∈ w, isLiteral c) (rest : Text) :
    readString (w ++ '"' :: rest) = some (points w, rest) := by
  rw [readString, readUnits_append h, Option.map_some]
  exact congrArg (fun units => some (units, rest)) (joinPairs_points w)

/-! ## Integers -/

/-- A text does not go on with a part of a number. -/
def EndsNumber (t : Text) : Prop := ∀ c ∈ t.head?, c.isDigit = false ∧ c ∉ ['.', 'e', 'E']

theorem asciiDigits_append {t rest : Text} (ht : ∀ c ∈ t, c.isDigit) (hrest : EndsNumber rest) :
    asciiDigits (t ++ rest) = (t.map asciiValue, rest) := by
  have hstop : rest.takeWhile Char.isDigit = [] ∧ rest.dropWhile Char.isDigit = rest := by
    cases rest with
    | nil => exact ⟨rfl, rfl⟩
    | cons c rest =>
      have hc : ¬ c.isDigit = true := by simp [(hrest c rfl).1]
      exact ⟨List.takeWhile_cons_of_neg hc, List.dropWhile_cons_of_neg hc⟩
  rw [asciiDigits, List.takeWhile_append_of_pos ht, List.dropWhile_append_of_pos ht, hstop.1, hstop.2,
    List.append_nil]
  rfl

theorem finishNumber_of_ends (negative : Bool) (whole : List Nat) {rest : Text}
    (h : EndsNumber rest) :
    finishNumber negative whole rest =
      if maxIntDigits < whole.length then none
      else some (int (if negative then -(digitsValue whole) else digitsValue whole), rest) := by
  have hfraction : readFraction rest = (none, rest) := by
    unfold readFraction
    split
    · exact absurd (h _ rfl).2 (by decide)
    · rfl
  have hexponent : readExponent rest = (none, rest) := by
    unfold readExponent
    split
    · rfl
    · rename_i mark more
      have hmark := (h mark rfl).2
      rw [if_neg fun hm => hmark (by obtain rfl | rfl := hm <;> decide)]
  unfold finishNumber
  simp only [hfraction, hexponent]
  rfl

theorem readSize_ofNat (negative : Bool) (n : Nat) {rest : Text} (h : EndsNumber rest) :
    readSize negative (Text.ofNat n ++ rest) =
      if maxIntDigits < (Text.ofNat n).length then none
      else some (int (if negative then -n else n), rest) := by
  have hfinish := finishNumber_of_ends negative ((Text.ofNat n).map asciiValue) h
  rw [Text.digitsValue_ofNat, List.length_map] at hfinish
  rw [← hfinish]
  obtain ⟨c, more, hn⟩ := List.exists_cons_of_ne_nil (Text.ofNat_ne_nil n)
  unfold readSize
  split
  · rename_i _ after hzero
    have hhead : (Text.ofNat n).head? = some '0' := by
      rw [hn, List.cons_append] at hzero
      rw [hn, (List.cons.inj hzero).1, List.head?_cons]
    rw [Text.ofNat_of_head? hhead] at hzero ⊢
    obtain rfl : rest = after := (List.cons.inj hzero).2
    rfl
  · rw [asciiDigits_append (Text.isDigit_ofNat n) h, hn]
    rfl

theorem exists_cons_ofNat (n : Nat) (rest : Text) :
    ∃ c more, Text.ofNat n ++ rest = c :: more ∧ c.isDigit := by
  obtain ⟨c, more, hn⟩ := List.exists_cons_of_ne_nil (Text.ofNat_ne_nil n)
  exact ⟨c, more ++ rest, by rw [hn, List.cons_append],
    Text.isDigit_ofNat n c (by rw [hn]; exact List.mem_cons_self)⟩

/-- The numeral of an integer is read as the integer, unless it has too many digits. -/
theorem readNumber_ofInt (n : Int) {rest : Text} (h : EndsNumber rest) :
    readNumber (Text.ofInt n ++ rest) =
      if maxIntDigits < (Text.ofNat n.natAbs).length then none else some (int n, rest) := by
  cases n with
  | ofNat n =>
    have hsize := readSize_ofNat false n h
    obtain ⟨c, more, hn, hc⟩ := exists_cons_ofNat n rest
    have hminus : c ≠ '-' := by
      rintro rfl
      revert hc
      decide
    refine Eq.trans ?_ hsize
    show readNumber (Text.ofNat n ++ rest) = _
    rw [hn, readNumber]
    · exact fun _ heq => hminus (List.cons.inj heq).1
    · exact fun _ heq => hminus (List.cons.inj heq).1
  | negSucc n =>
    have hsize := readSize_ofNat true (n + 1) h
    obtain ⟨c, more, hn, hc⟩ := exists_cons_ofNat (n + 1) rest
    have hinfinity : c ≠ 'I' := by
      rintro rfl
      revert hc
      decide
    refine Eq.trans ?_ hsize
    show readNumber ('-' :: (Text.ofNat (n + 1) ++ rest)) = _
    rw [hn, readNumber]
    exact fun _ heq => hinfinity (List.cons.inj heq).1

/-- The numeral of an integer starts with a sign or a digit. -/
theorem exists_cons_ofInt (n : Int) (rest : Text) :
    ∃ c more, Text.ofInt n ++ rest = c :: more ∧ (c = '-' ∨ c.isDigit) := by
  cases n with
  | ofNat n =>
    obtain ⟨c, more, hn, hc⟩ := exists_cons_ofNat n rest
    exact ⟨c, more, hn, .inr hc⟩
  | negSucc n => exact ⟨'-', _, rfl, .inl rfl⟩

theorem skipSpace_ofInt (n : Int) (rest : Text) :
    skipSpace (' ' :: (Text.ofInt n ++ rest)) = Text.ofInt n ++ rest := by
  obtain ⟨c, more, hn, hc⟩ := exists_cons_ofInt n rest
  have hspace : ¬ isSpace c = true := by
    intro hspace
    simp only [isSpace, Bool.or_eq_true, decide_eq_true_eq] at hspace
    obtain ((rfl | rfl) | rfl) | rfl := hspace <;> revert hc <;> decide
  rw [hn]
  exact List.dropWhile_cons_of_neg hspace

theorem readValue_ofInt (bound : Nat) (n : Int) {rest : Text} (h : EndsNumber rest) :
    readValue (bound + 1) (Text.ofInt n ++ rest) =
      if maxIntDigits < (Text.ofNat n.natAbs).length then none else some (int n, rest) := by
  rw [← readNumber_ofInt n h]
  obtain ⟨c, more, hn, hc⟩ := exists_cons_ofInt n rest
  have hother : c ∉ ['"', '[', '\x7b', 'n', 't', 'f', 'N', 'I'] := by
    intro hmem
    simp only [List.mem_cons, List.not_mem_nil, or_false] at hmem
    obtain rfl | rfl | rfl | rfl | rfl | rfl | rfl | rfl := hmem <;> revert hc <;> decide
  rw [hn, readValue]
  · exact List.cons_ne_nil c more
  all_goals
    intro _ heq
    cases heq
    exact hother (by decide)

/-- An object with a member is read member by member. -/
theorem readValue_object (bound : Nat) {t more : Text} (h : skipSpace t = '"' :: more) :
    readValue (bound + 1) ('\x7b' :: t) =
      (readMembers (readValue bound) bound [] t).map fun (members, rest) => (object members, rest) := by
  have hquote : skipSpace ('"' :: more) = '"' :: more := rfl
  have hmembers : readMembers (readValue bound) bound [] ('"' :: more) =
      readMembers (readValue bound) bound [] t := by
    cases bound with
    | zero => rfl
    | succ bound => simp only [readMembers, h, hquote]
  rw [← hmembers]
  simp only [readValue, h]
  rfl

/-- A whole text is one value with nothing but space behind it. -/
theorem read?_eq_bind (t : Text) :
    read? t = (readValue (t.length + 1) (skipSpace t)).bind fun read =>
      if (skipSpace read.2).isEmpty then some read.1 else none := by
  unfold read?
  cases readValue (t.length + 1) (skipSpace t) <;> rfl

end TurtleTrace.Json
