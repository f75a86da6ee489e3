import Mathlib.Data.List.Chain
import TurtleTrace.Script.Brackets
import TurtleTrace.Proofs.Expr.Reference

/-!
# Written expressions

Expressions as they are written out in full: blanks between all tokens, and parentheses around every
operand that has parts of its own. Such a text can be read back, and it keeps to itself: it holds no
comment, no bracket and no separator, and its parentheses match, so that it can stand as an argument
between others.

* `isPlain`: the characters of names and numbers.
* `Expr.Written`: the texts that write a tree.
* `Phrase`: the shape of these texts.
-/

namespace TurtleTrace

set_option autoImplicit false

/-! ## Words -/

/-- Whether a character can stand anywhere in a name: it is neither a blank nor one of the seven signs,
and it does not end an argument or open a comment. -/
def isPlain (c : Char) : Bool :=
  !isBlank c && (Sign.ofChar? c).isNone && c ∉ ['[', ']', ',', ';', '#']

/-- The names of variables and stored lists. -/
structure IsName (name : Text) : Prop where
  nonempty : name ≠ []
  lowerCase : Text.lower name = name
  plain : ∀ c ∈ name, isPlain c

theorem isPlain_of_zeros : ∀ first ∈ zeros, ∀ d < 10, isPlain (Char.ofNat (first + d)) := by
  decide +kernel

theorem isPlain_of_isDigit {c : Char} (h : isDigit c) : isPlain c := by
  have hrange : ∃ first ∈ zeros, first ≤ c.toNat ∧ c.toNat < first + 10 := by
    obtain ⟨d, hd⟩ := Option.isSome_iff_exists.mp h
    by_cases hn : c.toNat < 0x80
    · simp only [digitValue?, hn, if_true, Option.ite_none_right_eq_some, Bool.and_eq_true,
        decide_eq_true_eq] at hd
      exact ⟨0x30, by decide, by omega, by omega⟩
    · simp only [digitValue?, hn, if_false] at hd
      obtain ⟨first, hfirst, hd⟩ := List.exists_of_findSome?_eq_some hd
      rw [Option.ite_none_right_eq_some] at hd
      exact ⟨first, hfirst, hd.1⟩
  obtain ⟨first, hfirst, hle, hlt⟩ := hrange
  have hplain := isPlain_of_zeros first hfirst (c.toNat - first) (by omega)
  rwa [Nat.add_sub_cancel' hle, Char.ofNat_toNat] at hplain

theorem IsDigits.plain {t : Text} {digits : List Nat} (h : IsDigits t digits) :
    ∀ c ∈ t, isPlain c := by
  intro c hc
  have hvalue : digitValue? c ∈ digits.map some := by
    rw [← h]
    exact List.mem_map_of_mem hc
  obtain ⟨d, -, hd⟩ := List.mem_map.mp hvalue
  exact isPlain_of_isDigit (by rw [isDigit, ← hd]; rfl)

theorem plain_append {s t : Text} (hs : ∀ c ∈ s, isPlain c) (ht : ∀ c ∈ t, isPlain c) :
    ∀ c ∈ s ++ t, isPlain c := by
  intro c hc
  obtain hc | hc := List.mem_append.mp hc
  · exact hs c hc
  · exact ht c hc

theorem plain_cons {d : Char} {t : Text} (hd : isPlain d) (ht : ∀ c ∈ t, isPlain c) :
    ∀ c ∈ d :: t, isPlain c :=
  List.forall_mem_cons.mpr ⟨hd, ht⟩

theorem IsExponent.plain {t : Text} {digits : List Nat} (h : IsExponent t digits) :
    ∀ c ∈ t, isPlain c := by
  obtain ⟨rfl, -⟩ | ⟨mark, w, hmark, rfl, hw, -⟩ := h
  · exact List.forall_mem_nil _
  · refine plain_cons ?_ hw.plain
    obtain rfl | rfl := hmark <;> decide

/-- The literals of numbers are plain. -/
theorem Literal.Spells.plain {t : Text} {l : Literal} (h : Literal.Spells t l) :
    ∀ c ∈ t, isPlain c := by
  cases h with
  | whole digits _ exp => exact plain_append digits.plain exp.plain
  | point digits _ places exp =>
    exact plain_append digits.plain (plain_cons (by decide) (plain_append places.plain exp.plain))
  | places places _ exp => exact plain_cons (by decide) (plain_append places.plain exp.plain)

/-! ## Texts of trees -/

theorem Function.lower_name {f : Function} (h : f ∈ [.sqrt, .ln, .exp, .log10]) :
    Text.lower f.name = f.name := by
  simp only [List.mem_cons, List.not_mem_nil, or_false] at h
  obtain rfl | rfl | rfl | rfl := h <;> decide +kernel

theorem Function.plain_name {f : Function} (h : f ∈ [.sqrt, .ln, .exp, .log10]) :
    f.name ≠ [] ∧ ∀ c ∈ f.name, isPlain c := by
  simp only [List.mem_cons, List.not_mem_nil, or_false] at h
  obtain rfl | rfl | rfl | rfl := h <;> exact ⟨by decide, List.all_eq_true.mp (by decide)⟩

namespace Expr

theorem Word.Spells.plain_of_literal {letters : Text} {value : Float}
    (h : Word.Spells letters (.literal value)) : letters ≠ [] ∧ ∀ c ∈ letters, isPlain c := by
  cases h with
  | literal pattern _ =>
    obtain ⟨c, rest, rfl, -⟩ := pattern.exists_cons
    exact ⟨List.cons_ne_nil c rest, pattern.plain⟩

theorem plain_reference {name : Text} (h : IsName name) : ∀ c ∈ ':' :: name, isPlain c :=
  plain_cons (by decide) h.plain

/-- The text writes the tree: as an atom, or as a sum, whose operands are then atoms. -/
inductive Written : Level → Text → Expr → Prop where
  | literal {letters : Text} {value : Float} (spells : Word.Spells letters (.literal value)) :
      Written .atom letters (.number value)
  | reference {name : Text} (isName : IsName name) : Written .atom (':' :: name) (.var name)
  | parens {t : Text} {e : Expr} (inside : Written .sum t e) :
      Written .atom ('(' :: ' ' :: (t ++ [' ', ')'])) e
  | ofAtom {t : Text} {e : Expr} (atom : Written .atom t e) : Written .sum t e
  | negate {t : Text} {e : Expr} (operand : Written .atom t e) :
      Written .sum ('-' :: ' ' :: t) (.negate e)
  | binary {op : Operator} {s t : Text} {l r : Expr} (known : op ∈ [.add, .sub, .mul, .div, .pow])
      (left : Written .atom s l) (right : Written .atom t r) :
      Written .sum (s ++ ' ' :: (op.sign ++ ' ' :: t)) (.binary op l r)
  | apply {f : Function} {t : Text} {e : Expr} (known : f ∈ [.sqrt, .ln, .exp, .log10])
      (argument : Written .atom t e) : Written .sum (f.name ++ ' ' :: t) (.apply f e)

end Expr

/-! ## Phrases -/

/-- Words and operators with a blank between neighbours, and matching parentheses. -/
inductive Phrase : Text → Prop where
  | word {w : Text} (nonempty : w ≠ []) (plain : ∀ c ∈ w, isPlain c) : Phrase w
  | operator {c : Char} (known : c ∈ ['+', '-', '*', '/', '^']) : Phrase [c]
  | parens {t : Text} (inside : Phrase t) : Phrase ('(' :: ' ' :: (t ++ [' ', ')']))
  | append {s t : Text} (first : Phrase s) (second : Phrase t) : Phrase (s ++ ' ' :: t)

theorem Expr.Written.phrase {level : Level} {t : Text} {e : Expr} (h : Written level t e) :
    Phrase t := by
  induction h with
  | literal spells => exact .word spells.plain_of_literal.1 spells.plain_of_literal.2
  | reference isName => exact .word (List.cons_ne_nil _ _) (plain_reference isName)
  | parens _ ih => exact .parens ih
  | ofAtom _ ih => exact ih
  | negate _ ih => exact .append (.operator (by decide)) ih
  | binary known _ _ hleft hright =>
    refine .append hleft (.append ?_ hright)
    simp only [List.mem_cons, List.not_mem_nil, or_false] at known
    obtain rfl | rfl | rfl | rfl | rfl := known <;> exact .operator (by decide)
  | apply known _ ih =>
    exact .append (.word (Function.plain_name known).1 (Function.plain_name known).2) ih

/-- Whether two neighbours do not open a comment. -/
def Apart (c d : Char) : Prop := c = '/' → d ≠ '/' ∧ d ≠ '*'

/-- A text without blanks at its ends. -/
structure Tight (t : Text) : Prop where
  nonempty : t ≠ []
  head : ∀ c ∈ t.head?, isBlank c = false
  last : ∀ c ∈ t.getLast?, isBlank c = false

theorem Tight.trimLeft {t : Text} (h : Tight t) : t.trimLeft = t := by
  cases t with
  | nil => rfl
  | cons c rest => exact List.dropWhile_cons_of_neg (by simp [h.head c rfl])

theorem Tight.trimRight {t : Text} (h : Tight t) : t.trimRight = t := by
  cases hr : t.reverse with
  | nil => simp [Text.trimRight, List.reverse_eq_nil_iff.mp hr]
  | cons c rest =>
    have hc : isBlank c = false := h.last c (by rw [List.getLast?_eq_head?_reverse, hr]; rfl)
    rw [Text.trimRight, hr, List.dropWhile_cons_of_neg (by simp [hc]), ← hr, List.reverse_reverse]

theorem Tight.trim {t : Text} (h : Tight t) : t.trim = t := by
  rw [Text.trim, h.trimLeft, h.trimRight]

/-- The ends of a text decide whether it is tight, whatever stands between them. -/
theorem Tight.around {s t : Text} (hs : Tight s) (ht : Tight t) (between : Text) :
    Tight (s ++ (between ++ t)) := by
  refine ⟨by simp [hs.nonempty], ?_, ?_⟩
  · rw [List.head?_append_of_ne_nil _ hs.nonempty]
    exact hs.head
  · rw [List.getLast?_append_of_ne_nil _ (by simp [ht.nonempty]),
      List.getLast?_append_of_ne_nil _ ht.nonempty]
    exact ht.last

theorem tight_singleton {c : Char} (h : isBlank c = false) : Tight [c] := by
  refine ⟨List.cons_ne_nil _ _, ?_, ?_⟩
  · rintro _ ⟨⟩
    exact h
  · rintro _ ⟨⟩
    exact h

theorem tight_of_plain {w : Text} (hne : w ≠ []) (h : ∀ c ∈ w, isPlain c) : Tight w := by
  have hblank : ∀ c ∈ w, isBlank c = false := by
    intro c hc
    have hplain := h c hc
    simp only [isPlain, Bool.and_eq_true, Bool.not_eq_true'] at hplain
    exact hplain.1.1
  exact ⟨hne, fun c hc => hblank c (List.mem_of_head? hc),
    fun c hc => hblank c (List.mem_of_getLast? hc)⟩

theorem foldr_consFirst (t part : Text) (parts : List Text) :
    t.foldr consFirst (part :: parts) = (t ++ part) :: parts := by
  induction t with
  | nil => rfl
  | cons c t ih => rw [List.foldr_cons, ih, consFirst, List.cons_append]

theorem splitTopFrom_append {separator : Char} {s : Text}
    (h : ∀ c ∈ s, c ∉ ['[', '(', ']', ')', separator]) (depth : Nat) (rest : Text) :
    splitTopFrom separator depth (s ++ rest) =
      s.foldr consFirst (splitTopFrom separator depth rest) := by
  induction s with
  | nil => rfl
  | cons c s ih =>
    have hc := h c List.mem_cons_self
    simp only [List.mem_cons, List.not_mem_nil, or_false, not_or] at hc
    obtain ⟨hopen, hparen, hclose, hclosing, hseparator⟩ := hc
    rw [List.cons_append, splitTopFrom, List.foldr_cons,
      ← ih fun d hd => h d (List.mem_cons_of_mem c hd)]
    simp [hopen, hparen, hclose, hclosing, hseparator]

theorem apart_of_not_mem {t : Text} (h : '/' ∉ t) : t.IsChain Apart := by
  induction t with
  | nil => exact .nil
  | cons c t ih =>
    refine List.isChain_cons.mpr ⟨fun d _ hc => ?_, ih fun ht => h (List.mem_cons_of_mem c ht)⟩
    exact absurd (hc ▸ List.mem_cons_self) h

theorem apart_append {s t : Text} {c : Char} (hs : s.IsChain Apart) (ht : t.IsChain Apart)
    (hslash : c ≠ '/') (hstar : c ≠ '*') : (s ++ c :: t).IsChain Apart := by
  refine hs.append (List.isChain_cons.mpr ⟨fun d _ hc => absurd hc hslash, ht⟩) ?_
  intro d _ e he _
  cases he
  exact ⟨hslash, hstar⟩

namespace Phrase

variable {t : Text}

theorem mem (h : Phrase t) :
    ∀ c ∈ t, isPlain c ∨ c ∈ [' ', '+', '-', '*', '/', '^', '(', ')'] := by
  induction h with
  | word _ plain => exact fun c hc => .inl (plain c hc)
  | operator known =>
    intro c hc
    obtain rfl := List.mem_singleton.mp hc
    simp only [List.mem_cons, List.not_mem_nil, or_false] at known
    obtain rfl | rfl | rfl | rfl | rfl := known <;> decide
  | parens _ ih =>
    intro c hc
    simp only [List.mem_cons, List.mem_append, List.not_mem_nil, or_false] at hc
    obtain rfl | rfl | hc | rfl | rfl := hc
    · decide
    · decide
    · exact ih c hc
    · decide
    · decide
  | append _ _ hs ht =>
    intro c hc
    obtain hc | hc := List.mem_append.mp hc
    · exact hs c hc
    · obtain rfl | hc := List.mem_cons.mp hc
      · decide
      · exact ht c hc

/-- Of the characters that are not plain a phrase has only blanks and signs. -/
theorem not_mem (h : Phrase t) {c : Char} (hplain : isPlain c = false)
    (hc : c ∉ [' ', '+', '-', '*', '/', '^', '(', ')']) : c ∉ t := by
  intro hmem
  obtain hm | hm := h.mem c hmem
  · rw [hplain] at hm
    cases hm
  · exact hc hm

theorem tight (h : Phrase t) : Tight t := by
  induction h with
  | word nonempty plain => exact tight_of_plain nonempty plain
  | operator known =>
    simp only [List.mem_cons, List.not_mem_nil, or_false] at known
    obtain rfl | rfl | rfl | rfl | rfl := known <;> exact tight_singleton (by decide)
  | @parens t _ ih =>
    have hopening : Tight ['('] := tight_singleton (by decide)
    have hclosing : Tight [')'] := tight_singleton (by decide)
    have hall := hopening.around hclosing (' ' :: (t ++ [' ']))
    simpa using hall
  | @append s t _ _ hs ht => exact hs.around ht [' ']

theorem apart (h : Phrase t) : t.IsChain Apart := by
  induction h with
  | word _ plain =>
    refine apart_of_not_mem fun hslash => ?_
    cases plain '/' hslash
  | operator => exact .singleton _
  | @parens t _ ih =>
    have hclosing : (t ++ ' ' :: [')']).IsChain Apart :=
      apart_append ih (.singleton _) (by decide) (by decide)
    exact apart_append (.singleton '(') hclosing (by decide) (by decide)
  | append _ _ hs ht => exact apart_append hs ht (by decide) (by decide)

/-- Separators split around a phrase and not inside it. -/
theorem split_append (h : Phrase t) (depth : Nat) (rest : Text) :
    splitTopFrom ',' depth (t ++ rest) = t.foldr consFirst (splitTopFrom ',' depth rest) := by
  induction h generalizing depth rest with
  | word _ plain =>
    refine splitTopFrom_append (fun c hc hbad => ?_) depth rest
    have hplain := plain c hc
    simp only [List.mem_cons, List.not_mem_nil, or_false] at hbad
    obtain rfl | rfl | rfl | rfl | rfl := hbad <;> cases hplain
  | operator known =>
    refine splitTopFrom_append (fun c hc => ?_) depth rest
    obtain rfl := List.mem_singleton.mp hc
    simp only [List.mem_cons, List.not_mem_nil, or_false] at known
    obtain rfl | rfl | rfl | rfl | rfl := known <;> decide
  | @parens t _ ih =>
    have hinside := ih (depth + 1) (' ' :: ')' :: rest)
    simp only [List.cons_append, List.append_assoc, List.nil_append, List.foldr_cons,
      List.foldr_append, List.foldr_nil]
    simp [splitTopFrom, hinside]
  | @append s t _ _ hs ht =>
    rw [List.append_assoc, hs, List.cons_append, List.foldr_append, List.foldr_cons, ← ht depth rest]
    simp [splitTopFrom]

end Phrase

/-! ## Reading written expressions -/

namespace Token

theorem scanFrom_append_blank (letters s : Text) {blank : Char} (h : isBlank blank) (t : Text) :
    scanFrom letters (s ++ blank :: t) = scanFrom letters s ++ scan t := by
  induction s generalizing letters with
  | nil => simp only [List.nil_append, scanFrom, h, if_true, scan]
  | cons c s ih =>
    simp only [List.cons_append, scanFrom, ih]
    split
    · rw [List.append_assoc]
    · split
      · rw [List.append_assoc, List.cons_append]
      · rfl

theorem scan_append (s t : Text) : scan (s ++ ' ' :: t) = scan s ++ scan t :=
  scanFrom_append_blank [] s (by decide) t

theorem isLetter_of_isPlain {c : Char} (h : isPlain c) : isLetter c := by
  simp only [isPlain, Bool.and_eq_true] at h
  simp only [isLetter, Bool.and_eq_true]
  exact h.1

theorem scan_word {w : Text} (hne : w ≠ []) (h : ∀ c ∈ w, isPlain c) : scan w = [.word w] :=
  scan_letters hne fun c hc => isLetter_of_isPlain (h c hc)

end Token

namespace Expr

/-- An atom stands at every level. -/
theorem Derives.of_atom {ts : List Token} {e : Expr} (h : Derives .atom ts e) (level : Level) :
    Derives level ts e := by
  have hpower : Derives .power ts e := .ofUnary (.ofAtom h)
  cases level with
  | atom => exact h
  | unary => exact .ofAtom h
  | power => exact hpower
  | product => exact .ofPower hpower
  | sum => exact .ofProduct (.ofPower hpower)

theorem Written.derives {level : Level} {t : Text} {e : Expr} (h : Written level t e) :
    Derives level (Token.scan t) e := by
  induction h with
  | literal spells =>
    obtain ⟨hne, hplain⟩ := spells.plain_of_literal
    rw [Token.scan_word hne hplain]
    exact .literal spells
  | @reference name isName =>
    have hspells : Word.Spells (':' :: name) (.reference name) := by
      have hword := Word.Spells.reference isName.nonempty
      rwa [isName.lowerCase] at hword
    rw [Token.scan_word (List.cons_ne_nil _ _) (plain_reference isName)]
    exact .reference hspells
  | @parens t e _ ih =>
    have hscan : Token.scan ('(' :: ' ' :: (t ++ [' ', ')'])) =
        .sign .opening :: (Token.scan t ++ [.sign .closing]) := by
      have hopen := Token.scan_append ['('] (t ++ [' ', ')'])
      have hclose := Token.scan_append t [')']
      rw [hclose] at hopen
      exact hopen
    rw [hscan]
    exact .parens ih
  | ofAtom _ ih => exact ih.of_atom .sum
  | @negate t e _ ih =>
    have hscan : Token.scan ('-' :: ' ' :: t) = .sign .minus :: Token.scan t :=
      Token.scan_append ['-'] t
    rw [hscan]
    exact .ofProduct (.ofPower (.ofUnary (.negate (.ofAtom ih))))
  | @binary op s t l r known _ _ hleft hright =>
    rw [Token.scan_append, Token.scan_append]
    simp only [List.mem_cons, List.not_mem_nil, or_false] at known
    obtain rfl | rfl | rfl | rfl | rfl := known
    · exact .add (hleft.of_atom _) (hright.of_atom _)
    · exact .sub (hleft.of_atom _) (hright.of_atom _)
    · exact .ofProduct (.mul (hleft.of_atom _) (hright.of_atom _))
    · exact .ofProduct (.div (hleft.of_atom _) (hright.of_atom _))
    · exact .ofProduct (.ofPower (.pow (hleft.of_atom _) (hright.of_atom _)))
  | @apply f t e known _ ih =>
    have hspells : Word.Spells f.name (.function f) := .function known (Function.lower_name known)
    have hatom : Derives .atom (.word f.name :: Token.scan t) (.apply f e) :=
      .apply hspells (ih.of_atom .unary)
    obtain ⟨hne, hplain⟩ := Function.plain_name known
    rw [Token.scan_append, Token.scan_word hne hplain]
    exact hatom.of_atom .sum

/-- A written expression is read back. -/
theorem Written.parse?_eq {t : Text} {e : Expr} (h : Written .sum t e) : parse? t = some e :=
  ofTokens?_eq_some_iff.mpr h.derives

theorem parse?_blank_cons (t : Text) : parse? (' ' :: t) = parse? t := by
  have hscan : Token.scan (' ' :: t) = Token.scan t := Token.scan_append [] t
  rw [parse?, parse?, hscan]

end Expr

end TurtleTrace
