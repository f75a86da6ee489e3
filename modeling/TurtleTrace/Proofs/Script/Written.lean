import Mathlib.Data.List.TakeWhile
import TurtleTrace.Proofs.Expr.Written
import TurtleTrace.Proofs.Script.Lines

/-!
# Written statements

The statements of a script as they are written out in full: the keyword, a blank and the arguments, with
a comma and a blank between two values and brackets around bodies and labels. Each of them is read back
as the command that it writes, with its bodies and labels unchanged.

* `Balanced`, `Unmarked`, `Quiet`: what bodies and labels may hold.
* `WrittenArguments`, `WrittenStatement`: the texts that write an action.
* `Part`: a text that holds no separator outside brackets and no comment.
-/

namespace TurtleTrace

set_option autoImplicit false

/-! ## Bodies and labels -/

/-- Texts whose square brackets match. -/
inductive Balanced : Text → Prop where
  | nil : Balanced []
  | cons {c : Char} {t : Text} (opening : c ≠ '[') (closing : c ≠ ']') (rest : Balanced t) :
      Balanced (c :: t)
  | group {s t : Text} (inside : Balanced s) (rest : Balanced t) :
      Balanced ('[' :: (s ++ ']' :: t))

/-- Texts without the marks of comments. -/
structure Unmarked (t : Text) : Prop where
  noHash : '#' ∉ t
  noMark : t.IsChain Apart

/-- Texts without comments and carriage returns. -/
structure Quiet (t : Text) : Prop extends Unmarked t where
  noReturn : '\r' ∉ t

/-- What may stand between brackets. -/
structure IsInterior (t : Text) : Prop where
  balanced : Balanced t
  quiet : Quiet t

/-! ## Texts of statements -/

namespace Kind

/-- The action of a keyword that stands alone. -/
def bareAction? : Kind → Option Action
  | pu => some .penUp
  | pd => some .penDown
  | home => some .home
  | extcommentpos => some (.notePosition none)
  | extmarker => some (.marker none none)
  | _ => none

/-- The action of a keyword with one value. -/
def valueAction? : Kind → Option (Expr → Action)
  | fd => some .forward
  | bk => some .back
  | lt => some .left
  | rt => some .right
  | seth => some .setHeading
  | setx => some .setX
  | sety => some .setY
  | extsetfn => some .setResolution
  | _ => none

/-- The action of a keyword with two values. -/
def pairAction? : Kind → Option (Expr → Expr → Action)
  | arc => some .arc
  | setxy => some .setXY
  | _ => none

end Kind

/-- A text in brackets. -/
def bracketed (t : Text) : Text := '[' :: (t ++ [']'])

/-- Two values with a comma between them. -/
def paired (s t : Text) : Text := s ++ ',' :: ' ' :: t

/-- The text writes the arguments of a keyword on a line, for an action. -/
inductive WrittenArguments (line : Int) : Kind → Text → Action → Prop where
  | value {kind : Kind} {action : Expr → Action} {t : Text} {e : Expr}
      (takes : kind.valueAction? = some action) (written : Expr.Written .sum t e) :
      WrittenArguments line kind t (action e)
  | pair {kind : Kind} {action : Expr → Expr → Action} {s t : Text} {x y : Expr}
      (takes : kind.pairAction? = some action) (first : Expr.Written .sum s x)
      (second : Expr.Written .sum t y) : WrittenArguments line kind (paired s t) (action x y)
  | makeNumber {name t : Text} {e : Expr} (isName : IsName name) (written : Expr.Written .sum t e) :
      WrittenArguments line .make ('"' :: (name ++ ' ' :: t)) (.makeNumber name e)
  | makeList {name body : Text} (isName : IsName name) (isBody : IsInterior body) :
      WrittenArguments line .make ('"' :: (name ++ ' ' :: bracketed body)) (.makeList name body)
  | repeatBody {t body : Text} {count : Expr} (written : Expr.Written .sum t count)
      (isBody : IsInterior body) :
      WrittenArguments line .repeat (t ++ ' ' :: bracketed body) (.repeatBody count body line)
  | repeatNamed {t name : Text} {count : Expr} (written : Expr.Written .sum t count)
      (isName : IsName name) :
      WrittenArguments line .repeat (t ++ ' ' :: ':' :: name) (.repeatNamed count name)
  | positionLabel {label : Text} (isLabel : IsInterior label) (trimmed : label.trim = label) :
      WrittenArguments line .extcommentpos (bracketed label) (.notePosition (some label))
  | markerLabel {label : Text} (isLabel : IsInterior label) (trimmed : label.trim = label) :
      WrittenArguments line .extmarker (bracketed label) (.marker (some label) none)
  | markerPlace {s t : Text} {x y : Expr} (first : Expr.Written .sum s x)
      (second : Expr.Written .sum t y) :
      WrittenArguments line .extmarker (paired s t) (.marker none (some (x, y)))
  | markerBoth {label s t : Text} {x y : Expr} (isLabel : IsInterior label)
      (trimmed : label.trim = label) (first : Expr.Written .sum s x)
      (second : Expr.Written .sum t y) :
      WrittenArguments line .extmarker (paired (bracketed label) (paired s t))
        (.marker (some label) (some (x, y)))

/-- The text writes a statement on a line, for an action. -/
inductive WrittenStatement (line : Int) : Text → Action → Prop where
  | bare {kind : Kind} {action : Action} (takes : kind.bareAction? = some action) :
      WrittenStatement line kind.keyword action
  | arguments {kind : Kind} {t : Text} {action : Action}
      (written : WrittenArguments line kind t action) :
      WrittenStatement line (kind.keyword ++ ' ' :: t) action
  | call {name : Text} (isName : IsName name) : WrittenStatement line (':' :: name) (.call name)

/-! ## Parts of statements -/

theorem unmarked_nil : Unmarked [] := ⟨List.not_mem_nil, .nil⟩

theorem Unmarked.append {s t : Text} {c : Char} (hs : Unmarked s) (ht : Unmarked t)
    (hc : c ∉ ['/', '*', '#']) : Unmarked (s ++ c :: t) := by
  simp only [List.mem_cons, List.not_mem_nil, or_false, not_or] at hc
  obtain ⟨hslash, hstar, hhash⟩ := hc
  refine ⟨?_, apart_append hs.noMark ht.noMark hslash hstar⟩
  simp only [List.mem_append, List.mem_cons, not_or]
  exact ⟨hs.noHash, Ne.symm hhash, ht.noHash⟩

theorem quiet_nil : Quiet [] := ⟨unmarked_nil, List.not_mem_nil⟩

theorem Quiet.append {s t : Text} {c : Char} (hs : Quiet s) (ht : Quiet t)
    (hc : c ∉ ['/', '*', '\r', '#']) : Quiet (s ++ c :: t) := by
  simp only [List.mem_cons, List.not_mem_nil, or_false, not_or] at hc
  obtain ⟨hslash, hstar, hreturn, hhash⟩ := hc
  refine ⟨hs.toUnmarked.append ht.toUnmarked (by simp [hslash, hstar, hhash]), ?_⟩
  simp only [List.mem_append, List.mem_cons, not_or]
  exact ⟨hs.noReturn, Ne.symm hreturn, ht.noReturn⟩

/-- A text that belongs to one statement: without comments, and without separators outside brackets,
which match. -/
structure Part (t : Text) : Prop where
  quiet : Quiet t
  passes : ∀ depth, scanChunk depth t = (t, .textEnd depth)

theorem scanChunk_append_of_passes {depth n : Nat} {s : Text}
    (hs : scanChunk depth s = (s, .textEnd n)) (t : Text) :
    scanChunk depth (s ++ t) = (s ++ (scanChunk n t).1, (scanChunk n t).2) := by
  rw [scanChunk_append, hs]
  rfl

theorem passes_of_not_mem {t : Text} (h : ∀ c ∈ t, c ∉ ['[', ']', ';', '\n']) (depth : Nat) :
    scanChunk depth t = (t, .textEnd depth) := by
  induction t with
  | nil => rfl
  | cons c t ih =>
    have hc := h c List.mem_cons_self
    simp only [List.mem_cons, List.not_mem_nil, or_false, not_or] at hc
    have hrest := ih fun d hd => h d (List.mem_cons_of_mem c hd)
    simp [scanChunk, hc, hrest, keep]

/-- Inside a bracket nothing separates. -/
theorem Balanced.passes {t : Text} (h : Balanced t) (depth : Nat) :
    scanChunk (depth + 1) t = (t, .textEnd (depth + 1)) := by
  induction h generalizing depth with
  | nil => rfl
  | cons opening closing _ ih => simp [scanChunk, opening, closing, ih, keep]
  | @group s t _ _ hs ht =>
    have hinside := scanChunk_append_of_passes (hs (depth + 1)) (']' :: t)
    simp [scanChunk, hinside, ht, keep]

/-- A matching text in brackets holds no separator outside of them. -/
theorem Balanced.passes_bracketed {t : Text} (h : Balanced t) (depth : Nat) :
    scanChunk depth (bracketed t) = (bracketed t, .textEnd depth) := by
  have hinside := scanChunk_append_of_passes (h.passes depth) [']']
  simp [bracketed, scanChunk, hinside, keep]

namespace Part

variable {s t : Text}

theorem of_plain (h : ∀ c ∈ t, isPlain c) : Part t := by
  have hnot : ∀ {c}, isPlain c = false → c ∉ t := by
    intro c hc hmem
    rw [h c hmem] at hc
    cases hc
  refine ⟨⟨⟨hnot (by decide), apart_of_not_mem (hnot (by decide))⟩, hnot (by decide)⟩, ?_⟩
  refine passes_of_not_mem fun c hc hbad => ?_
  simp only [List.mem_cons, List.not_mem_nil, or_false] at hbad
  obtain rfl | rfl | rfl | rfl := hbad <;> exact hnot (by decide) hc

theorem of_phrase (h : Phrase t) : Part t := by
  refine ⟨⟨⟨h.not_mem (by decide) (by decide), h.apart⟩, h.not_mem (by decide) (by decide)⟩, ?_⟩
  refine passes_of_not_mem fun c hc hbad => ?_
  simp only [List.mem_cons, List.not_mem_nil, or_false] at hbad
  obtain rfl | rfl | rfl | rfl := hbad <;> exact h.not_mem (by decide) (by decide) hc

theorem append (hs : Part s) (ht : Part t) {c : Char} (hc : c ∈ [' ', ',', '"']) :
    Part (s ++ c :: t) := by
  have hquiet : c ∉ ['/', '*', '\r', '#'] := by
    simp only [List.mem_cons, List.not_mem_nil, or_false] at hc
    obtain rfl | rfl | rfl := hc <;> decide
  refine ⟨hs.quiet.append ht.quiet hquiet, fun depth => ?_⟩
  have hpass : scanChunk depth (c :: t) = (c :: t, .textEnd depth) := by
    simp only [List.mem_cons, List.not_mem_nil, or_false] at hc
    obtain rfl | rfl | rfl := hc <;> simp [scanChunk, ht.passes, keep]
  rw [scanChunk_append_of_passes (hs.passes depth), hpass]

theorem of_interior (h : IsInterior t) : Part (bracketed t) := by
  have hclosed : Quiet (t ++ [']']) := h.quiet.append quiet_nil (by decide)
  exact ⟨quiet_nil.append hclosed (by decide), h.balanced.passes_bracketed⟩

theorem pair (hs : Part s) (ht : Part t) : Part (paired s t) :=
  hs.append (append (of_plain (List.forall_mem_nil _)) ht (by decide)) (by decide)

end Part

theorem tight_bracketed (t : Text) : Tight (bracketed t) := by
  have hopening : Tight ['['] := tight_singleton (by decide)
  have hclosing : Tight [']'] := tight_singleton (by decide)
  exact hopening.around hclosing t

/-- Arguments belong to their statement and leave no blanks at their ends. -/
theorem WrittenArguments.part_and_tight {line : Int} {kind : Kind} {t : Text} {action : Action}
    (h : WrittenArguments line kind t action) : Part t ∧ Tight t := by
  have hquote : Part ([] : Text) := .of_plain (List.forall_mem_nil _)
  have hquoted : Tight ['"'] := tight_singleton (by decide)
  cases h with
  | value _ written => exact ⟨.of_phrase written.phrase, written.phrase.tight⟩
  | pair _ first second =>
    exact ⟨.pair (.of_phrase first.phrase) (.of_phrase second.phrase),
      first.phrase.tight.around second.phrase.tight [',', ' ']⟩
  | @makeNumber name t e isName written =>
    refine ⟨hquote.append ((Part.of_plain isName.plain).append (.of_phrase written.phrase)
      (by decide)) (by decide), ?_⟩
    have htight := hquoted.around written.phrase.tight (name ++ [' '])
    simpa using htight
  | @makeList name body isName isBody =>
    refine ⟨hquote.append ((Part.of_plain isName.plain).append (.of_interior isBody)
      (by decide)) (by decide), ?_⟩
    have htight := hquoted.around (tight_bracketed body) (name ++ [' '])
    simpa using htight
  | @repeatBody t body count written isBody =>
    exact ⟨(Part.of_phrase written.phrase).append (.of_interior isBody) (by decide),
      written.phrase.tight.around (tight_bracketed body) [' ']⟩
  | repeatNamed written isName =>
    have hplain := Expr.plain_reference isName
    exact ⟨(Part.of_phrase written.phrase).append (.of_plain hplain) (by decide),
      written.phrase.tight.around (tight_of_plain (List.cons_ne_nil _ _) hplain) [' ']⟩
  | positionLabel isLabel _ => exact ⟨.of_interior isLabel, tight_bracketed _⟩
  | markerLabel isLabel _ => exact ⟨.of_interior isLabel, tight_bracketed _⟩
  | markerPlace first second =>
    exact ⟨.pair (.of_phrase first.phrase) (.of_phrase second.phrase),
      first.phrase.tight.around second.phrase.tight [',', ' ']⟩
  | @markerBoth label s t x y isLabel _ first second =>
    refine ⟨.pair (.of_interior isLabel)
      (.pair (.of_phrase first.phrase) (.of_phrase second.phrase)), ?_⟩
    have htight := (tight_bracketed label).around second.phrase.tight (',' :: ' ' :: (s ++ [',', ' ']))
    simpa [paired] using htight

theorem plain_keyword (kind : Kind) : ∀ c ∈ kind.keyword, isPlain c :=
  List.all_eq_true.mp (by cases kind <;> decide)

theorem keyword_ne_nil (kind : Kind) : kind.keyword ≠ [] := by
  cases kind <;> decide

theorem WrittenStatement.part_and_tight {line : Int} {t : Text} {action : Action}
    (h : WrittenStatement line t action) : Part t ∧ Tight t := by
  cases h with
  | @bare kind _ _ =>
    exact ⟨.of_plain (plain_keyword kind), tight_of_plain (keyword_ne_nil kind) (plain_keyword kind)⟩
  | @arguments kind t _ written =>
    obtain ⟨hpart, htight⟩ := written.part_and_tight
    have hkeyword := tight_of_plain (keyword_ne_nil kind) (plain_keyword kind)
    exact ⟨(Part.of_plain (plain_keyword kind)).append hpart (by decide), hkeyword.around htight [' ']⟩
  | call isName =>
    have hplain := Expr.plain_reference isName
    exact ⟨.of_plain hplain, tight_of_plain (List.cons_ne_nil _ _) hplain⟩

/-! ## Reading arguments -/

theorem Expr.Written.readExpr_eq {t : Text} {e : Expr} (h : Expr.Written .sum t e) :
    readExpr t = .ok e := by
  rw [readExpr, h.parse?_eq]

theorem Expr.Written.readExpr_blank_cons {t : Text} {e : Expr} (h : Expr.Written .sum t e) :
    readExpr (' ' :: t) = .ok e := by
  rw [readExpr, Expr.parse?_blank_cons, h.parse?_eq]

/-- A matching text is passed over in the search for a closing bracket. -/
theorem Balanced.closingFrom_append {t : Text} (h : Balanced t) (depth : Int) (hdepth : 0 < depth)
    (u : Text) : closingFrom depth (t ++ u) = (closingFrom depth u).map (· + t.length) := by
  induction h generalizing depth u with
  | nil => simp
  | @cons c t opening closing _ ih =>
    rw [List.cons_append, closingFrom, if_neg opening, if_neg closing, ih depth hdepth, Option.map_map]
    rfl
  | @group s t _ _ hs ht =>
    have hinside := hs (depth + 1) (by omega) (']' :: (t ++ u))
    have hclose : closingFrom (depth + 1) (']' :: (t ++ u)) =
        (closingFrom depth (t ++ u)).map (· + 1) := by
      rw [closingFrom, if_neg (by decide), if_pos rfl, if_neg (by omega), Int.add_sub_cancel]
    rw [List.cons_append, List.append_assoc, List.cons_append, closingFrom, if_pos rfl, hinside,
      hclose, ht depth hdepth]
    simp only [Option.map_map]
    congr 1
    funext n
    simp only [Function.comp, List.length_cons, List.length_append]
    omega

theorem closingFrom_bracketed {t : Text} (h : Balanced t) (u : Text) :
    closingFrom 0 (bracketed t ++ u) = some (t.length + 1) := by
  have hinside := h.closingFrom_append (0 + 1) (by decide) (']' :: u)
  have hclose : closingFrom (0 + 1) (']' :: u) = some 0 := by
    rw [closingFrom, if_neg (by decide), if_pos rfl, if_pos (by decide)]
  rw [bracketed, List.cons_append, List.append_assoc, List.singleton_append, closingFrom, if_pos rfl,
    hinside, hclose]
  simp

theorem drop_bracketed (t u : Text) : (bracketed t ++ u).drop (t.length + 1 + 1) = u := by
  have hlength : (bracketed t).length = t.length + 1 + 1 := by simp [bracketed]
  rw [← hlength, List.drop_left]

theorem interior_bracketed (t u : Text) : ((bracketed t ++ u).take (t.length + 1)).drop 1 = t := by
  simp [bracketed]

theorem readInterior_bracketed {t : Text} (h : Balanced t) (what : Enclosure) :
    readInterior what (bracketed t) = .ok t := by
  have hclosing := closingFrom_bracketed h []
  have hdrop := drop_bracketed t []
  have hinterior := interior_bracketed t []
  rw [List.append_nil] at hclosing hdrop hinterior
  simp only [readInterior, hclosing, hdrop, hinterior]
  rfl

theorem splitTopLevel_blank_cons (t : Text) :
    splitTopLevel ',' (' ' :: t) = consFirst ' ' (splitTopLevel ',' t) := by
  simp [splitTopLevel, splitTopFrom]

theorem splitTopLevel_phrase {t : Text} (h : Phrase t) : splitTopLevel ',' t = [t] := by
  have hsplit := h.split_append 0 []
  rw [List.append_nil, splitTopFrom, foldr_consFirst, List.append_nil] at hsplit
  exact hsplit

theorem splitTopLevel_paired {s t : Text} (hs : Phrase s) (ht : Phrase t) :
    splitTopLevel ',' (paired s t) = [s, ' ' :: t] := by
  have hcomma : splitTopFrom ',' 0 (',' :: ' ' :: t) = [] :: splitTopLevel ',' (' ' :: t) := by
    simp [splitTopLevel, splitTopFrom]
  have hsecond : splitTopLevel ',' (' ' :: t) = [' ' :: t] := by
    rw [splitTopLevel_blank_cons, splitTopLevel_phrase ht, consFirst]
  rw [splitTopLevel, paired, hs.split_append, hcomma, hsecond, foldr_consFirst, List.append_nil]

/-- Two written values are read back, also when a blank stands in front of the first. -/
theorem readPlace_paired {s t : Text} {x y : Expr} (hs : Expr.Written .sum s x)
    (ht : Expr.Written .sum t y) :
    readPlace (paired s t) = .ok (x, y) ∧ readPlace (' ' :: paired s t) = .ok (x, y) := by
  have hsplit := splitTopLevel_paired hs.phrase ht.phrase
  constructor
  · simp only [readPlace, hsplit, readPair, hs.readExpr_eq, ht.readExpr_blank_cons]
    rfl
  · simp only [readPlace, splitTopLevel_blank_cons, hsplit, consFirst, readPair,
      hs.readExpr_blank_cons, ht.readExpr_blank_cons]
    rfl

/-! ## Cutting statements -/

theorem inWord_of_isPlain {c : Char} (h : isPlain c) : inWord c := by
  have hbracket : c ≠ '[' := by
    rintro rfl
    cases h
  simp only [isPlain, Bool.and_eq_true] at h
  simp [inWord, h.1.1, hbracket]

theorem takeWhile_inWord {w : Text} (h : ∀ c ∈ w, isPlain c) (t : Text) :
    (w ++ ' ' :: t).takeWhile inWord = w ∧ (w ++ ' ' :: t).dropWhile inWord = ' ' :: t := by
  have hword : ∀ c ∈ w, inWord c := fun c hc => inWord_of_isPlain (h c hc)
  have hblank : ¬ inWord ' ' = true := by decide
  constructor
  · rw [List.takeWhile_append_of_pos hword, List.takeWhile_cons_of_neg hblank, List.append_nil]
  · rw [List.dropWhile_append_of_pos hword, List.dropWhile_cons_of_neg hblank]

theorem Tight.trim_blank_cons {t : Text} (h : Tight t) : Text.trim (' ' :: t) = t := by
  have hleft : Text.trimLeft (' ' :: t) = Text.trimLeft t := List.dropWhile_cons_of_pos (by decide)
  rw [Text.trim, hleft, h.trimLeft, h.trimRight]

theorem Tight.trim_append_blank {t : Text} (h : Tight t) : Text.trim (t ++ [' ']) = t := by
  have hleft : Text.trimLeft (t ++ [' ']) = t ++ [' '] := by
    cases t with
    | nil => exact absurd rfl h.nonempty
    | cons c rest => exact List.dropWhile_cons_of_neg (by simp [h.head c rfl])
  have hright : Text.trimRight (t ++ [' ']) = Text.trimRight t := by
    rw [Text.trimRight, List.reverse_append, List.reverse_singleton, List.singleton_append,
      List.dropWhile_cons_of_pos (by decide), Text.trimRight]
  rw [Text.trim, hleft, hright, h.trimRight]

theorem cutBefore_of_not_mem {c : Char} {s : Text} (h : c ∉ s) : s.cutBefore c = none := by
  induction s with
  | nil => rfl
  | cons d s ih =>
    have hd : d ≠ c := fun hd => h (hd ▸ List.mem_cons_self)
    rw [Text.cutBefore, if_neg hd, ih fun hs => h (List.mem_cons_of_mem d hs), Option.map_none]

theorem cutBefore_append_of_not_mem {c : Char} {s : Text} (h : c ∉ s) (t : Text) :
    Text.cutBefore c (s ++ c :: t) = some (s, c :: t) := by
  induction s with
  | nil => simp [Text.cutBefore]
  | cons d s ih =>
    have hd : d ≠ c := fun hd => h (hd ▸ List.mem_cons_self)
    rw [List.cons_append, Text.cutBefore, if_neg hd, ih fun hs => h (List.mem_cons_of_mem d hs),
      Option.map_some]

theorem cutLastWord_append_of_plain {w : Text} (h : ∀ c ∈ w, isPlain c) (t : Text) :
    Text.cutLastWord (t ++ ' ' :: w) = (t ++ [' '], w) := by
  have hword : ∀ c ∈ w.reverse, !isBlank c := by
    intro c hc
    have hplain := h c (List.mem_reverse.mp hc)
    simp only [isPlain, Bool.and_eq_true] at hplain
    exact hplain.1.1
  have hblank : isBlank ' ' = true := by decide
  have hreverse : (t ++ ' ' :: w).reverse = w.reverse ++ ' ' :: t.reverse := by simp
  rw [Text.cutLastWord, hreverse, List.dropWhile_append_of_pos hword,
    List.takeWhile_append_of_pos hword]
  simp [hblank]

theorem startsWith_of_not_mem {c : Char} {t : Text} (h : c ∉ t) : Text.startsWith c t = false := by
  cases t with
  | nil => rfl
  | cons d t =>
    have hd : d ≠ c := fun hd => h (hd ▸ List.mem_cons_self)
    simp [Text.startsWith, hd]

theorem startsWith_bracketed (t : Text) : Text.startsWith '[' (bracketed t) = true := rfl

theorem Tight.isEmpty_eq {t : Text} (h : Tight t) : t.isEmpty = false :=
  List.isEmpty_eq_false_iff.mpr h.nonempty

theorem IsName.isEmpty_eq {name : Text} (h : IsName name) : name.isEmpty = false :=
  List.isEmpty_eq_false_iff.mpr h.nonempty

/-! ## Reading statements -/

section Arguments

variable {line : Int} {kind : Kind} {s : Statement} {t u name label body : Text} {action : Action}
  {e x y : Expr}

theorem readArguments_bare (h : kind.bareAction? = some action) :
    readArguments s kind [] = .ok action := by
  cases kind <;> cases h <;> rfl

theorem readArguments_value {action : Expr → Action} (h : kind.valueAction? = some action)
    (hne : t ≠ []) : readArguments s kind t = (readExpr t).map action := by
  have hempty := List.isEmpty_eq_false_iff.mpr hne
  cases kind <;> cases h <;> simp only [readArguments, readValue, hempty] <;> rfl

theorem readArguments_pair {action : Expr → Expr → Action} (h : kind.pairAction? = some action) :
    readArguments s kind t = readTwoValues kind action t := by
  cases kind <;> cases h <;> rfl

theorem readTwoValues_paired (action : Expr → Expr → Action) (ht : Expr.Written .sum t x)
    (hu : Expr.Written .sum u y) : readTwoValues kind action (paired t u) = .ok (action x y) := by
  have hsplit := splitTopLevel_paired ht.phrase hu.phrase
  simp only [readTwoValues, hsplit, readPair, ht.readExpr_eq, hu.readExpr_blank_cons]
  rfl

theorem readMake_number (hname : IsName name) (ht : Expr.Written .sum t e) :
    readMake ('"' :: (name ++ ' ' :: t)) = .ok (.makeNumber name e) := by
  obtain ⟨htake, hdrop⟩ := takeWhile_inWord hname.plain t
  have hbracket : '[' ∉ t := ht.phrase.not_mem (by decide) (by decide)
  have htight := ht.phrase.tight
  simp only [readMake, htake, hdrop, htight.trim_blank_cons, hname.isEmpty_eq, htight.isEmpty_eq,
    startsWith_of_not_mem hbracket, hname.lowerCase, ht.readExpr_eq]
  rfl

theorem readMake_list (hname : IsName name) (hbody : Balanced body) :
    readMake ('"' :: (name ++ ' ' :: bracketed body)) = .ok (.makeList name body) := by
  obtain ⟨htake, hdrop⟩ := takeWhile_inWord hname.plain (bracketed body)
  have htight := tight_bracketed body
  simp only [readMake, htake, hdrop, htight.trim_blank_cons, hname.isEmpty_eq, htight.isEmpty_eq,
    startsWith_bracketed, hname.lowerCase, readInterior_bracketed hbody]
  rfl

theorem readCount_written (ht : Expr.Written .sum t e) : readCount (t ++ [' ']).trim = .ok e := by
  have htight := ht.phrase.tight
  simp only [readCount, htight.trim_append_blank, htight.isEmpty_eq, ht.readExpr_eq]
  rfl

/-- The keyword and the count stand on one line, in front of the first bracket. -/
theorem newlines_before_body (ht : Phrase t) :
    Text.newlines ((Kind.keyword .repeat ++ ' ' :: (t ++ ' ' :: bracketed body)).takeWhile
      (· ≠ '[')) = 0 := by
  have hfront : ∀ {c}, isPlain c = false → c ∉ [' ', '+', '-', '*', '/', '^', '(', ')'] →
      c ∉ Kind.keyword .repeat ++ ' ' :: (t ++ [' ']) := by
    intro c hplain hc
    have hkeyword : c ∉ Kind.keyword .repeat := fun hmem => by
      rw [plain_keyword _ c hmem] at hplain
      cases hplain
    have hblank : c ≠ ' ' := fun hc' => hc (hc' ▸ List.mem_cons_self)
    simp [hkeyword, hblank, ht.not_mem hplain hc]
  have hsplit : Kind.keyword .repeat ++ ' ' :: (t ++ ' ' :: bracketed body) =
      (Kind.keyword .repeat ++ ' ' :: (t ++ [' '])) ++ bracketed body := by
    simp
  have hbracket : ∀ c ∈ Kind.keyword .repeat ++ ' ' :: (t ++ [' ']), decide (c ≠ '[') = true := by
    intro c hc
    have hne : c ≠ '[' := fun hc' => hfront (by decide) (by decide) (hc' ▸ hc)
    simp [hne]
  rw [hsplit, List.takeWhile_append_of_pos hbracket, bracketed,
    List.takeWhile_cons_of_neg (by decide), List.append_nil]
  exact List.count_eq_zero.mpr (hfront (by decide) (by decide))

theorem readRepeat_body (ht : Expr.Written .sum t e) (hbody : Balanced body)
    (htext : s.text = Kind.keyword .repeat ++ ' ' :: (t ++ ' ' :: bracketed body)) :
    readRepeat s (t ++ ' ' :: bracketed body) = .ok (.repeatBody e body s.line) := by
  have hcount : '[' ∉ t := ht.phrase.not_mem (by decide) (by decide)
  have hbracket : '[' ∉ t ++ [' '] := by simp [hcount]
  have hcut : Text.cutBefore '[' (t ++ ' ' :: bracketed body) = some (t ++ [' '], bracketed body) := by
    have hsplit := cutBefore_append_of_not_mem hbracket (body ++ [']'])
    rwa [List.append_assoc] at hsplit
  have hempty : (t ++ ' ' :: bracketed body).isEmpty = false := by simp
  simp only [readRepeat, hempty, hcut, readInterior_bracketed hbody, readCount_written ht, htext,
    newlines_before_body ht.phrase]
  simp [bind, Except.bind, pure, Except.pure]

theorem readRepeat_named (ht : Expr.Written .sum t e) (hname : IsName name) :
    readRepeat s (t ++ ' ' :: ':' :: name) = .ok (.repeatNamed e name) := by
  have hplain := Expr.plain_reference hname
  have hcount : '[' ∉ t := ht.phrase.not_mem (by decide) (by decide)
  have hplainName : '[' ∉ name := fun hmem => by cases hname.plain '[' hmem
  have hbracket : '[' ∉ t ++ ' ' :: ':' :: name := by simp [hcount, hplainName]
  have hempty : (t ++ ' ' :: ':' :: name).isEmpty = false := by simp
  have hbefore : (t ++ [' ']).isEmpty = false := by simp
  simp only [readRepeat, hempty, cutBefore_of_not_mem hbracket, cutLastWord_append_of_plain hplain,
    hbefore, hname.isEmpty_eq, readCount_written ht, hname.lowerCase]
  rfl

theorem readNotePosition_label (hlabel : Balanced label) (htrim : label.trim = label) :
    readNotePosition (bracketed label) = .ok (.notePosition (some label)) := by
  have hempty := (tight_bracketed label).isEmpty_eq
  simp only [readNotePosition, hempty, startsWith_bracketed, readInterior_bracketed hlabel]
  simp [Except.map, htrim]

theorem readMarker_label (hlabel : Balanced label) (htrim : label.trim = label) :
    readMarker (bracketed label) = .ok (.marker (some label) none) := by
  have hempty := (tight_bracketed label).isEmpty_eq
  have hclosing := closingFrom_bracketed hlabel []
  have hdrop := drop_bracketed label []
  have hinterior := interior_bracketed label []
  rw [List.append_nil] at hclosing hdrop hinterior
  simp only [readMarker, hempty, startsWith_bracketed, hclosing, hdrop, hinterior, htrim]
  rfl

theorem readMarker_place (ht : Expr.Written .sum t x) (hu : Expr.Written .sum u y) :
    readMarker (paired t u) = .ok (.marker none (some (x, y))) := by
  have hempty : (paired t u).isEmpty = false := by simp [paired]
  have hfirst : '[' ∉ t := ht.phrase.not_mem (by decide) (by decide)
  have hsecond : '[' ∉ u := hu.phrase.not_mem (by decide) (by decide)
  have hbracket : '[' ∉ paired t u := by simp [paired, hfirst, hsecond]
  simp only [readMarker, hempty, startsWith_of_not_mem hbracket, (readPlace_paired ht hu).1]
  rfl

theorem readMarker_both (hlabel : Balanced label) (htrim : label.trim = label)
    (ht : Expr.Written .sum t x) (hu : Expr.Written .sum u y) :
    readMarker (paired (bracketed label) (paired t u)) =
      .ok (.marker (some label) (some (x, y))) := by
  have hempty : (paired (bracketed label) (paired t u)).isEmpty = false := by
    simp [paired]
  have hstart : Text.startsWith '[' (paired (bracketed label) (paired t u)) = true := rfl
  have hcomma : Tight [','] := tight_singleton (by decide)
  -- What follows the label starts with a comma, so no blank is cut off.
  have hplace : Text.trim (',' :: ' ' :: paired t u) = ',' :: ' ' :: paired t u := by
    have htight := hcomma.around hu.phrase.tight (' ' :: (t ++ [',', ' ']))
    have htrimmed := htight.trim
    simpa [paired] using htrimmed
  rw [paired] at hempty hstart ⊢
  simp only [readMarker, hempty, hstart, closingFrom_bracketed hlabel, drop_bracketed,
    interior_bracketed, htrim, hplace, (readPlace_paired ht hu).2]
  rfl

/-- Written arguments are read back. -/
theorem WrittenArguments.readArguments_eq (h : WrittenArguments line kind t action)
    (htext : s.text = kind.keyword ++ ' ' :: t) (hline : s.line = line) :
    readArguments s kind t = .ok action := by
  subst hline
  cases h with
  | value takes written =>
    rw [readArguments_value takes written.phrase.tight.nonempty, written.readExpr_eq]
    rfl
  | pair takes first second =>
    rw [readArguments_pair takes]
    exact readTwoValues_paired _ first second
  | makeNumber isName written => exact readMake_number isName written
  | makeList isName isBody => exact readMake_list isName isBody.balanced
  | repeatBody written isBody => exact readRepeat_body written isBody.balanced htext
  | repeatNamed written isName => exact readRepeat_named written isName
  | positionLabel isLabel trimmed => exact readNotePosition_label isLabel.balanced trimmed
  | markerLabel isLabel trimmed => exact readMarker_label isLabel.balanced trimmed
  | markerPlace first second => exact readMarker_place first second
  | markerBoth isLabel trimmed first second =>
    exact readMarker_both isLabel.balanced trimmed first second

end Arguments

theorem spelling_of_keyword {kind : Kind} (h : kind ≠ .call) :
    Kind.ofSpelling? (Text.capitals kind.keyword) = some kind := by
  cases kind with
  | call => exact absurd rfl h
  | _ => decide

/-- A statement that starts with a keyword is read by its arguments. -/
theorem action_of_keyword {s : Statement} {kind : Kind} (hkind : kind ≠ .call) {rest : Text}
    (hword : s.text.takeWhile inWord = kind.keyword)
    (hrest : Text.trim (s.text.dropWhile inWord) = rest) :
    s.action = readArguments s kind rest := by
  have hhead : kind.keyword ≠ [] ∧ ∀ name, kind.keyword ≠ ':' :: name := by
    cases kind <;> exact ⟨nofun, nofun⟩
  simp only [Statement.action, hword, hrest]
  split
  · rename_i hnil
    exact absurd hnil hhead.1
  · rename_i name hname
    exact absurd hname (hhead.2 name)
  · rw [spelling_of_keyword hkind]

theorem WrittenArguments.kind_ne_call {line : Int} {kind : Kind} {t : Text} {action : Action}
    (h : WrittenArguments line kind t action) : kind ≠ .call := by
  rintro rfl
  cases h with
  | value takes _ => cases takes
  | pair takes _ _ => cases takes

/-- A written statement is read back. -/
theorem WrittenStatement.action_eq {line : Int} {t : Text} {action : Action}
    (h : WrittenStatement line t action) {s : Statement} (htext : s.text = t) (hline : s.line = line) :
    s.action = .ok action := by
  cases h with
  | @bare kind _ takes =>
    have hkind : kind ≠ .call := by
      rintro rfl
      cases takes
    have hword : ∀ c ∈ kind.keyword, inWord c := fun c hc => inWord_of_isPlain (plain_keyword kind c hc)
    have hrest : Text.trim (s.text.dropWhile inWord) = [] := by
      rw [htext, List.dropWhile_eq_nil_iff.mpr hword]
      rfl
    rw [action_of_keyword hkind _ hrest, readArguments_bare takes]
    rw [htext, List.takeWhile_eq_self_iff.mpr hword]
  | @arguments kind t _ written =>
    obtain ⟨hword, hrest⟩ := takeWhile_inWord (plain_keyword kind) t
    rw [← htext] at hword hrest
    have htrim : Text.trim (s.text.dropWhile inWord) = t := by
      rw [hrest]
      exact written.part_and_tight.2.trim_blank_cons
    rw [action_of_keyword written.kind_ne_call hword htrim]
    exact written.readArguments_eq htext hline
  | @call name isName =>
    have hplain := Expr.plain_reference isName
    have hword : ∀ c ∈ ':' :: name, inWord c := fun c hc => inWord_of_isPlain (hplain c hc)
    simp only [Statement.action, htext, List.takeWhile_eq_self_iff.mpr hword,
      List.dropWhile_eq_nil_iff.mpr hword, readCall, isName.isEmpty_eq, isName.lowerCase]
    rfl

end TurtleTrace
