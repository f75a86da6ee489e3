import TurtleTrace.Proofs.Script.Coverage
import TurtleTrace.Proofs.Script.Written

/-!
# Separators outside brackets

A text is cut at the separators that stand at depth zero, where brackets and parentheses count alike and
a closing one too many is passed over. So a text without such a separator is not cut, and what stands in
front of it decides the depth at which it starts. Blanks at the ends of a text stay at the ends of its
parts, and the parentheses of an expression leave the depth as it was.

Each part can be judged on its own, with the depth counted from zero, and there is no other way to take
the text apart at its separators.

* `topDepth`: the depth after one more character.
* `Unsplit`: texts without a separator at depth zero.
-/

namespace TurtleTrace

set_option autoImplicit false

/-! ## Depth -/

/-- The depth of open brackets and parentheses after one more character. -/
def topDepth (depth : Nat) (c : Char) : Nat :=
  if c = '[' ∨ c = '(' then depth + 1 else if c = ']' ∨ c = ')' then depth - 1 else depth

/-- No separator stands at depth zero, from a given depth on. -/
def Unsplit (separator : Char) (depth : Nat) (t : Text) : Prop :=
  ∀ a b, t = a ++ separator :: b → a.foldl topDepth depth ≠ 0

theorem unsplit_of_not_mem {separator : Char} {t : Text} (h : separator ∉ t) (depth : Nat) :
    Unsplit separator depth t := by
  rintro a b rfl
  exact absurd (List.mem_append_right a List.mem_cons_self) h

theorem unsplit_cons_iff {separator c : Char} {depth : Nat} {t : Text} :
    Unsplit separator depth (c :: t) ↔
      (c = separator → depth ≠ 0) ∧ Unsplit separator (topDepth depth c) t := by
  constructor
  · intro h
    refine ⟨?_, ?_⟩
    · rintro rfl
      exact h [] t rfl
    · rintro a b rfl
      exact h (c :: a) b rfl
  · rintro ⟨hc, ht⟩ a b heq
    cases a with
    | nil =>
      cases heq
      exact hc rfl
    | cons d a =>
      cases heq
      exact ht a b rfl

/-- A text is not split, or its first part ends at a separator. -/
theorem unsplit_or_exists (separator : Char) (depth : Nat) (t : Text) :
    Unsplit separator depth t ∨ ∃ a b, t = a ++ separator :: b ∧ Unsplit separator depth a ∧
      a.foldl topDepth depth = 0 := by
  induction t generalizing depth with
  | nil => exact .inl (unsplit_of_not_mem List.not_mem_nil depth)
  | cons c t ih =>
    by_cases hc : c = separator ∧ depth = 0
    · obtain ⟨rfl, rfl⟩ := hc
      exact .inr ⟨[], t, rfl, unsplit_of_not_mem List.not_mem_nil 0, rfl⟩
    · have hfront : c = separator → depth ≠ 0 := fun hsep hdepth => hc ⟨hsep, hdepth⟩
      obtain h | ⟨a, b, rfl, ha, hzero⟩ := ih (topDepth depth c)
      · exact .inl (unsplit_cons_iff.mpr ⟨hfront, h⟩)
      · exact .inr ⟨c :: a, b, rfl, unsplit_cons_iff.mpr ⟨hfront, ha⟩, hzero⟩

/-! ## Parts -/

theorem exists_cons_of_splitTopFrom (separator : Char) (depth : Nat) (t : Text) :
    ∃ part parts, splitTopFrom separator depth t = part :: parts := by
  have hfirst : ∀ (c : Char) (parts : List Text), ∃ part rest, consFirst c parts = part :: rest := by
    intro c parts
    cases parts with
    | nil => exact ⟨[c], [], rfl⟩
    | cons part rest => exact ⟨c :: part, rest, rfl⟩
  cases t with
  | nil => exact ⟨[], [], rfl⟩
  | cons c t =>
    unfold splitTopFrom
    split
    · exact hfirst c _
    · split
      · exact hfirst c _
      · split
        · exact ⟨[], _, rfl⟩
        · exact hfirst c _

/-- A character that does not separate goes to the first part. -/
theorem splitTopFrom_cons {separator c : Char} {depth : Nat} (h : c = separator → depth ≠ 0) (t : Text) :
    splitTopFrom separator depth (c :: t) =
      consFirst c (splitTopFrom separator (topDepth depth c) t) := by
  rw [splitTopFrom, topDepth]
  split
  · rfl
  · split
    · rfl
    · rw [if_neg fun hsep => h hsep.1 hsep.2]

/-- A text that is not split goes to the first part as a whole. -/
theorem Unsplit.split_append {separator : Char} {depth : Nat} {t : Text}
    (h : Unsplit separator depth t) (rest : Text) :
    splitTopFrom separator depth (t ++ rest) =
      t.foldr consFirst (splitTopFrom separator (t.foldl topDepth depth) rest) := by
  induction t generalizing depth with
  | nil => rfl
  | cons c t ih =>
    obtain ⟨hc, ht⟩ := unsplit_cons_iff.mp h
    rw [List.cons_append, splitTopFrom_cons hc, ih ht, List.foldr_cons, List.foldl_cons]

theorem Unsplit.split_eq {separator : Char} {t : Text} (h : Unsplit separator 0 t) :
    splitTopLevel separator t = [t] := by
  have hsplit := h.split_append []
  rwa [List.append_nil, splitTopFrom, foldr_consFirst, List.append_nil] at hsplit

/-- A separator at depth zero ends the first part. -/
theorem Unsplit.split_separator {separator : Char} (hseparator : separator ∉ ['[', '(', ']', ')'])
    {t : Text} (h : Unsplit separator 0 t) (hdepth : t.foldl topDepth 0 = 0) (rest : Text) :
    splitTopLevel separator (t ++ separator :: rest) = t :: splitTopLevel separator rest := by
  simp only [List.mem_cons, List.not_mem_nil, or_false, not_or] at hseparator
  have hfirst : splitTopFrom separator 0 (separator :: rest) = [] :: splitTopLevel separator rest := by
    simp [splitTopLevel, splitTopFrom, hseparator]
  rw [splitTopLevel, h.split_append, hdepth, hfirst, foldr_consFirst, List.append_nil]

theorem Unsplit.split_comma {t : Text} (h : Unsplit ',' 0 t) (hdepth : t.foldl topDepth 0 = 0)
    (rest : Text) : splitTopLevel ',' (t ++ ',' :: rest) = t :: splitTopLevel ',' rest :=
  h.split_separator (by decide) hdepth rest

/-- A comma at another depth belongs to the first part. -/
theorem Unsplit.split_open {t : Text} (h : Unsplit ',' 0 t) (hdepth : t.foldl topDepth 0 ≠ 0)
    (rest : Text) :
    ∃ more parts, splitTopLevel ',' (t ++ ',' :: rest) = (t ++ ',' :: more) :: parts := by
  obtain ⟨part, parts, hrest⟩ := exists_cons_of_splitTopFrom ',' (t.foldl topDepth 0) rest
  have hcomma : splitTopFrom ',' (t.foldl topDepth 0) (',' :: rest) = (',' :: part) :: parts := by
    simp [splitTopFrom, hdepth, hrest, consFirst]
  exact ⟨part, parts, by rw [splitTopLevel, h.split_append, hcomma, foldr_consFirst]⟩

/-! ## The only parts -/

theorem Text.join_cons {separator : Char} {parts : List Text} (h : parts ≠ []) (part : Text) :
    join [separator] (part :: parts) = part ++ separator :: join [separator] parts := by
  cases parts with
  | nil => exact absurd rfl h
  | cons next rest => simp [join]

/-- Every text has parts that are not split and that, up to the last, end at depth zero. -/
theorem exists_parts (separator : Char) (t : Text) :
    ∃ front last, Text.join [separator] (front ++ [last]) = t ∧
      (∀ part ∈ front ++ [last], Unsplit separator 0 part) ∧
      ∀ part ∈ front, part.foldl topDepth 0 = 0 := by
  obtain hunsplit | ⟨a, b, hcut, ha, hzero⟩ := unsplit_or_exists separator 0 t
  · exact ⟨[], t, rfl, fun part hpart => List.mem_singleton.mp hpart ▸ hunsplit, List.forall_mem_nil _⟩
  · obtain ⟨front, last, hjoin, hparts, hclosed⟩ := exists_parts separator b
    refine ⟨a :: front, last, ?_, ?_, List.forall_mem_cons.mpr ⟨hzero, hclosed⟩⟩
    · rw [List.cons_append, Text.join_cons (by simp), hjoin, hcut]
    · rw [List.cons_append]
      exact List.forall_mem_cons.mpr ⟨ha, hparts⟩
termination_by t.length
decreasing_by
  rw [hcut, List.length_append, List.length_cons]
  omega

/-- Such parts are found again in what they are joined to, the first of them first. -/
theorem splitTopLevel_join {separator : Char} (hseparator : separator ∉ ['[', '(', ']', ')'])
    {front : List Text} {last : Text} (hparts : ∀ part ∈ front ++ [last], Unsplit separator 0 part)
    (hclosed : ∀ part ∈ front, part.foldl topDepth 0 = 0) :
    splitTopLevel separator (Text.join [separator] (front ++ [last])) = front ++ [last] := by
  induction front with
  | nil => exact (hparts last List.mem_cons_self).split_eq
  | cons part front ih =>
    rw [List.cons_append] at hparts ⊢
    obtain ⟨hpart, hrest⟩ := List.forall_mem_cons.mp hparts
    obtain ⟨hzero, hfront⟩ := List.forall_mem_cons.mp hclosed
    rw [Text.join_cons (by simp), hpart.split_separator hseparator hzero, ih hrest hfront]

/-- A separator that is not a bracket or a parenthesis: the parts of a text are the only list of parts,
with a last one, that gives the text when joined by the separator, in which no part holds the separator
at depth zero and every part but the last ends at depth zero. The depth starts at zero in each part. -/
theorem eq_splitTopLevel_iff {separator : Char} (hseparator : separator ∉ ['[', '(', ']', ')'])
    (t : Text) (parts : List Text) :
    parts = splitTopLevel separator t ↔
      Text.join [separator] parts = t ∧ (∀ part ∈ parts, Unsplit separator 0 part) ∧
        ∃ front last, parts = front ++ [last] ∧ ∀ part ∈ front, part.foldl topDepth 0 = 0 := by
  constructor
  · rintro rfl
    obtain ⟨front, last, rfl, hparts, hclosed⟩ := exists_parts separator t
    rw [splitTopLevel_join hseparator hparts hclosed]
    exact ⟨rfl, hparts, front, last, rfl, hclosed⟩
  · rintro ⟨rfl, hparts, front, last, rfl, hclosed⟩
    exact (splitTopLevel_join hseparator hparts hclosed).symm

/-- Mixed and stray brackets: the parenthesis closes the bracket, whose own end is then one too many, and
the last part ends inside a parenthesis. -/
theorem parts_of_mixed_brackets :
    let t := "a;[b;c)];d(;e".toList
    let parts := ["a".toList, "[b;c)]".toList, "d(;e".toList]
    ';' ∉ ['[', '(', ']', ')'] ∧ parts = splitTopLevel ';' t ∧ Text.join [';'] parts = t ∧
      (∀ part ∈ parts, Unsplit ';' 0 part) ∧
      ∃ front last, parts = front ++ [last] ∧ ∀ part ∈ front, part.foldl topDepth 0 = 0 := by
  intro t parts
  have hparts : parts = splitTopLevel ';' t := by decide
  exact ⟨by decide, hparts, (eq_splitTopLevel_iff (by decide) t parts).mp hparts⟩

/-! ## Blanks at the ends -/

theorem splits_around_blanks {w : Text} (hw : ∀ c ∈ w, isBlank c) :
    ∀ c ∈ w, c ∉ ['[', '(', ']', ')', ','] := by
  intro c hc hmem
  have hblank := hw c hc
  simp only [List.mem_cons, List.not_mem_nil, or_false] at hmem
  obtain rfl | rfl | rfl | rfl | rfl := hmem <;> cases hblank

theorem map_trim_split_left {w : Text} (hw : ∀ c ∈ w, isBlank c) (t : Text) :
    (splitTopLevel ',' (w ++ t)).map Text.trim = (splitTopLevel ',' t).map Text.trim := by
  obtain ⟨part, parts, hparts⟩ := exists_cons_of_splitTopFrom ',' 0 t
  rw [splitTopLevel, splitTopLevel, splitTopFrom_append (splits_around_blanks hw), hparts,
    foldr_consFirst, List.map_cons, List.map_cons, Text.trim_append_left hw]

/-- Blanks behind a text belong to its last part. -/
theorem exists_split_right {w : Text} (hw : ∀ c ∈ w, isBlank c) (depth : Nat) (t : Text) :
    ∃ front last, splitTopFrom ',' depth t = front ++ [last] ∧
      splitTopFrom ',' depth (t ++ w) = front ++ [last ++ w] := by
  have hcons : ∀ (c : Char) {ps qs : List Text},
      (∃ front last, ps = front ++ [last] ∧ qs = front ++ [last ++ w]) →
      ∃ front last, consFirst c ps = front ++ [last] ∧ consFirst c qs = front ++ [last ++ w] := by
    rintro c _ _ ⟨front, last, rfl, rfl⟩
    cases front with
    | nil => exact ⟨[], c :: last, rfl, rfl⟩
    | cons part front => exact ⟨(c :: part) :: front, last, rfl, rfl⟩
  induction t generalizing depth with
  | nil =>
    have hblank := splitTopFrom_append (splits_around_blanks hw) depth []
    rw [splitTopFrom, foldr_consFirst, List.append_nil] at hblank
    exact ⟨[], [], rfl, hblank⟩
  | cons c t ih =>
    rw [List.cons_append]
    unfold splitTopFrom
    split
    · exact hcons c (ih _)
    · split
      · exact hcons c (ih _)
      · split
        · obtain ⟨front, last, hfront, hwhole⟩ := ih depth
          exact ⟨[] :: front, last, by rw [hfront]; rfl, by rw [hwhole]; rfl⟩
        · exact hcons c (ih _)

/-- Trimming a text changes its parts at their ends only. -/
theorem map_trim_splitTopLevel (t : Text) :
    (splitTopLevel ',' t.trim).map Text.trim = (splitTopLevel ',' t).map Text.trim := by
  obtain ⟨tail, htail, ht⟩ := t.exists_trim
  conv => rhs; rw [ht]
  obtain ⟨front, last, hfront, hwhole⟩ := exists_split_right htail 0 t.trim
  rw [map_trim_split_left (takeWhile_isBlank t), splitTopLevel, splitTopLevel, hfront, hwhole,
    List.map_append, List.map_append, List.map_singleton, List.map_singleton,
    Text.trim_append_right htail]

/-! ## Expressions -/

/-- The depth after one more token. -/
def Token.depth (depth : Nat) : Token → Nat
  | .sign .opening => depth + 1
  | .sign .closing => depth - 1
  | _ => depth

theorem Token.depth_flush (depth : Nat) (letters : Text) :
    (flush letters).foldl Token.depth depth = depth := by
  cases letters <;> rfl

/-- Outside brackets the depth follows from the tokens. -/
theorem Token.depth_scanFrom {t : Text} (hopen : '[' ∉ t) (hclose : ']' ∉ t) (depth : Nat)
    (letters : Text) :
    (scanFrom letters t).foldl Token.depth depth = t.foldl topDepth depth := by
  induction t generalizing depth letters with
  | nil => exact depth_flush depth letters
  | cons c t ih =>
    have hrest := ih (fun h => hopen (List.mem_cons_of_mem c h)) fun h =>
      hclose (List.mem_cons_of_mem c h)
    have hopening : c ≠ '[' := fun hc => hopen (hc ▸ List.mem_cons_self)
    have hclosing : c ≠ ']' := fun hc => hclose (hc ▸ List.mem_cons_self)
    rw [List.foldl_cons, scanFrom]
    split
    · rename_i hblank
      have hparens : c ≠ '(' ∧ c ≠ ')' := by
        constructor <;> rintro rfl <;> cases hblank
      have hsame : topDepth depth c = depth := by simp [topDepth, hopening, hclosing, hparens]
      rw [List.foldl_append, depth_flush, hrest, hsame]
    · split
      · rename_i s hsign
        have hsame : topDepth depth c = Token.depth depth (.sign s) := by
          unfold Sign.ofChar? at hsign
          split at hsign <;> cases hsign <;> rfl
        rw [List.foldl_append, depth_flush, List.foldl_cons, hrest, hsame]
      · rename_i hsign
        have hparens : c ≠ '(' ∧ c ≠ ')' := by
          constructor <;> rintro rfl <;> cases hsign
        have hsame : topDepth depth c = depth := by simp [topDepth, hopening, hclosing, hparens]
        rw [hrest, hsame]

/-- The parentheses of an expression match. -/
theorem Expr.Derives.depth_eq {level : Level} {ts : List Token} {e : Expr} (h : Derives level ts e)
    (depth : Nat) : ts.foldl Token.depth depth = depth := by
  induction h generalizing depth with
  | ofProduct _ ih | ofPower _ ih | ofUnary _ ih | ofAtom _ ih => exact ih depth
  | add _ _ hl hr | sub _ _ hl hr | mul _ _ hl hr | div _ _ hl hr | pow _ _ hl hr =>
    rw [List.foldl_append, hl, List.foldl_cons]
    exact hr depth
  | negate _ ih => exact ih depth
  | parens _ ih =>
    rw [List.foldl_cons, List.foldl_append, ih]
    rfl
  | apply _ _ ih => exact ih depth
  | reference | literal => rfl

/-- An accepted expression without brackets leaves the depth as it was. -/
theorem Expr.foldl_topDepth_of_parse? {t : Text} {e : Expr} (h : parse? t = some e)
    (hopen : '[' ∉ t) (hclose : ']' ∉ t) (depth : Nat) : t.foldl topDepth depth = depth := by
  rw [← Token.depth_scanFrom hopen hclose depth []]
  exact (ofTokens?_eq_some_iff.mp h).depth_eq depth

end TurtleTrace
