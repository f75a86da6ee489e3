import Mathlib.Data.List.Infix
import TurtleTrace.Proofs.Script.Blanked

/-!
# Texts that are read again

The body of a loop and a stored instruction list are kept as text and read when they run, and so are
the bodies and lists in them. However often a text is cut out in this way, it is part of the source with
its comments blanked, and reading it finds no comment and reports none as unclosed.

* `Action.kept?`: the text that an action keeps.
* `Kept`: the texts that a source and the texts kept from it keep.
-/

namespace TurtleTrace

set_option autoImplicit false

/-! ## Kept texts -/

/-- The text that an action keeps to be read when it runs. -/
def Action.kept? : Action → Option Text
  | repeatBody _ body _ => some body
  | makeList _ body => some body
  | _ => none

/-- The texts that are kept when a source is read, and when a text is read that was kept from it. -/
inductive Kept (source : Text) : Text → Prop where
  | ofSource {line : Int} {c : Command} {text : Text} (here : c ∈ (parse line source).commands)
      (kept : c.action.kept? = some text) : Kept source text
  | ofKept {line : Int} {c : Command} {outer text : Text} (outside : Kept source outer)
      (here : c ∈ (parse line outer).commands) (kept : c.action.kept? = some text) : Kept source text

/-! ## Where they stand -/

theorem Text.trim_isInfix (t : Text) : t.trim <:+: t := by
  obtain ⟨tail, -, ht⟩ := t.exists_trim
  exact ⟨t.takeWhile isBlank, tail, by rw [List.append_assoc, ← ht]⟩

theorem readInterior_isInfix {what : Enclosure} {t body : Text} (h : readInterior what t = .ok body) :
    body <:+: t := by
  unfold readInterior at h
  split at h
  · cases h
  · split at h
    · cases h
      exact (List.drop_suffix _ _).isInfix.trans (List.take_prefix _ _).isInfix
    · cases h

theorem exists_of_startsWith {c : Char} {t : Text} (h : t.startsWith c = true) :
    ∃ rest, t = c :: rest := by
  refine List.head?_eq_some_iff.mp ?_
  simpa [Text.startsWith] using h

theorem readMake_makeList {rest name body : Text} (h : readMake rest = .ok (.makeList name body)) :
    ∃ inside, '[' :: inside <:+: rest ∧ readInterior .storedList ('[' :: inside) = .ok body := by
  unfold readMake at h
  split at h
  · rename_i rest
    simp only at h
    split at h
    · cases h
    split at h
    · cases h
    split at h
    · rename_i hstart
      obtain ⟨inside, hvalue⟩ := exists_of_startsWith hstart
      rw [hvalue] at h
      cases hbody : readInterior .storedList ('[' :: inside) with
      | error fault =>
        rw [hbody] at h
        cases h
      | ok text =>
        rw [hbody] at h
        cases h
        have hinside : Text.trim (rest.dropWhile inWord) <:+: rest :=
          (Text.trim_isInfix _).trans (List.dropWhile_suffix _).isInfix
        rw [hvalue] at hinside
        exact ⟨inside, hinside.trans (List.suffix_cons _ _).isInfix, hbody⟩
    · obtain ⟨a, ha⟩ := Reading.exists_of_map h
      cases ha
  · cases h

theorem kept_of_arguments {s : Statement} {kind : Kind} {rest text : Text} {action : Action}
    (h : readArguments s kind rest = .ok action) (hkept : action.kept? = some text) :
    ∃ what inside, '[' :: inside <:+: rest ∧ readInterior what ('[' :: inside) = .ok text := by
  have hkind := kind_of_readArguments h
  unfold Action.kept? at hkept
  split at hkept
  · cases hkept
    obtain ⟨⟨before, bracket, hcut, hbody⟩, -⟩ := readArguments_eq_repeatBody h
    obtain ⟨inside, rfl⟩ := Text.head_of_cutBefore hcut
    have hbracket : '[' :: inside <:+ rest := ⟨before, Text.cutBefore_append hcut⟩
    exact ⟨_, inside, hbracket.isInfix, hbody⟩
  · cases hkept
    subst hkind
    exact ⟨_, readMake_makeList h⟩
  · cases hkept

/-- What an action keeps was read from between brackets of its statement. -/
theorem Statement.exists_kept {s : Statement} {action : Action} {text : Text}
    (h : s.action = .ok action) (hkept : action.kept? = some text) :
    ∃ what inside, '[' :: inside <:+: s.text ∧ readInterior what ('[' :: inside) = .ok text := by
  unfold Statement.action at h
  simp only at h
  split at h
  · cases h
  · unfold readCall at h
    split at h
    · cases h
    · split at h
      · cases h
        cases hkept
      · cases h
  · split at h
    · cases h
    · have hrest := (Text.trim_isInfix _).trans (List.dropWhile_suffix inWord (l := s.text)).isInfix
      obtain ⟨what, inside, hinside, hread⟩ := kept_of_arguments h hkept
      exact ⟨what, inside, hinside.trans hrest, hread⟩

/-- What a command of a text keeps is part of the text without its comments. -/
theorem kept_isInfix_clean {line : Int} {t text : Text} {c : Command}
    (h : c ∈ (parse line t).commands) (hkept : c.action.kept? = some text) :
    text <:+: (clean line t).text := by
  obtain ⟨s, hs, haction, -⟩ := mem_commands_parse h
  obtain ⟨a, b, haround, -⟩ := (laid_chunksFrom ⟨line, 1⟩ (clean line t).text).exists_around hs
  have hstatement : s.text <:+: (clean line t).text := ⟨a, b, by rw [haround, List.append_assoc]⟩
  obtain ⟨what, inside, hinside, hread⟩ := s.exists_kept haction hkept
  exact ((readInterior_isInfix hread).trans hinside).trans hstatement

/-- Kept texts are parts of the blanked source. -/
theorem Kept.isInfix_clean (firstLine : Int) {source text : Text} (hreturn : '\r' ∉ source)
    (h : Kept source text) : text <:+: (clean firstLine source).text := by
  -- By the texts around it; each of them has no comments, so reading it blanks nothing more.
  induction h with
  | ofSource here kept =>
    -- The line on which a source starts does not change what is left of it.
    have hinside := kept_isInfix_clean here kept
    exact hinside
  | @ofKept line c outer text _ here kept ih =>
    have hinside := kept_isInfix_clean here kept
    rw [((quiet_clean firstLine hreturn).of_isInfix ih).clean_eq line] at hinside
    exact hinside.trans ih

/-! ## Reading without comments -/

/-- No fault of a statement is worded like a comment without an end. -/
theorem StatementFault.message_ne_unclosedMessage (fault : StatementFault) :
    fault.message ≠ unclosedMessage := by
  -- Three letters tell them apart.
  have hstart : unclosedMessage.take 3 = ['U', 'n', 'c'] := by decide +kernel
  have hfront : ∀ {front message : Text}, ¬ front.take 3 <+: ['U', 'n', 'c'] → front <+: message →
      message ≠ unclosedMessage := by
    rintro front _ hne hprefix rfl
    rw [← hstart] at hne
    exact hne (List.IsPrefix.take hprefix 3)
  have hkeyword : ∀ kind : Kind, ¬ kind.keyword.take 3 <+: ['U', 'n', 'c'] := by
    intro kind
    cases kind <;> decide +kernel
  have htitle : ∀ what : Enclosure, ¬ what.title.take 3 <+: ['U', 'n', 'c'] := by
    intro what
    cases what <;> decide +kernel
  cases fault with
  | noKeyword | unknownKeyword | badExpression | missingValue | textAfterCall | textAfter =>
    exact hfront (by decide +kernel) (List.prefix_append _ _)
  | needsNothing kind | needsValue kind => exact hfront (hkeyword kind) (List.prefix_append _ _)
  | needsTwoValues kind =>
    exact hfront (hkeyword kind) ((List.prefix_append _ _).trans (List.prefix_append _ _))
  | tooManyValues =>
    exact hfront (by decide +kernel) ((List.prefix_append _ _).trans (List.prefix_append _ _))
  | unclosed what => exact hfront (htitle what) (List.prefix_append _ _)
  | _ => exact hfront (by decide +kernel) List.prefix_rfl

theorem Quiet.lex_eq {t : Text} (h : Quiet t) (line : Int) :
    lex line t = ⟨statements line t, [], []⟩ := by
  simp only [lex, h.clean_eq line]
  rfl

theorem Quiet.message_mem_diagnostics {t : Text} (h : Quiet t) {line : Int} {d : Diagnostic}
    (hd : d ∈ (parse line t).diagnostics) : d.message ≠ unclosedMessage := by
  rw [diagnostics_parse, h.clean_eq line] at hd
  obtain ⟨s, -, hs⟩ := List.mem_filterMap.mp hd
  unfold Statement.report? at hs
  split at hs
  · cases hs
  · cases hs
    exact StatementFault.message_ne_unclosedMessage _

/-! ## Blanked sources -/

/-- A character stays or turns into a space, unless it is a line end. -/
theorem getElem?_of_stays {s t : Text} (h : List.Forall₂ Stays s t) (i : Nat) :
    t[i]? = s[i]? ∨ t[i]? = some ' ' ∧ s[i]? ≠ some '\n' := by
  induction h generalizing i with
  | nil => exact .inl rfl
  | @cons c d s t hstays _ ih =>
    cases i with
    | succ i => simpa using ih i
    | zero =>
      obtain rfl | rfl := hstays
      · exact .inl rfl
      · unfold blankChar
        split
        · rename_i hc
          subst hc
          exact .inl rfl
        · rename_i hc
          refine .inr ⟨rfl, ?_⟩
          simpa using hc

/-- Neighbours that are apart write no mark. -/
theorem not_isInfix_of_apart {t : Text} (h : t.IsChain Apart) {c : Char} (hc : c = '/' ∨ c = '*') :
    ¬ ['/', c] <:+: t := by
  intro hmark
  have hmarked := List.IsChain.infix h hmark
  have hpair := List.isChain_pair.mp hmarked
  obtain rfl | rfl := hc
  · exact (hpair rfl).1 rfl
  · exact (hpair rfl).2 rfl

/-- A source without carriage returns, with its comments blanked: it is as long as the source, with line
ends where the source has them and every other character unchanged or a space, and no mark of a comment
is left in it. So taking it apart gives the statements of the source, at their places, and nothing else.
A text that is kept from the source, however deep, is part of it; wherever it is read, there is no
comment in it and none is reported as unclosed. -/
theorem clean_leaves_no_marks (firstLine : Int) {source : Text} (hreturn : '\r' ∉ source) :
    let blanked := (clean firstLine source).text
    blanked.length = source.length ∧
      (∀ i : Nat, (blanked[i]? = some '\n' ↔ source[i]? = some '\n') ∧
        (blanked[i]? = source[i]? ∨ blanked[i]? = some ' ')) ∧
      ('#' ∉ blanked ∧ ¬ ['/', '/'] <:+: blanked ∧ ¬ ['/', '*'] <:+: blanked) ∧
      lex firstLine blanked = ⟨(lex firstLine source).statements, [], []⟩ ∧
      ∀ text, Kept source text → text <:+: blanked ∧
        ∀ line, (lex line text).comments = [] ∧ (lex line text).diagnostics = [] ∧
          (parse line text).comments = [] ∧
          ∀ d ∈ (parse line text).diagnostics, d.message ≠ unclosedMessage := by
  have hstays := stays_clean firstLine source
  rw [normalizeLineEnds_of_not_mem hreturn] at hstays
  have hquiet := quiet_clean firstLine hreturn
  have hmarks := @not_isInfix_of_apart _ hquiet.noMark
  refine ⟨hstays.length_eq.symm, fun i => ?_, ⟨hquiet.noHash, hmarks (.inl rfl), hmarks (.inr rfl)⟩,
    hquiet.lex_eq firstLine, fun text hkept => ?_⟩
  · obtain hsame | ⟨hspace, hline⟩ := getElem?_of_stays hstays i
    · exact ⟨by rw [hsame], .inl hsame⟩
    · refine ⟨iff_of_false ?_ hline, .inr hspace⟩
      rw [hspace]
      decide
  · have hpart := hkept.isInfix_clean firstLine hreturn
    have htext := hquiet.of_isInfix hpart
    refine ⟨hpart, fun line => ⟨?_, ?_, ?_, fun d hd => htext.message_mem_diagnostics hd⟩⟩
    · rw [htext.lex_eq]
    · rw [htext.lex_eq]
    · rw [comments_parse, htext.clean_eq]

/-- A loop in a stored list, with comments of every kind around it; the line comment at the end holds a
mark that nothing closes. -/
theorem marks_around_kept_loop :
    let source := "MAKE \"k [RT 90 # c\nREPEAT 2 [/*/ x */FD 1]] // z /* w".toList
    let list := "RT 90    \nREPEAT 2 [        FD 1]".toList
    let body := "        FD 1".toList
    '\r' ∉ source ∧ (Kept source list ∧ Kept source body) ∧
      (clean 1 source).text.length = source.length ∧
      lex 1 (clean 1 source).text = ⟨(lex 1 source).statements, [], []⟩ ∧
      (lex 2 body).comments = [] ∧
      ∀ d ∈ (parse 2 body).diagnostics, d.message ≠ unclosedMessage := by
  intro source list body
  have hreturn : '\r' ∉ source := by decide
  have hstored : (⟨.makeList ['k'] list, 1⟩ : Command) ∈ (parse 1 source).commands := by
    decide +kernel
  have hloop : (⟨.repeatBody (.number 2) body 2, 2⟩ : Command) ∈ (parse 1 list).commands := by
    decide +kernel
  have hlist : Kept source list := .ofSource hstored rfl
  have hbody : Kept source body := .ofKept hlist hloop rfl
  obtain ⟨hlength, -, -, hlex, hkept⟩ := clean_leaves_no_marks 1 hreturn
  obtain ⟨-, hread⟩ := hkept body hbody
  exact ⟨hreturn, ⟨hlist, hbody⟩, hlength, hlex, (hread 2).1, (hread 2).2.2.2⟩

end TurtleTrace
