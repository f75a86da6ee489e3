import Mathlib.Data.List.Nodup
import TurtleTrace.Proofs.Machine.Bodies
import TurtleTrace.Proofs.Script.Matching
import TurtleTrace.Proofs.Script.Print
import TurtleTrace.Proofs.Script.SharedLog

/-!
# Brackets without an end

A statement is refused for a bracket without an end only if the bracket is still open where the statement
ends, so the statement is one that was cut off at the end of its line or of the text. The text that is
kept from between brackets has none of these, and neither have the texts that are kept from it, so no
run fails for such a bracket in a body.

* `LeftOpen`: texts that end inside a bracket of their own.
* `MissesBracket`: the messages on brackets without an end.
-/

namespace TurtleTrace

set_option autoImplicit false

/-! ## Open brackets -/

/-- At the end of the text a bracket is open, at whatever depth the text starts. -/
def LeftOpen (t : Text) : Prop := ∀ depth, t.foldl depthAfter depth ≠ 0

namespace LeftOpen

variable {t u : Text}

theorem of_suffix (h : LeftOpen t) (hsuffix : t <:+ u) : LeftOpen u := by
  obtain ⟨front, rfl⟩ := hsuffix
  intro depth
  rw [List.foldl_append]
  exact h _

theorem of_trim (h : LeftOpen t.trim) : LeftOpen t := by
  intro depth
  rw [← foldl_depthAfter_trim]
  exact h depth

end LeftOpen

/-- What stands in brackets is refused as unclosed if the first bracket is left open. -/
theorem unclosed_of_readInterior {what other : Enclosure} {inside : Text}
    (h : readInterior what ('[' :: inside) = .error (.unclosed other)) :
    other = what ∧ LeftOpen ('[' :: inside) := by
  unfold readInterior at h
  split at h
  · rename_i hclosing
    cases h
    exact ⟨rfl, foldl_ne_zero_of_closingFrom hclosing⟩
  · split at h
    · cases h
    · cases h

/-! ## Arguments -/

/-- A reading that is not refused for a bracket without an end. -/
def Reading.Clear {α : Type} (reading : Reading α) : Prop :=
  ∀ what, reading ≠ .error (.unclosed what)

namespace Reading

variable {α β : Type} {reading : Reading α} {fault : StatementFault}

theorem error_of_map {f : α → β} (h : reading.map f = .error fault) : reading = .error fault := by
  cases reading with
  | error other =>
    cases h
    rfl
  | ok a => cases h

theorem error_of_bind {f : α → Reading β} (h : reading >>= f = .error fault) :
    reading = .error fault ∨ ∃ a, f a = .error fault := by
  cases reading with
  | error other =>
    cases h
    exact .inl rfl
  | ok a => exact .inr ⟨a, h⟩

theorem Clear.map (h : Clear reading) (f : α → β) : Clear (reading.map f) :=
  fun what hmap => h what (error_of_map hmap)

theorem Clear.bind (h : Clear reading) {f : α → Reading β} (hf : ∀ a, Clear (f a)) :
    Clear (reading >>= f) := by
  intro what hbind
  obtain hfirst | ⟨a, hsecond⟩ := error_of_bind hbind
  · exact h what hfirst
  · exact hf a what hsecond

end Reading

open Reading (Clear)

theorem clear_readExpr (t : Text) : Clear (readExpr t) := by
  intro what h
  unfold readExpr at h
  split at h <;> cases h

theorem clear_readPair (s t : Text) : Clear (readPair s t) := by
  refine (clear_readExpr s).bind fun x => (clear_readExpr t).bind fun y => ?_
  rintro _ ⟨⟩

theorem clear_readCount (t : Text) : Clear (readCount t) := by
  unfold readCount
  split
  · rintro _ ⟨⟩
  · exact clear_readExpr t

theorem clear_readPlace (t : Text) : Clear (readPlace t) := by
  unfold readPlace
  split
  · exact clear_readPair _ _
  · rintro _ ⟨⟩

theorem clear_readNothing (kind : Kind) (action : Action) (rest : Text) :
    Clear (readNothing kind action rest) := by
  unfold readNothing
  split <;> rintro _ ⟨⟩

theorem clear_readValue (kind : Kind) (action : Expr → Action) (rest : Text) :
    Clear (readValue kind action rest) := by
  unfold readValue
  split
  · rintro _ ⟨⟩
  · exact (clear_readExpr rest).map action

theorem clear_readTwoValues (kind : Kind) (action : Expr → Expr → Action) (rest : Text) :
    Clear (readTwoValues kind action rest) := by
  unfold readTwoValues
  split
  · rintro _ ⟨⟩
  · rintro _ ⟨⟩
  · exact (clear_readPair _ _).map _
  · rintro _ ⟨⟩

theorem clear_readCall (name rest : Text) : Clear (readCall name rest) := by
  unfold readCall
  split
  · rintro _ ⟨⟩
  · split <;> rintro _ ⟨⟩

section Brackets

variable {s : Statement} {rest : Text} {what : Enclosure}

theorem leftOpen_of_readMake (h : readMake rest = .error (.unclosed what)) : LeftOpen rest := by
  unfold readMake at h
  split at h
  · rename_i rest
    simp only at h
    split at h
    · cases h
    split at h
    · cases h
    split at h
    · rename_i hstart
      obtain ⟨inside, hvalue⟩ := exists_of_startsWith hstart
      have hread := Reading.error_of_map h
      rw [hvalue] at hread
      have hopen := (unclosed_of_readInterior hread).2
      rw [← hvalue] at hopen
      exact (hopen.of_trim.of_suffix (List.dropWhile_suffix _)).of_suffix (List.suffix_cons _ _)
    · exact absurd h ((clear_readExpr _).map _ what)
  · cases h

theorem leftOpen_of_readRepeat (h : readRepeat s rest = .error (.unclosed what)) : LeftOpen rest := by
  unfold readRepeat at h
  split at h
  · cases h
  split at h
  · rename_i before bracket hcut
    obtain ⟨inside, rfl⟩ := Text.head_of_cutBefore hcut
    obtain hbody | ⟨body, hcount⟩ := Reading.error_of_bind h
    · exact (unclosed_of_readInterior hbody).2.of_suffix ⟨before, Text.cutBefore_append hcut⟩
    · obtain hcount | ⟨count, hdone⟩ := Reading.error_of_bind hcount
      · exact absurd hcount (clear_readCount _ what)
      · cases hdone
  · split at h
    · split at h
      · cases h
      · exact absurd h ((clear_readCount _).map _ what)
    · cases h

theorem leftOpen_of_readNotePosition (h : readNotePosition rest = .error (.unclosed what)) :
    LeftOpen rest := by
  unfold readNotePosition at h
  split at h
  · cases h
  split at h
  · rename_i hstart
    obtain ⟨inside, rfl⟩ := exists_of_startsWith hstart
    exact (unclosed_of_readInterior (Reading.error_of_map h)).2
  · cases h

theorem leftOpen_of_readMarker (h : readMarker rest = .error (.unclosed what)) : LeftOpen rest := by
  unfold readMarker at h
  split at h
  · cases h
  split at h
  · rename_i hstart
    obtain ⟨inside, rfl⟩ := exists_of_startsWith hstart
    split at h
    · rename_i hclosing
      exact foldl_ne_zero_of_closingFrom hclosing
    · simp only at h
      split at h
      · cases h
      · exact absurd h ((clear_readPlace _).map _ what)
      · cases h
  · exact absurd h ((clear_readPlace _).map _ what)

/-- Only for a printed text in brackets an argument of `PRINT` is refused as unclosed. -/
theorem unclosed_of_readPrintItems {parts : List Text}
    (h : readPrintItems parts = .error (.unclosed what)) : what = .printedText := by
  induction parts with
  | nil => cases h
  | cons part parts ih =>
    obtain hitem | ⟨item, hrest⟩ := Reading.error_of_bind h
    · unfold readPrintItem at hitem
      split at hitem
      · cases hitem
      split at hitem
      · rename_i hstart
        obtain ⟨inside, htrim⟩ := exists_of_startsWith hstart
        rw [htrim] at hitem
        exact (unclosed_of_readInterior (Reading.error_of_map hitem)).1
      · exact absurd hitem ((clear_readExpr _).map _ what)
    · obtain hitems | ⟨items, hdone⟩ := Reading.error_of_bind hrest
      · exact ih hitems
      · cases hdone

theorem readArguments_unclosed {kind : Kind}
    (h : readArguments s kind rest = .error (.unclosed what)) :
    what = .printedText ∨ LeftOpen rest := by
  cases kind with
  | pu | pd | home => exact absurd h (clear_readNothing _ _ _ what)
  | fd | bk | lt | rt | seth | setx | sety | extsetfn => exact absurd h (clear_readValue _ _ _ what)
  | arc | setxy => exact absurd h (clear_readTwoValues _ _ _ what)
  | make => exact .inr (leftOpen_of_readMake h)
  | «repeat» => exact .inr (leftOpen_of_readRepeat h)
  | extcommentpos => exact .inr (leftOpen_of_readNotePosition h)
  | extmarker => exact .inr (leftOpen_of_readMarker h)
  | print =>
    simp only [readArguments, readPrint] at h
    split at h
    · cases h
    · exact .inl (unclosed_of_readPrintItems (Reading.error_of_map h))
  | call => cases h

/-- A statement that is refused for a bracket without an end, other than one of a printed text, ends
inside a bracket. -/
theorem Statement.leftOpen_of_action (h : s.action = .error (.unclosed what))
    (hwhat : what ≠ .printedText) : LeftOpen s.text := by
  unfold Statement.action at h
  simp only at h
  split at h
  · cases h
  · exact absurd h (clear_readCall _ _ what)
  · split at h
    · cases h
    · have hrest := (readArguments_unclosed h).resolve_left hwhat
      exact hrest.of_trim.of_suffix (List.dropWhile_suffix _)

end Brackets

/-! ## Messages -/

theorem Enclosure.title_injective {what other : Enclosure} (h : what.title = other.title) :
    what = other := by
  have hnodup : ([storedList, loopBody, positionLabel, markerLabel, printedText].map title).Nodup := by
    decide +kernel
  refine List.inj_on_of_nodup_map hnodup ?_ ?_ h
  · cases what <;> decide
  · cases other <;> decide

namespace StatementFault

/-- How the messages on a bracket without an end begin. -/
def unclosedInitials : List Text :=
  ["MAKE i".toList, "REPEAT".toList, "EXTCOM".toList, "EXTMAR".toList, "PRINT ".toList]

theorem ends_of_unclosed (what : Enclosure) :
    (unclosed what).message.take 6 ∈ unclosedInitials ∧
      (unclosed what).message.reverse.take 2 = ['t', 'e'] := by
  cases what <;> decide +kernel

/-- No other fault of a statement is worded like a bracket without an end. -/
theorem eq_unclosed_of_message {fault : StatementFault} {what : Enclosure}
    (h : fault.message = (unclosed what).message) : fault = unclosed what := by
  -- A message that ends in words of the script has other first letters, every other one has other last
  -- letters.
  have hfirst : ∀ {front message : Text}, (∀ initials ∈ unclosedInitials,
      ¬ front.take 6 <+: initials) → front <+: message → message ≠ (unclosed what).message := by
    rintro front _ hne hprefix rfl
    exact hne _ (ends_of_unclosed what).1 (List.IsPrefix.take hprefix 6)
  have hlast : ∀ {back message : Text}, ¬ back.reverse.take 2 <+: ['t', 'e'] → back <:+ message →
      message ≠ (unclosed what).message := by
    rintro back _ hne hsuffix rfl
    rw [← (ends_of_unclosed what).2] at hne
    exact hne (List.IsPrefix.take (List.reverse_prefix.mpr hsuffix) 2)
  have hhint : ∀ kind, ¬ (valueHint kind).reverse.take 2 <+: ['t', 'e'] := by
    intro kind
    unfold valueHint
    split <;> decide +kernel
  cases fault with
  | noKeyword | unknownKeyword | badExpression | missingValue | textAfterCall =>
    exact absurd h (hfirst (by decide +kernel) (List.prefix_append _ _))
  | needsNothing | needsValue => exact absurd h (hlast (by decide +kernel) (List.suffix_append _ _))
  | needsTwoValues kind => exact absurd h (hlast (hhint kind) (List.suffix_append _ _))
  | tooManyValues kind =>
    exact absurd h (hlast (hhint kind) ((List.suffix_cons _ _).trans (List.suffix_append _ _)))
  | textAfter other =>
    have htitle : ¬ other.title.reverse.take 2 <+: ['t', 'e'] := by
      cases other <;> decide +kernel
    exact absurd h (hlast htitle (List.suffix_append _ _))
  | unclosed other => rw [Enclosure.title_injective (List.append_cancel_right h)]
  | _ => exact absurd h (hlast (by decide +kernel) List.suffix_rfl)

end StatementFault

/-! ## Reports -/

theorem Statement.action_of_report? {s : Statement} {d : Diagnostic} (h : s.report? = some d) :
    ∃ fault, s.action = .error fault ∧ d = s.diagnostic fault := by
  unfold report? at h
  split at h
  · cases h
  · rename_i fault hfault
    cases h
    exact ⟨fault, Reading.error_of_map hfault, rfl⟩

theorem text_of_ofChunk? {chunk : Chunk} {s : Statement} (h : Statement.ofChunk? chunk = some s) :
    s.text = chunk.text.trim := by
  unfold Statement.ofChunk? at h
  simp only at h
  split at h
  · cases h
  · cases h
    rfl

/-- What `MAKE`, `REPEAT`, `EXTCOMMENTPOS` and `EXTMARKER` report on a bracket without an end. -/
def MissesBracket (message : Text) : Prop :=
  ∃ what, what ≠ .printedText ∧ message = (StatementFault.unclosed what).message

/-- A report on a bracket without an end is one on the statement of a chunk that is not whole. -/
theorem exists_of_missesBracket {line : Int} {t : Text} {d : Diagnostic}
    (h : d ∈ (parse line t).diagnostics) (hmisses : MissesBracket d.message) :
    ∃ chunk ∈ chunksFrom ⟨line, 1⟩ (clean line t).text, chunk.whole = false ∧
      ∃ s what, Statement.ofChunk? chunk = some s ∧ d = s.diagnostic (.unclosed what) := by
  obtain ⟨what, hwhat, hmessage⟩ := hmisses
  rw [diagnostics_parse] at h
  obtain hcomment | hreport := List.mem_append.mp h
  · obtain ⟨unclosed, hclean, hunclosed⟩ := diagnostics_clean line t
    rw [hclean, Option.mem_toList] at hcomment
    rw [hunclosed d hcomment] at hmessage
    exact absurd hmessage.symm (StatementFault.message_ne_unclosedMessage _)
  · obtain ⟨s, hs, hd⟩ := List.mem_filterMap.mp hreport
    obtain ⟨chunk, hchunk, hstatement⟩ := List.mem_filterMap.mp hs
    obtain ⟨fault, hfault, rfl⟩ := Statement.action_of_report? hd
    obtain rfl := StatementFault.eq_unclosed_of_message hmessage
    have hopen := s.leftOpen_of_action hfault hwhat 0
    rw [text_of_ofChunk? hstatement, foldl_depthAfter_trim] at hopen
    have hcut := Bool.eq_false_iff.mpr (mt (whole_iff hchunk).mp hopen)
    exact ⟨chunk, hchunk, hcut, s, what, hstatement, rfl⟩

/-! ## Kept texts -/

/-- Nothing but carriage returns is taken out of a text without marks. -/
theorem Unmarked.clean_eq {t : Text} (h : Unmarked t) (line : Int) :
    clean line t = ⟨normalizeLineEnds t, [], none⟩ :=
  clean_of_unmarked (unmarked_normalizeLineEnds h) line

theorem balanced_of_readInterior {what : Enclosure} {inside body : Text}
    (h : readInterior what ('[' :: inside) = .ok body) : Balanced body := by
  unfold readInterior at h
  split at h
  · cases h
  · rename_i index hclosing
    split at h
    · cases h
      obtain ⟨body, rest, hparts, rfl, hbody⟩ := exists_of_closingFrom hclosing
      rw [hparts, interior_bracketed]
      exact hbody
    · cases h

/-- What a command keeps has no marks of comments, and its brackets match. -/
theorem kept_unmarked_and_balanced {line : Int} {t text : Text} {c : Command}
    (h : c ∈ (parse line t).commands) (hkept : c.action.kept? = some text) :
    Unmarked text ∧ Balanced text := by
  obtain ⟨s, -, haction, -⟩ := mem_commands_parse h
  obtain ⟨what, inside, -, hread⟩ := s.exists_kept haction hkept
  exact ⟨(unmarked_clean line t).of_isInfix (kept_isInfix_clean h hkept),
    balanced_of_readInterior hread⟩

/-- A kept text, wherever it is read, is taken apart into whole chunks. -/
theorem Kept.whole {source text : Text} (h : Kept source text) (line : Int) :
    ∀ chunk ∈ chunksFrom ⟨line, 1⟩ (clean line text).text, chunk.whole = true := by
  obtain ⟨hunmarked, hbalanced⟩ : Unmarked text ∧ Balanced text := by
    cases h with
    | ofSource here kept => exact kept_unmarked_and_balanced here kept
    | ofKept _ here kept => exact kept_unmarked_and_balanced here kept
  rw [hunmarked.clean_eq line]
  refine whole_of_closed ?_ _
  rw [foldl_depthAfter_normalizeLineEnds, hbalanced.foldl_depthAfter]

/-- So no bracket without an end is reported when it is read. -/
theorem Kept.not_missesBracket {source text : Text} (h : Kept source text) {line : Int}
    {d : Diagnostic} (hd : d ∈ (parse line text).diagnostics) : ¬ MissesBracket d.message := by
  intro hmisses
  obtain ⟨chunk, hchunk, hcut, -⟩ := exists_of_missesBracket hd hmisses
  rw [h.whole line chunk hchunk] at hcut
  cases hcut

/-! ## Scripts -/

/-- The two counts of brackets agree. The scan for the end of a chunk stopped with no bracket open, and
the chunk is whole; or it came to the end of the text with brackets open, and the chunk was cut off at
the end of its line or of the text. In a statement of a whole chunk every opening bracket has its closing
one, and what stands between such brackets is taken apart into whole chunks, at every depth. So `MAKE`,
`REPEAT`, `EXTCOMMENTPOS` and `EXTMARKER` report a bracket without an end only for statements of chunks
that were cut off when a source was read. They do not report one for a text that is kept from the source,
wherever it is read, and no run of the source fails for one. -/
theorem brackets_close_unless_cut_off (firstLine : Int) (source : Text) :
    (∀ (t : Text) (p : Position), ∀ chunk ∈ chunksFrom p t,
      (chunk.whole = true ↔ chunk.text.foldl depthAfter 0 = 0) ∧
      (∃ before left, t = before ++ left ∧
        (chunk.whole = true ∧ chunk.Ended left ∨ chunk.whole = false ∧ chunk.Recovered left)) ∧
      ∀ s, Statement.ofChunk? chunk = some s →
        (chunk.whole = true →
          ∀ i, s.text[i]? = some '[' → ∃ j, closingBracket? s.text i = some j) ∧
        ∀ u, Enclosed s.text u → ∀ q, ∀ inner ∈ chunksFrom q u, inner.whole = true) ∧
    (∀ d ∈ (parse firstLine source).diagnostics, MissesBracket d.message →
      ∃ chunk ∈ chunksFrom ⟨firstLine, 1⟩ (clean firstLine source).text,
        (∃ s what, Statement.ofChunk? chunk = some s ∧ d = s.diagnostic (.unclosed what)) ∧
        ∃ before left, (clean firstLine source).text = before ++ left ∧ chunk.Recovered left) ∧
    (∀ text, Kept source text → ∀ line,
      (∀ chunk ∈ chunksFrom ⟨line, 1⟩ (clean line text).text, chunk.whole = true) ∧
      ∀ d ∈ (parse line text).diagnostics, ¬ MissesBracket d.message) ∧
    ∀ limits resolution comments message line m,
      execute limits resolution (parse firstLine source).commands comments =
        .failed (.script (.malformedBody message) line) m → ¬ MissesBracket message := by
  refine ⟨fun t p chunk hchunk => ⟨whole_iff hchunk, exists_scan hchunk, fun s hs =>
      ⟨fun hwhole i hi => ?_, fun u hu q => whole_of_closed (hu.balanced.foldl_depthAfter 0) q⟩⟩,
    fun d hd hmisses => ?_, fun text hkept line => ⟨hkept.whole line, fun d => hkept.not_missesBracket⟩,
    fun limits resolution comments message line m hfails => ?_⟩
  · have hclosed := (whole_iff hchunk).mp hwhole
    rw [← foldl_depthAfter_trim, ← text_of_ofChunk? hs] at hclosed
    exact exists_closingBracket hclosed hi
  · obtain ⟨chunk, hchunk, hcut, hreport⟩ := exists_of_missesBracket hd hmisses
    refine ⟨chunk, hchunk, hreport, ?_⟩
    obtain ⟨before, left, hleft, ⟨hwhole, -⟩ | ⟨-, hrecovered⟩⟩ := exists_scan hchunk
    · rw [hcut] at hwhole
      cases hwhole
    · exact ⟨before, left, hleft, hrecovered⟩
  · obtain ⟨text, hkept, bodyLine, d, hfirst, rfl, -⟩ := exists_kept_of_failed hfails
    exact hkept.not_missesBracket (List.mem_of_head? hfirst)

/-- A closing bracket too many, a loop whose body stores a list over two lines and cannot be read, and a
list that is cut off at the end of its line. -/
theorem brackets_of_cut_off_list :
    let source := "] ; REPEAT 2 [FD; MAKE \"a [RT 1\nRT 2]]\nMAKE \"b [FD 1\nFD 2".toList
    let body := "FD; MAKE \"a [RT 1\nRT 2]".toList
    let fault := StatementFault.unclosed .storedList
    (∃ d ∈ (parse 1 source).diagnostics, d.message = fault.message ∧ d.line = 3 ∧
      ∃ chunk ∈ chunksFrom ⟨1, 1⟩ (clean 1 source).text, ∃ before left,
        (clean 1 source).text = before ++ left ∧ chunk.Recovered left) ∧
    Kept source body ∧ (parse 1 body).diagnostics ≠ [] ∧
    (∀ d ∈ (parse 1 body).diagnostics, d.message ≠ fault.message) ∧
    ∃ message m, execute {} 40 (parse 1 source).commands [] =
      .failed (.script (.malformedBody message) 1) m ∧ message ≠ fault.message := by
  intro source body fault
  have hmisses : ∀ {message}, ¬ MissesBracket message → message ≠ fault.message := by
    rintro _ hnot rfl
    exact hnot ⟨.storedList, by decide, rfl⟩
  obtain ⟨-, hreported, hkept, hruns⟩ := brackets_close_unless_cut_off 1 source
  have hreport : ∃ d ∈ (parse 1 source).diagnostics, d.message = fault.message ∧ d.line = 3 := by
    decide +kernel
  have hloop : (⟨.repeatBody (.number 2) body 1, 1⟩ : Command) ∈ (parse 1 source).commands := by
    decide +kernel
  have hfails : (execute {} 40 (parse 1 source).commands []).failsBy
      (· = .script (.malformedBody "FD requires a value".toList) 1) = true := by
    decide +kernel
  have hbody : Kept source body := .ofSource hloop rfl
  obtain ⟨d, hd, hmessage, hline⟩ := hreport
  obtain ⟨chunk, hchunk, -, hrecovered⟩ := hreported d hd ⟨.storedList, by decide, hmessage⟩
  obtain ⟨m, hm⟩ := Outcome.exists_of_failsBy hfails
  exact ⟨⟨d, hd, hmessage, hline, chunk, hchunk, hrecovered⟩, hbody, by decide +kernel,
    fun d hd => hmisses ((hkept body hbody 1).2 d hd), _, m, hm, hmisses (hruns _ _ _ _ _ _ hm)⟩

end TurtleTrace
