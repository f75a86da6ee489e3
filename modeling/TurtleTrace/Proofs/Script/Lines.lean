import TurtleTrace.Proofs.Script.Locality

/-!
# The lines of what is read

Reading a text whose first line has a given number gives commands and diagnostics on the lines of that
text, and the body of a loop among them lies on these lines as a whole.
-/

namespace TurtleTrace

set_option autoImplicit false

/-! ## Line ends in parts of a text -/

namespace Text

theorem newlines_le_of_sublist {s t : Text} (h : s.Sublist t) : s.newlines ≤ t.newlines :=
  h.count_le '\n'

theorem trimRight_sublist (t : Text) : t.trimRight.Sublist t := by
  have h := (List.dropWhile_sublist isBlank (l := t.reverse)).reverse
  rwa [List.reverse_reverse] at h

theorem newlines_trim (t : Text) :
    newlines (t.takeWhile isBlank) + t.trim.newlines ≤ t.newlines := by
  have hsplit := congrArg newlines (List.takeWhile_append_dropWhile (p := isBlank) (l := t))
  have htrim : t.trim.newlines ≤ newlines (t.dropWhile isBlank) :=
    newlines_le_of_sublist (trimRight_sublist _)
  rw [newlines_append] at hsplit
  omega

theorem trim_sublist (t : Text) : t.trim.Sublist t :=
  (trimRight_sublist _).trans (List.dropWhile_sublist isBlank)

/-- What starts with a character stands behind its first occurrence. -/
theorem sublist_dropWhile {c : Char} {s t : Text} (h : (c :: s).Sublist t) :
    (c :: s).Sublist (t.dropWhile (· ≠ c)) := by
  induction t with
  | nil => cases h
  | cons d t ih =>
    by_cases hd : d = c
    · rwa [List.dropWhile_cons_of_neg (by simpa using hd)]
    · rw [List.dropWhile_cons_of_pos (by simpa using hd)]
      cases h with
      | cons _ h => exact ih h
      | cons_cons => exact absurd rfl hd

theorem head_of_cutBefore {c : Char} {t before after : Text}
    (h : cutBefore c t = some (before, after)) : ∃ rest, after = c :: rest := by
  induction t generalizing before after with
  | nil => cases h
  | cons d t ih =>
    by_cases hd : d = c
    · simp only [cutBefore, hd, if_true, Option.some.injEq, Prod.mk.injEq] at h
      exact ⟨t, h.2.symm⟩
    · simp only [cutBefore, hd, if_false, Option.map_eq_some_iff, Prod.mk.injEq] at h
      obtain ⟨⟨b, a⟩, hr, -, rfl⟩ := h
      exact ih hr

end Text

/-! ## Statements -/

theorem Position.line_after (p : Position) (c : Char) :
    (p.after c).line = p.line + Text.newlines [c] :=
  p.line_afterText [c]

theorem lines_chunksFrom {p : Position} {t : Text} {chunk : Chunk} (h : chunk ∈ chunksFrom p t) :
    p.line ≤ chunk.start.line ∧
      chunk.start.line + chunk.text.newlines ≤ p.line + t.newlines := by
  fun_induction chunksFrom p t with
  | case1 p t mark rest hscan _ ih =>
    have hsplit := congrArg Text.newlines (scanChunk_separator hscan)
    rw [Text.newlines_append, Text.newlines_cons] at hsplit
    obtain rfl | h := List.mem_cons.mp h
    · dsimp only
      omega
    · have hrest := ih h
      rw [Position.line_after, Position.line_afterText] at hrest
      omega
  | case2 p t hscan =>
    obtain rfl := List.mem_singleton.mp h
    exact ⟨Int.le_refl _, Int.le_refl _⟩
  | case3 p t depth hscan hdepth first mark rest hcut _ ih =>
    have hsplit := congrArg Text.newlines (Text.cutBefore_append hcut)
    rw [Text.newlines_append, Text.newlines_cons] at hsplit
    obtain rfl | h := List.mem_cons.mp h
    · dsimp only
      omega
    · have hrest := ih h
      rw [Position.line_after, Position.line_afterText] at hrest
      omega
  | case4 p t depth hscan hdepth hcut =>
    obtain rfl := List.mem_singleton.mp h
    exact ⟨Int.le_refl _, Int.le_refl _⟩

theorem lines_statements {firstLine : Int} {t : Text} {s : Statement}
    (h : s ∈ statements firstLine t) :
    firstLine ≤ s.line ∧ s.line + s.text.newlines ≤ firstLine + t.newlines := by
  obtain ⟨chunk, hchunk, hs⟩ := List.mem_filterMap.mp h
  have hlines := lines_chunksFrom hchunk
  have htrim := Text.newlines_trim chunk.text
  simp only [Statement.ofChunk?] at hs
  split at hs
  · cases hs
  · cases hs
    simp only [Statement.line, Position.line_afterText]
    dsimp only at hlines
    omega

theorem readInterior_sublist {what : Enclosure} {t body : Text}
    (h : readInterior what t = .ok body) : body.Sublist t := by
  unfold readInterior at h
  split at h
  · cases h
  · split at h
    · cases h
      exact (List.drop_sublist _ _).trans (List.take_sublist _ _)
    · cases h

theorem Reading.exists_of_map {α β : Type} {f : α → β} {reading : Reading α} {b : β}
    (h : reading.map f = .ok b) : ∃ a, f a = b := by
  cases reading with
  | error fault => cases h
  | ok a => exact ⟨a, Except.ok.inj h⟩

theorem Reading.exists_of_bind {α β : Type} {f : α → Reading β} {reading : Reading α} {b : β}
    (h : reading >>= f = .ok b) : ∃ a, reading = .ok a ∧ f a = .ok b := by
  cases reading with
  | error fault => cases h
  | ok a => exact ⟨a, rfl, h⟩

/-- The keyword decides of which kind the action is. -/
theorem kind_of_readArguments {s : Statement} {kind : Kind} {rest : Text} {action : Action}
    (h : readArguments s kind rest = .ok action) : action.kind = kind := by
  cases kind with
  | pu | pd | home =>
    simp only [readArguments, readNothing] at h
    split at h
    · cases h
      rfl
    · cases h
  | fd | bk | lt | rt | seth | setx | sety | extsetfn =>
    simp only [readArguments, readValue] at h
    split at h
    · cases h
    · obtain ⟨a, rfl⟩ := Reading.exists_of_map h
      rfl
  | arc | setxy =>
    simp only [readArguments, readTwoValues] at h
    split at h
    · cases h
    · cases h
    · obtain ⟨a, rfl⟩ := Reading.exists_of_map h
      rfl
    · cases h
  | make =>
    simp only [readArguments, readMake] at h
    split at h
    · split at h
      · cases h
      split at h
      · cases h
      split at h
      · obtain ⟨a, rfl⟩ := Reading.exists_of_map h
        rfl
      · obtain ⟨a, rfl⟩ := Reading.exists_of_map h
        rfl
    · cases h
  | «repeat» =>
    simp only [readArguments, readRepeat] at h
    split at h
    · cases h
    split at h
    · obtain ⟨body, -, h⟩ := Reading.exists_of_bind h
      obtain ⟨count, -, h⟩ := Reading.exists_of_bind h
      cases h
      rfl
    · split at h
      · split at h
        · cases h
        · obtain ⟨a, rfl⟩ := Reading.exists_of_map h
          rfl
      · cases h
  | extcommentpos =>
    simp only [readArguments, readNotePosition] at h
    split at h
    · cases h
      rfl
    split at h
    · obtain ⟨a, rfl⟩ := Reading.exists_of_map h
      rfl
    · cases h
  | extmarker =>
    simp only [readArguments, readMarker] at h
    split at h
    · cases h
      rfl
    split at h
    · split at h
      · cases h
      split at h
      · cases h
        rfl
      · obtain ⟨a, rfl⟩ := Reading.exists_of_map h
        rfl
      · cases h
    · obtain ⟨a, rfl⟩ := Reading.exists_of_map h
      rfl
  | print =>
    simp only [readArguments, readPrint] at h
    split at h
    · cases h
    · obtain ⟨a, rfl⟩ := Reading.exists_of_map h
      rfl
  | call => cases h

section Loops

variable {count : Expr} {body : Text} {bodyLine : Int}

theorem readRepeat_eq_repeatBody {s : Statement} {rest : Text}
    (h : readRepeat s rest = .ok (.repeatBody count body bodyLine)) :
    (∃ before bracket, rest.cutBefore '[' = some (before, bracket) ∧
      readInterior .loopBody bracket = .ok body) ∧
    bodyLine = s.line + Text.newlines (s.text.takeWhile (· ≠ '[')) := by
  unfold readRepeat at h
  split at h
  · cases h
  split at h
  · rename_i before bracket hcut
    obtain ⟨text, hbody, h⟩ := Reading.exists_of_bind h
    obtain ⟨e, -, h⟩ := Reading.exists_of_bind h
    cases h
    exact ⟨⟨before, bracket, hcut, hbody⟩, rfl⟩
  · split at h
    · split at h
      · cases h
      · obtain ⟨a, ha⟩ := Reading.exists_of_map h
        cases ha
    · cases h

theorem readArguments_eq_repeatBody {s : Statement} {kind : Kind} {rest : Text}
    (h : readArguments s kind rest = .ok (.repeatBody count body bodyLine)) :
    (∃ before bracket, rest.cutBefore '[' = some (before, bracket) ∧
      readInterior .loopBody bracket = .ok body) ∧
    bodyLine = s.line + Text.newlines (s.text.takeWhile (· ≠ '[')) := by
  obtain rfl : Kind.repeat = kind := kind_of_readArguments h
  exact readRepeat_eq_repeatBody h

/-- The body of a loop lies on the lines of its statement. -/
theorem lines_action {s : Statement} (h : s.action = .ok (.repeatBody count body bodyLine)) :
    s.line ≤ bodyLine ∧ bodyLine + body.newlines ≤ s.line + s.text.newlines := by
  unfold Statement.action at h
  simp only at h
  split at h
  · cases h
  · unfold readCall at h
    split at h
    · cases h
    · split at h <;> cases h
  · split at h
    · cases h
    · obtain ⟨⟨before, bracket, hcut, hbody⟩, rfl⟩ := readArguments_eq_repeatBody h
      obtain ⟨inside, rfl⟩ := Text.head_of_cutBefore hcut
      have hbracket : ('[' :: inside).Sublist s.text := by
        have hsuffix : ('[' :: inside).Sublist (Text.trim (s.text.dropWhile inWord)) := by
          rw [← Text.cutBefore_append hcut]
          exact List.sublist_append_right ..
        exact hsuffix.trans ((Text.trim_sublist _).trans (List.dropWhile_sublist _))
      -- The body stands behind the first bracket, whose line is where it starts.
      have hinside := Text.newlines_le_of_sublist
        ((readInterior_sublist hbody).trans (Text.sublist_dropWhile hbracket))
      have hsplit := congrArg Text.newlines
        (List.takeWhile_append_dropWhile (p := fun c => decide (c ≠ '[')) (l := s.text))
      rw [Text.newlines_append] at hsplit
      omega

end Loops

/-! ## Texts -/

theorem mem_commands_parse {firstLine : Int} {t : Text} {c : Command}
    (h : c ∈ (parse firstLine t).commands) :
    ∃ s ∈ statements firstLine (clean firstLine t).text,
      s.action = .ok c.action ∧ c.line = s.line := by
  rw [commands_parse] at h
  obtain ⟨s, hs, hc⟩ := List.mem_filterMap.mp h
  refine ⟨s, hs, ?_⟩
  unfold Statement.command at hc
  cases haction : s.action with
  | error fault =>
    rw [haction] at hc
    cases hc
  | ok action =>
    rw [haction] at hc
    cases hc
    exact ⟨rfl, rfl⟩

theorem line_mem_commands_parse {firstLine : Int} {t : Text} {c : Command}
    (h : c ∈ (parse firstLine t).commands) :
    firstLine ≤ c.line ∧ c.line ≤ firstLine + t.newlines := by
  obtain ⟨s, hs, -, hline⟩ := mem_commands_parse h
  have hlines := lines_statements hs
  rw [newlines_text_clean] at hlines
  omega

theorem bodyLine_mem_commands_parse {firstLine : Int} {t : Text} {c : Command}
    (h : c ∈ (parse firstLine t).commands) {count : Expr} {body : Text} {bodyLine : Int}
    (hloop : c.action = .repeatBody count body bodyLine) :
    firstLine ≤ bodyLine ∧ bodyLine + body.newlines ≤ firstLine + t.newlines := by
  obtain ⟨s, hs, haction, -⟩ := mem_commands_parse h
  have hlines := lines_statements hs
  have hbody := lines_action (haction.trans (congrArg _ hloop))
  rw [newlines_text_clean] at hlines
  omega

theorem line_unclosedAt {p q : Position} {pieces : List Piece} (h : unclosedAt p pieces = some q) :
    p.line ≤ q.line ∧ q.line ≤ p.line + (sources pieces).newlines := by
  induction pieces generalizing p with
  | nil => cases h
  | cons piece pieces ih =>
    have hsources := newlines_sources_cons piece pieces
    unfold unclosedAt at h
    split at h
    · cases h
      omega
    · have hrest := ih h
      rw [Position.line_afterText] at hrest
      omega

theorem Statement.line_report? {s : Statement} {d : Diagnostic} (h : s.report? = some d) :
    d.line = s.line := by
  unfold report? at h
  split at h
  · cases h
  · cases h
    unfold diagnostic Diagnostic.line span
    split <;> rfl

theorem line_mem_diagnostics_parse {firstLine : Int} {t : Text} {d : Diagnostic}
    (h : d ∈ (parse firstLine t).diagnostics) :
    firstLine ≤ d.line ∧ d.line ≤ firstLine + t.newlines := by
  rw [diagnostics_parse] at h
  obtain h | h := List.mem_append.mp h
  · unfold Cleaned.diagnostics at h
    split at h
    · cases h
    · rename_i p hp
      obtain rfl := List.mem_singleton.mp h
      have hlines := line_unclosedAt hp
      rw [sources_blockPieces, newlines_normalizeLineEnds] at hlines
      exact hlines
  · obtain ⟨s, hs, hd⟩ := List.mem_filterMap.mp h
    have hlines := lines_statements hs
    have hline := Statement.line_report? hd
    rw [newlines_text_clean] at hlines
    omega

end TurtleTrace
