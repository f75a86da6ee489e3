import TurtleTrace.Script.Comment
import TurtleTrace.Proofs.Sorting

/-!
# Comments across a line end

A text whose block comments are all closed (`blocksClose`) can be followed by a line end and any other
text: each of the two passes over the whole takes the two parts one after the other, so the text that
is left (`text_clean_append`) and the comments of the whole (`comments_clean_append`) are those of the
parts, with the lines of the second part counted on.
-/

namespace TurtleTrace

set_option autoImplicit false

/-! ## Line ends -/

theorem Text.newlines_append (s t : Text) : (s ++ t).newlines = s.newlines + t.newlines :=
  List.count_append

theorem Text.newlines_cons (c : Char) (t : Text) : newlines (c :: t) = newlines [c] + newlines t :=
  newlines_append [c] t

theorem Position.afterText_append_newline (p : Position) (t : Text) :
    p.afterText (t ++ ['\n']) = ⟨p.line + 1 + t.newlines, 1⟩ := by
  have hline := p.line_afterText t
  rw [afterText_append]
  simp only [afterText, List.foldl_cons, List.foldl_nil, after, if_true] at hline ⊢
  rw [hline]
  congr 1
  omega

/-- Two parts of a text are taken one after the other, unless a line end of two characters is cut. -/
theorem normalizeLineEnds_append_of_ends {a b : Text}
    (h : a.getLast? = some '\r' → b.head? ≠ some '\n') :
    normalizeLineEnds (a ++ b) = normalizeLineEnds a ++ normalizeLineEnds b := by
  fun_induction normalizeLineEnds a with
  | case1 => rfl
  | case2 rest ih =>
    have hrest : rest.getLast? = some '\r' → b.head? ≠ some '\n' := by
      intro hlast
      refine h ?_
      rw [List.getLast?_cons, List.getLast?_cons, hlast]
      rfl
    rw [List.cons_append, List.cons_append, normalizeLineEnds, ih hrest, List.cons_append]
  | case3 c rest hmark ih =>
    have hrest : rest.getLast? = some '\r' → b.head? ≠ some '\n' := by
      intro hlast
      refine h ?_
      rw [List.getLast?_cons, hlast]
      rfl
    rw [List.cons_append, normalizeLineEnds, ih hrest, List.cons_append]
    rintro more rfl hmore
    cases rest with
    | nil => exact h rfl (by rw [List.nil_append] at hmore; rw [hmore]; rfl)
    | cons d rest =>
      cases hmore
      exact hmark rest rfl rfl

theorem normalizeLineEnds_append {a : Text} (h : '\r' ∉ a) (b : Text) :
    normalizeLineEnds (a ++ b) = a ++ normalizeLineEnds b := by
  induction a with
  | nil => rfl
  | cons c a ih =>
    have hc : c ≠ '\r' := fun hc => h (hc ▸ List.mem_cons_self)
    have ha : '\r' ∉ a := fun ha => h (List.mem_cons_of_mem c ha)
    rw [List.cons_append, normalizeLineEnds, ih ha, List.cons_append]
    intro rest hrest
    exact absurd hrest hc

theorem normalizeLineEnds_of_not_mem {a : Text} (h : '\r' ∉ a) : normalizeLineEnds a = a := by
  have happend := normalizeLineEnds_append h []
  rwa [normalizeLineEnds, List.append_nil] at happend

theorem normalizeLineEnds_append_newline {a : Text} (h : '\r' ∉ a) (b : Text) :
    normalizeLineEnds (a ++ '\n' :: b) = a ++ '\n' :: normalizeLineEnds b :=
  normalizeLineEnds_append h ('\n' :: b)

theorem newlines_normalizeLineEnds (t : Text) : (normalizeLineEnds t).newlines = t.newlines := by
  fun_induction normalizeLineEnds t with
  | case1 => rfl
  | case2 rest ih =>
    have hreturn : Text.newlines ['\r'] = 0 := rfl
    rw [Text.newlines_cons, ih, ← Text.newlines_cons, Text.newlines_cons '\r', hreturn, Nat.zero_add]
  | case3 c rest _ ih => rw [Text.newlines_cons, ih, ← Text.newlines_cons]

/-! ## Pieces -/

/-- The text from which pieces were read. -/
def sources (pieces : List Piece) : Text := pieces.flatMap Piece.source

theorem newlines_sources_cons (p : Piece) (ps : List Piece) :
    (sources (p :: ps)).newlines = p.source.newlines + (sources ps).newlines := by
  rw [sources, List.flatMap_cons, Text.newlines_append, sources]

theorem blankComments_append (ps qs : List Piece) :
    blankComments (ps ++ qs) = blankComments ps ++ blankComments qs :=
  List.flatMap_append

theorem newlines_map_blankChar (t : Text) : Text.newlines (t.map blankChar) = t.newlines := by
  induction t with
  | nil => rfl
  | cons c t ih =>
    have hc : Text.newlines [blankChar c] = Text.newlines [c] := by
      by_cases hc : c = '\n'
      · rw [hc]
        rfl
      · simp [blankChar, hc, Text.newlines]
    rw [List.map_cons, Text.newlines_cons, ih, hc, ← Text.newlines_cons]

theorem newlines_blankComments (ps : List Piece) :
    (blankComments ps).newlines = (sources ps).newlines := by
  induction ps with
  | nil => rfl
  | cons p ps ih =>
    have hp : p.blanked.newlines = p.source.newlines := by
      cases p with
      | code c => rfl
      | comment body => exact newlines_map_blankChar body
    rw [newlines_sources_cons, blankComments, List.flatMap_cons, Text.newlines_append, hp, ← ih,
      blankComments]

section CommentsFrom

variable (shown : Text → Text)

theorem commentsFrom_append (line : Int) (ps qs : List Piece) :
    commentsFrom shown line (ps ++ qs) =
      commentsFrom shown line ps ++ commentsFrom shown (line + (sources ps).newlines) qs := by
  induction ps generalizing line with
  | nil => simp only [List.nil_append, commentsFrom, sources, List.flatMap_nil, Text.newlines,
      List.count_nil, Int.natCast_zero, Int.add_zero]
  | cons p ps ih =>
    have hsources := newlines_sources_cons p ps
    have hline : line + ((sources (p :: ps)).newlines : Int) =
        line + p.source.newlines + (sources ps).newlines := by omega
    rw [hline]
    cases p with
    | code c => exact ih (line + Text.newlines [c])
    | comment body => exact congrArg (List.cons _) (ih (line + body.newlines))

theorem line_mem_commentsFrom {line : Int} {ps : List Piece} {c : Comment}
    (h : c ∈ commentsFrom shown line ps) :
    line ≤ c.line ∧ c.line ≤ line + (sources ps).newlines := by
  induction ps generalizing line with
  | nil => cases h
  | cons p ps ih =>
    have hsources := newlines_sources_cons p ps
    cases p with
    | code d =>
      have hc := ih h
      have hd : Text.newlines [d] = (Piece.code d).source.newlines := rfl
      omega
    | comment body =>
      obtain rfl | h := List.mem_cons.mp h
      · dsimp only
        omega
      · have hc := ih h
        have hbody : body.newlines = (Piece.comment body).source.newlines := rfl
        omega

end CommentsFrom

theorem unclosedAt_append (p : Position) (ps qs : List Piece) :
    unclosedAt p (ps ++ qs) =
      (unclosedAt p ps).or (unclosedAt (p.afterText (sources ps)) qs) := by
  induction ps generalizing p with
  | nil => rfl
  | cons piece ps ih =>
    cases h : piece.isUnclosed with
    | true => simp only [List.cons_append, unclosedAt, h, if_true, Option.some_or]
    | false =>
      have hsources : p.afterText (sources (piece :: ps)) =
          (p.afterText piece.source).afterText (sources ps) := p.afterText_append _ _
      simp only [List.cons_append, unclosedAt, h, Bool.false_eq_true, if_false, ih, hsources]

/-! ## Block comments -/

/-- A line end behind a text does not complete a mark of two characters. -/
theorem mark_append_newline {c first second : Char} {rest : Text} (hline : second ≠ '\n')
    (h : ∀ more, c = first → rest ≠ second :: more) (b : Text) :
    ∀ more, c = first → rest ++ '\n' :: b ≠ second :: more := by
  intro more hc hmore
  cases rest with
  | nil =>
    cases hmore
    exact hline rfl
  | cons d rest =>
    cases hmore
    exact h rest hc rfl

/-- Whether every block comment that is opened in a text is closed in it. -/
def blocksClose : Text → Bool
  | [] => true
  | '/' :: '*' :: rest =>
    match h : closeBlock? rest with
    | some (_, after) =>
      have : after.length < rest.length + 2 := by
        have := congrArg List.length (closeBlock?_append h)
        simp only [List.length_append] at this
        omega
      blocksClose after
    | none => false
  | _ :: rest => blocksClose rest
termination_by t => t.length

theorem closeBlock?_append_right {t body after : Text} (h : closeBlock? t = some (body, after))
    (u : Text) : closeBlock? (t ++ u) = some (body, after ++ u) := by
  fun_induction closeBlock? t generalizing body after with
  | case1 => cases h
  | case2 rest =>
    cases h
    rfl
  | case3 c rest hmark ih =>
    obtain ⟨⟨body', after'⟩, hrest, heq⟩ := Option.map_eq_some_iff.mp h
    cases heq
    have hnext := ih hrest
    rw [List.cons_append, closeBlock?, hnext, Option.map_some]
    -- The rest holds an end, so the mark is not completed by the text behind.
    rintro more rfl hmore
    cases rest with
    | nil => cases hrest
    | cons d rest =>
      cases hmore
      exact hmark rest rfl rfl

theorem closeBlock?_body {t body after : Text} (h : closeBlock? t = some (body, after)) :
    closeBlock? body = some (body, []) := by
  fun_induction closeBlock? t generalizing body after with
  | case1 => cases h
  | case2 rest =>
    cases h
    rfl
  | case3 c rest hmark ih =>
    obtain ⟨⟨body', after'⟩, hrest, heq⟩ := Option.map_eq_some_iff.mp h
    cases heq
    rw [closeBlock?, ih hrest, Option.map_some]
    rintro more rfl rfl
    have hjoin := closeBlock?_append hrest
    exact hmark (more ++ after) rfl (by rw [← hjoin, List.cons_append])

theorem blockPieces_block {rest body after : Text} (h : closeBlock? rest = some (body, after))
    (before : Text) :
    blockPieces before ('/' :: '*' :: rest) = .comment ('/' :: '*' :: body) ::
      blockPieces ((('/' :: '*' :: body).map blankChar).foldl lineAfter before) after := by
  rw [blockPieces]
  split
  · rename_i heq
    rw [h] at heq
    cases heq
    rfl
  · rename_i heq
    rw [h] at heq
    cases heq

theorem blockPieces_code {c : Char} {rest : Text} (h : ∀ more, c = '/' → rest ≠ '*' :: more)
    (before : Text) :
    blockPieces before (c :: rest) = .code c :: blockPieces (lineAfter before c) rest := by
  rw [blockPieces]
  intro more hc hrest
  exact h more hc hrest

theorem blockPieces_append {a : Text} (h : blocksClose a) (before b : Text) :
    blockPieces before (a ++ '\n' :: b) =
      blockPieces before a ++ .code '\n' :: blockPieces [] b := by
  fun_induction blocksClose a generalizing before with
  | case1 =>
    rw [List.nil_append, blockPieces_code (fun _ hc => by cases hc), blockPieces]
    rfl
  | case2 rest body after hclose _ ih =>
    have hwhole := closeBlock?_append_right hclose ('\n' :: b)
    rw [List.cons_append, List.cons_append, blockPieces_block hwhole, blockPieces_block hclose, ih h,
      List.cons_append]
  | case3 => cases h
  | case4 c rest hmark ih =>
    have hwhole := mark_append_newline (by decide) hmark b
    rw [List.cons_append, blockPieces_code hwhole, blockPieces_code hmark, ih h, List.cons_append]

theorem sources_blockPieces (before t : Text) : sources (blockPieces before t) = t := by
  fun_induction blockPieces before t with
  | case1 => rfl
  | case2 before rest body after hclose _ ih =>
    rw [sources, List.flatMap_cons]
    change '/' :: '*' :: body ++ sources _ = _
    rw [ih, List.cons_append, List.cons_append, closeBlock?_append hclose]
  | case3 before rest hclose hopen ih =>
    exact congrArg (fun t => '/' :: '*' :: t) ih
  | case4 before rest hclose hopen => exact List.append_nil _
  | case5 before c rest hmark ih => exact congrArg (List.cons c) ih

theorem unclosedAt_blockPieces {a : Text} (h : blocksClose a) (p : Position) (before : Text) :
    unclosedAt p (blockPieces before a) = none := by
  fun_induction blocksClose a generalizing p before with
  | case1 =>
    rw [blockPieces]
    rfl
  | case2 rest body after hclose _ ih =>
    have hclosed : (Piece.comment ('/' :: '*' :: body)).isUnclosed = false := by
      simp only [Piece.isUnclosed, List.drop_succ_cons, List.drop_zero, closeBlock?_body hclose,
        Option.isNone_some]
    rw [blockPieces_block hclose, unclosedAt, hclosed]
    exact ih h _ _
  | case3 => cases h
  | case4 c rest hmark ih =>
    rw [blockPieces_code hmark]
    exact ih h _ _

/-! ## Line comments -/

theorem cutLine_append (s t : Text) :
    (s ++ '\n' :: t).takeWhile inLine = s.takeWhile inLine ∧
      (s ++ '\n' :: t).dropWhile inLine = s.dropWhile inLine ++ '\n' :: t := by
  induction s with
  | nil => exact ⟨rfl, rfl⟩
  | cons c s ih =>
    cases hc : inLine c with
    | true => simp only [List.cons_append, List.takeWhile_cons, List.dropWhile_cons, hc, if_true, ih,
        and_self]
    | false => simp only [List.cons_append, List.takeWhile_cons, List.dropWhile_cons, hc,
        Bool.false_eq_true, if_false, and_self]

theorem linePieces_code {c : Char} {rest : Text} (hhash : c ≠ '#')
    (hslash : ∀ more, c = '/' → rest ≠ '/' :: more) :
    linePieces (c :: rest) = .code c :: linePieces rest := by
  rw [linePieces]
  · exact hhash
  · exact hslash

theorem linePieces_append (s t : Text) :
    linePieces (s ++ '\n' :: t) = linePieces s ++ .code '\n' :: linePieces t := by
  fun_induction linePieces s with
  | case1 => exact linePieces_code (by decide) (fun _ hc => by cases hc)
  | case2 rest _ ih =>
    obtain ⟨htake, hdrop⟩ := cutLine_append rest t
    rw [List.cons_append, linePieces, htake, hdrop, ih, List.cons_append]
  | case3 rest _ ih =>
    obtain ⟨htake, hdrop⟩ := cutLine_append rest t
    rw [List.cons_append, List.cons_append, linePieces, htake, hdrop, ih, List.cons_append]
  | case4 c rest hhash hslash ih =>
    have hwhole := mark_append_newline (by decide) hslash t
    rw [List.cons_append, linePieces_code hhash hwhole, ih, List.cons_append]

theorem sources_linePieces (t : Text) : sources (linePieces t) = t := by
  fun_induction linePieces t with
  | case1 => rfl
  | case2 rest _ ih =>
    rw [sources, List.flatMap_cons]
    change '#' :: rest.takeWhile inLine ++ sources _ = _
    rw [ih, List.cons_append, List.takeWhile_append_dropWhile]
  | case3 rest _ ih =>
    rw [sources, List.flatMap_cons]
    change '/' :: '/' :: rest.takeWhile inLine ++ sources _ = _
    rw [ih, List.cons_append, List.cons_append, List.takeWhile_append_dropWhile]
  | case4 c rest _ _ ih => exact congrArg (List.cons c) ih

/-! ## Both passes -/

theorem blankComments_code_cons (c : Char) (ps : List Piece) :
    blankComments (.code c :: ps) = c :: blankComments ps := rfl

theorem commentsFrom_newline_cons (shown : Text → Text) (line : Int) (ps : List Piece) :
    commentsFrom shown line (.code '\n' :: ps) = commentsFrom shown (line + 1) ps := rfl

/-- The comments of pieces, a line end and more pieces. -/
theorem commentsFrom_append_newline (shown : Text → Text) (line : Int) (ps qs : List Piece) :
    commentsFrom shown line (ps ++ .code '\n' :: qs) =
      commentsFrom shown line ps ++ commentsFrom shown (line + 1 + (sources ps).newlines) qs := by
  rw [commentsFrom_append, commentsFrom_newline_cons, Int.add_right_comm]

theorem unclosedAt_append_newline (p : Position) (ps qs : List Piece) (h : unclosedAt p ps = none) :
    unclosedAt p (ps ++ .code '\n' :: qs) =
      unclosedAt ⟨p.line + 1 + (sources ps).newlines, 1⟩ qs := by
  rw [unclosedAt_append, h, Option.none_or, ← p.afterText_append_newline (sources ps),
    Position.afterText_append]
  rfl

section Clean

variable (firstLine : Int) {a : Text} (b : Text)

theorem text_clean_append (hline : '\r' ∉ a) (hblocks : blocksClose a) (next : Int) :
    (clean firstLine (a ++ '\n' :: b)).text =
      (clean firstLine a).text ++ '\n' :: (clean next b).text := by
  simp only [clean, normalizeLineEnds_append_newline hline, normalizeLineEnds_of_not_mem hline,
    blockPieces_append hblocks, blankComments_append, blankComments_code_cons, linePieces_append]

theorem comments_clean_append (hline : '\r' ∉ a) (hblocks : blocksClose a) :
    (clean firstLine (a ++ '\n' :: b)).comments =
      (clean firstLine a).comments ++ (clean (firstLine + 1 + a.newlines) b).comments := by
  have hblock : (sources (blockPieces [] a)).newlines = a.newlines := by rw [sources_blockPieces]
  have hlines : (sources (linePieces (blankComments (blockPieces [] a)))).newlines = a.newlines := by
    rw [sources_linePieces, newlines_blankComments, hblock]
  simp only [clean, normalizeLineEnds_append_newline hline, normalizeLineEnds_of_not_mem hline,
    blockPieces_append hblocks, blankComments_append, blankComments_code_cons, linePieces_append,
    commentsFrom_append_newline, hblock, hlines]
  -- The first part ends on a line before the one on which the second part starts.
  refine sortOn_append_append (firstLine + 1 + a.newlines) ?_ ?_
  · intro c hc
    obtain hc | hc := List.mem_append.mp hc
    · have hbound := (line_mem_commentsFrom id hc).2
      omega
    · have hbound := (line_mem_commentsFrom Text.trim hc).2
      omega
  · intro c hc
    obtain hc | hc := List.mem_append.mp hc
    · exact (line_mem_commentsFrom id hc).1
    · exact (line_mem_commentsFrom Text.trim hc).1

theorem unclosed_clean (hline : '\r' ∉ a) (hblocks : blocksClose a) :
    (clean firstLine a).unclosed = none := by
  simp only [clean, normalizeLineEnds_of_not_mem hline]
  exact unclosedAt_blockPieces hblocks _ _

theorem unclosed_clean_append (hline : '\r' ∉ a) (hblocks : blocksClose a) :
    (clean firstLine (a ++ '\n' :: b)).unclosed =
      (clean (firstLine + 1 + a.newlines) b).unclosed := by
  simp only [clean, normalizeLineEnds_append_newline hline, blockPieces_append hblocks]
  rw [unclosedAt_append_newline _ _ _ (unclosedAt_blockPieces hblocks _ _), sources_blockPieces]

end Clean

end TurtleTrace
