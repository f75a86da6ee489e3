import TurtleTrace.Proofs.Script.Blanked

/-!
# Bodies of loops keep their lines

The body of a loop is read on its own, from the line of its bracket on, and the bodies of loops in it
are read in the same way. However deep a body lies, it stands in the blanked source right behind its
bracket, and each of its statements gets the line of the source on which it begins.

* `Spread`: the statements of a text with the offsets at which they begin.
* `Nested`: the texts that are read on the way into a source, with their offsets.
* `Text.lineAt`: the line of a character of the source.
-/

namespace TurtleTrace

set_option autoImplicit false

/-! ## Statements of loops -/

theorem tight_trim {t : Text} (h : t.trim ≠ []) : Tight t.trim where
  nonempty := h
  head c hc := by
    obtain ⟨rest, htrim⟩ := List.head?_eq_some_iff.mp hc
    obtain ⟨tail, -, ht⟩ := t.exists_trim
    have hleft : t.dropWhile isBlank = c :: (rest ++ tail) := by
      have hsplit := List.takeWhile_append_dropWhile (p := isBlank) (l := t)
      conv at hsplit => rhs; rw [ht]
      rw [List.append_cancel_left hsplit, htrim, List.cons_append]
    have hhead := List.head?_dropWhile_not isBlank t
    rw [hleft] at hhead
    simpa using hhead
  last c hc := by
    have hhead := List.head?_dropWhile_not isBlank t.trimLeft.reverse
    rw [Text.trim, Text.trimRight, List.getLast?_reverse, Option.mem_def] at hc
    rw [hc] at hhead
    simpa using hhead

/-- A tight text does not end in blanks. -/
theorem Tight.eq_nil_of_blank {t u : Text} (h : Tight (t ++ u)) (hu : ∀ c ∈ u, isBlank c) :
    u = [] := by
  by_contra hne
  have hlast : (t ++ u).getLast? = some (u.getLast hne) := by
    rw [List.getLast?_append, List.getLast?_eq_some_getLast hne]
    rfl
  have hblank := hu _ (List.getLast_mem hne)
  rw [h.last _ hlast] at hblank
  cases hblank

theorem not_mem_of_cutBefore {c : Char} {t before after : Text}
    (h : t.cutBefore c = some (before, after)) : c ∉ before := by
  induction t generalizing before after with
  | nil => cases h
  | cons d t ih =>
    by_cases hd : d = c
    · simp only [Text.cutBefore, hd, if_true, Option.some.injEq, Prod.mk.injEq] at h
      rw [← h.1]
      exact List.not_mem_nil
    · simp only [Text.cutBefore, hd, if_false, Option.map_eq_some_iff, Prod.mk.injEq] at h
      obtain ⟨⟨b, a⟩, hr, hb, -⟩ := h
      rw [← hb]
      simp only [List.mem_cons, not_or]
      exact ⟨fun hc => hd hc.symm, ih hr⟩

theorem eq_of_closingFrom {depth : Int} {t : Text} {index : Nat}
    (h : closingFrom depth t = some index) : t = t.take index ++ ']' :: t.drop (index + 1) := by
  induction t generalizing depth index with
  | nil => cases h
  | cons c t ih =>
    have hrest : ∀ {depth : Int}, (closingFrom depth t).map (· + 1) = some index →
        c :: t = (c :: t).take index ++ ']' :: (c :: t).drop (index + 1) := by
      intro depth hmap
      obtain ⟨i, hi, rfl⟩ := Option.map_eq_some_iff.mp hmap
      rw [List.take_succ_cons, List.drop_succ_cons, List.cons_append, ← ih hi]
    unfold closingFrom at h
    split at h
    · exact hrest h
    · split at h
      · rename_i hc
        split at h
        · cases h
          rw [hc]
          rfl
        · exact hrest h
      · exact hrest h

/-- An interior stands between its brackets, and nothing but blanks follows. -/
theorem readInterior_eq {what : Enclosure} {inside body : Text}
    (h : readInterior what ('[' :: inside) = .ok body) :
    ∃ tail : Text, '[' :: inside = '[' :: (body ++ ']' :: tail) ∧ ∀ c ∈ tail, isBlank c := by
  unfold readInterior at h
  split at h
  · cases h
  · rename_i index hclosing
    split at h
    · rename_i hempty
      cases h
      have hsplit := eq_of_closingFrom hclosing
      refine ⟨('[' :: inside).drop (index + 1), ?_, ?_⟩
      · cases index with
        | zero =>
          rw [List.take_zero, List.nil_append] at hsplit
          cases hsplit
        | succ index =>
          rw [List.take_succ_cons, List.cons_append] at hsplit
          exact hsplit
      · exact Text.trim_eq_nil_iff.mp (List.isEmpty_iff.mp hempty)
    · cases h

theorem takeWhile_bracket {head : Text} (rest : Text) (h : '[' ∉ head) :
    (head ++ '[' :: rest).takeWhile (· ≠ '[') = head := by
  rw [List.takeWhile_append_of_pos, List.takeWhile_cons_of_neg, List.append_nil]
  · simp
  · intro c hc
    exact decide_eq_true fun hbracket => h (hbracket ▸ hc)

/-- The statement of a loop: its body stands behind the first bracket, up to the last character, and is
read from the line of the bracket on. -/
theorem text_of_loop {s : Statement} {count : Expr} {body : Text} {bodyLine : Int}
    (htight : Tight s.text) (h : s.action = .ok (.repeatBody count body bodyLine)) :
    ∃ head, s.text = head ++ '[' :: (body ++ [']']) ∧ '[' ∉ head ∧
      bodyLine = s.line + head.newlines := by
  unfold Statement.action at h
  simp only at h
  split at h
  · cases h
  · unfold readCall at h
    split at h
    · cases h
    · split at h <;> cases h
  · split at h
    · cases h
    · obtain ⟨⟨before, bracket, hcut, hbody⟩, hline⟩ := readArguments_eq_repeatBody h
      obtain ⟨inside, rfl⟩ := Text.head_of_cutBefore hcut
      obtain ⟨tail, hinside, htail⟩ := readInterior_eq hbody
      obtain ⟨more, hmore, hrest⟩ := Text.exists_trim (s.text.dropWhile inWord)
      rw [← Text.cutBefore_append hcut, hinside] at hrest
      let head := s.text.takeWhile inWord ++
        ((s.text.dropWhile inWord).takeWhile isBlank ++ before)
      have htext : s.text = (head ++ '[' :: (body ++ [']'])) ++ (tail ++ more) := by
        have hword := List.takeWhile_append_dropWhile (p := inWord) (l := s.text)
        rw [hrest] at hword
        rw [← hword]
        simp [head]
      have hnil : tail ++ more = [] := by
        rw [htext] at htight
        refine htight.eq_nil_of_blank fun c hc => ?_
        obtain hc | hc := List.mem_append.mp hc
        · exact htail c hc
        · exact hmore c hc
      rw [hnil, List.append_nil] at htext
      have hhead : '[' ∉ head := by
        simp only [head, List.mem_append, not_or]
        refine ⟨fun hc => ?_, fun hc => ?_, not_mem_of_cutBefore hcut⟩
        · have hword := List.mem_takeWhile_imp hc
          cases hword
        · have hblank := List.mem_takeWhile_imp hc
          cases hblank
      refine ⟨head, htext, hhead, ?_⟩
      rw [hline, htext, takeWhile_bracket _ hhead]

/-! ## Offsets of statements -/

/-- Statements that lie in a text, whose first character has the offset `k`, one after the other with
gaps around them, each with the offset at which it begins. A statement begins where the gap before it
ends. -/
inductive Spread : Nat → Text → List (Nat × Statement) → Prop where
  | gap {k : Nat} {gap : Text} (gaps : ∀ c ∈ gap, isGap c) : Spread k gap []
  | statement {k : Nat} {gap rest : Text} {s : Statement} {placed : List (Nat × Statement)}
      (gaps : ∀ c ∈ gap, isGap c) (first : ∃ c more, s.text = c :: more ∧ isGap c = false)
      (after : Spread (k + gap.length + s.text.length) rest placed) :
      Spread k (gap ++ (s.text ++ rest)) ((k + gap.length, s) :: placed)

theorem takeWhile_isGap {gap rest : Text} {c : Char} (hgap : ∀ c ∈ gap, isGap c)
    (hc : isGap c = false) : (gap ++ c :: rest).takeWhile isGap = gap := by
  rw [List.takeWhile_append_of_pos hgap, List.takeWhile_cons_of_neg (by simp [hc]), List.append_nil]

/-- The offsets follow from the text and the statements. -/
theorem Spread.unique {k : Nat} {t : Text} {placed others : List (Nat × Statement)}
    (h : Spread k t placed) (h' : Spread k t others)
    (hsame : placed.map Prod.snd = others.map Prod.snd) : placed = others := by
  induction h generalizing others with
  | gap =>
    rw [List.map_nil] at hsame
    exact (List.map_eq_nil_iff.mp hsame.symm).symm
  | @statement k gap rest s placed gaps first after ih =>
    obtain ⟨c, more, htext, hc⟩ := first
    generalize hwhole : gap ++ (s.text ++ rest) = whole at h'
    cases h' with
    | gap => cases hsame
    | @statement _ gap' rest' s' placed' gaps' first' after' =>
      rw [List.map_cons, List.map_cons] at hsame
      obtain ⟨hs, hrest⟩ := List.cons.inj hsame
      dsimp only at hs
      subst hs
      have hgap : gap = gap' := by
        have htake := congrArg (List.takeWhile isGap) hwhole
        rw [htext, List.cons_append, List.cons_append, takeWhile_isGap gaps hc,
          takeWhile_isGap gaps' hc] at htake
        exact htake
      subst hgap
      have hafter := List.append_cancel_left (List.append_cancel_left hwhole)
      subst hafter
      rw [ih after' hrest]

/-- Each statement is part of the text, at its offset. -/
theorem Spread.exists_around {k : Nat} {t : Text} {placed : List (Nat × Statement)}
    (h : Spread k t placed) {j : Nat} {s : Statement} (hs : (j, s) ∈ placed) :
    ∃ a b, t = a ++ (s.text ++ b) ∧ j = k + a.length := by
  induction h with
  | gap => cases hs
  | @statement k gap rest s' placed gaps first after ih =>
    obtain heq | hs := List.mem_cons.mp hs
    · cases heq
      exact ⟨gap, rest, rfl, rfl⟩
    · obtain ⟨a, b, rfl, rfl⟩ := ih hs
      refine ⟨gap ++ (s'.text ++ a), b, by simp only [List.append_assoc], ?_⟩
      simp only [List.length_append]
      omega

/-- Statements that are laid out from a place on begin on the lines that lie as far behind it. -/
theorem Laid.exists_spread {p : Position} {t : Text} {ss : List Statement} (h : Laid p t ss)
    (hfirst : ∀ s ∈ ss, ∃ c more, s.text = c :: more ∧ isGap c = false) (k : Nat) :
    ∃ placed, Spread k t placed ∧ placed.map Prod.snd = ss ∧
      ∀ j s, (j, s) ∈ placed → ∃ a b, t = a ++ b ∧ j = k + a.length ∧
        s.line = p.line + a.newlines := by
  induction h generalizing k with
  | gap hgap => exact ⟨[], .gap hgap, rfl, nofun⟩
  | @statement p gap text rest ss hgap htext hrest ih =>
    obtain ⟨placed, hspread, hmap, hlines⟩ :=
      ih (fun s hs => hfirst s (List.mem_cons_of_mem _ hs)) (k + gap.length + text.length)
    let s : Statement := ⟨text, p.afterText gap, (p.afterText gap).afterText text⟩
    refine ⟨(k + gap.length, s) :: placed, ?_, ?_, ?_⟩
    · exact Spread.statement (s := s) hgap (hfirst s List.mem_cons_self) hspread
    · rw [List.map_cons, hmap]
    · intro j s' hs
      obtain heq | hs := List.mem_cons.mp hs
      · cases heq
        exact ⟨gap, text ++ rest, rfl, rfl, p.line_afterText gap⟩
      · obtain ⟨a, b, hsplit, rfl, hline⟩ := hlines j s' hs
        refine ⟨gap ++ (text ++ a), b, ?_, ?_, ?_⟩
        · rw [hsplit]
          simp only [List.append_assoc]
        · simp only [List.length_append]
          omega
        · rw [hline, Position.line_afterText, Position.line_afterText, Text.newlines_append,
            Text.newlines_append]
          omega

/-- A statement has no blanks at its ends and does not begin with a separator. -/
theorem tight_of_mem_statements {firstLine : Int} {t : Text} {s : Statement}
    (h : s ∈ statements firstLine t) :
    Tight s.text ∧ ∃ c more, s.text = c :: more ∧ isGap c = false := by
  obtain ⟨chunk, hchunk, hs⟩ := List.mem_filterMap.mp h
  have hwhole := (unseparated_of_mem hchunk).trim
  simp only [Statement.ofChunk?] at hs
  split at hs
  · cases hs
  · rename_i hne
    cases hs
    have htight : Tight chunk.text.trim := tight_trim (by simpa using hne)
    refine ⟨htight, ?_⟩
    obtain ⟨c, more, htext⟩ := List.exists_cons_of_ne_nil htight.nonempty
    refine ⟨c, more, htext, ?_⟩
    have hblank : isBlank c = false := htight.head c (by rw [htext]; rfl)
    have hmark : c ≠ ';' := (hwhole [] c more htext rfl).1
    simp [isGap, hblank, hmark]

/-! ## Lines of the source -/

/-- The line on which the character with a given offset stands, in a text whose first line has the given
number. -/
def Text.lineAt (firstLine : Int) (t : Text) (k : Nat) : Int := firstLine + newlines (t.take k)

theorem newlines_of_stays {s t : Text} (h : List.Forall₂ Stays s t) : t.newlines = s.newlines := by
  induction h with
  | nil => rfl
  | @cons c d s t hstays _ ih =>
    have hd : Text.newlines [d] = Text.newlines [c] := by
      obtain rfl | rfl := hstays
      · rfl
      · exact newlines_map_blankChar [c]
    rw [Text.newlines_cons, hd, ih, ← Text.newlines_cons]

/-- Blanking leaves the line ends where they were. -/
theorem lineAt_clean (firstLine : Int) {source : Text} (h : '\r' ∉ source) (k : Nat) :
    (clean firstLine source).text.lineAt firstLine k = source.lineAt firstLine k := by
  have hstays := stays_clean firstLine source
  rw [normalizeLineEnds_of_not_mem h] at hstays
  rw [Text.lineAt, Text.lineAt, newlines_of_stays (List.forall₂_take k hstays)]

theorem Text.lineAt_append (firstLine : Int) (a b c : Text) :
    lineAt firstLine (a ++ (b ++ c)) (a.length + b.length) =
      lineAt firstLine (a ++ (b ++ c)) a.length + b.newlines := by
  have hboth : (a ++ (b ++ c)).take (a.length + b.length) = a ++ b := by
    rw [← List.append_assoc, ← List.length_append, List.take_left]
  rw [lineAt, lineAt, hboth, List.take_left, newlines_append]
  omega

/-! ## Nested bodies -/

/-- The texts that are read on the way into a source: the source itself, and the body of a loop that
stands in such a text. Each comes with its offset in the source, which for a body is that behind the
first bracket of its statement, and with the number of its first line. -/
inductive Nested (firstLine : Int) (source : Text) : Nat → Int → Text → Prop where
  | whole : Nested firstLine source 0 firstLine source
  | inside {offset k : Nat} {line bodyLine : Int} {text body head rest : Text} {count : Expr}
      {s : Statement} {placed : List (Nat × Statement)}
      (outer : Nested firstLine source offset line text)
      (spread : Spread offset (clean line text).text placed)
      (all : placed.map Prod.snd = (lex line text).statements) (here : (k, s) ∈ placed)
      (loop : s.action = .ok (.repeatBody count body bodyLine))
      (bracket : s.text = head ++ '[' :: rest) (first : '[' ∉ head) :
      Nested firstLine source (k + head.length + 1) bodyLine body

/-- A text whose blanked form stands in the blanked source at an offset, with the right number for its
first line. -/
structure InPlace (firstLine : Int) (source : Text) (offset : Nat) (line : Int) (text : Text) :
    Prop where
  occurs : ∃ before after, (clean firstLine source).text =
    before ++ ((clean line text).text ++ after) ∧ before.length = offset
  line : line = source.lineAt firstLine offset

section Nested

variable {firstLine line : Int} {source text : Text} {offset : Nat}

/-- The statements of a text in place begin on their lines. -/
theorem InPlace.exists_spread (hreturn : '\r' ∉ source)
    (h : InPlace firstLine source offset line text) :
    ∃ placed, Spread offset (clean line text).text placed ∧
      placed.map Prod.snd = (lex line text).statements ∧
      ∀ k s, (k, s) ∈ placed → s.line = source.lineAt firstLine k := by
  obtain ⟨before, after, hoccurs, hlength⟩ := h.occurs
  obtain ⟨placed, hspread, hmap, hlines⟩ :=
    (laid_chunksFrom ⟨line, 1⟩ (clean line text).text).exists_spread
      (fun s hs => (tight_of_mem_statements hs).2) offset
  refine ⟨placed, hspread, hmap, fun k s hs => ?_⟩
  obtain ⟨a, b, hsplit, rfl, hline⟩ := hlines k s hs
  have hbehind := Text.lineAt_append firstLine before a (b ++ after)
  have hparts : before ++ (a ++ (b ++ after)) = (clean firstLine source).text := by
    rw [hoccurs, hsplit]
    simp only [List.append_assoc]
  rw [hparts, hlength, lineAt_clean firstLine hreturn, lineAt_clean firstLine hreturn] at hbehind
  rw [hbehind, ← h.line]
  exact hline

/-- Whatever offsets the statements of a text in place are given, they begin on their lines. -/
theorem InPlace.line_of_spread (hreturn : '\r' ∉ source)
    (h : InPlace firstLine source offset line text) {placed : List (Nat × Statement)}
    (hspread : Spread offset (clean line text).text placed)
    (hall : placed.map Prod.snd = (lex line text).statements) {k : Nat} {s : Statement}
    (hs : (k, s) ∈ placed) : s.line = source.lineAt firstLine k := by
  obtain ⟨others, hothers, hmap, hlines⟩ := h.exists_spread hreturn
  obtain rfl := hspread.unique hothers (hall.trans hmap.symm)
  exact hlines k s hs

/-- The body of a loop in a text in place has no comments and is in place. -/
theorem InPlace.body (hreturn : '\r' ∉ source) (h : InPlace firstLine source offset line text)
    {placed : List (Nat × Statement)} (hspread : Spread offset (clean line text).text placed)
    (hall : placed.map Prod.snd = (lex line text).statements) {k : Nat} {s : Statement}
    (hs : (k, s) ∈ placed) {head body : Text} {bodyLine : Int}
    (htext : s.text = head ++ '[' :: (body ++ [']'])) (hline : bodyLine = s.line + head.newlines) :
    clean bodyLine body = ⟨body, [], none⟩ ∧
      InPlace firstLine source (k + head.length + 1) bodyLine body := by
  obtain ⟨before, after, hoccurs, hlength⟩ := h.occurs
  obtain ⟨a, b, haround, hk⟩ := hspread.exists_around hs
  have hparts : (clean firstLine source).text =
      (before ++ a) ++ ((head ++ ['[']) ++ (body ++ (']' :: (b ++ after)))) := by
    rw [hoccurs, haround, htext]
    simp only [List.append_assoc, List.cons_append, List.nil_append]
  have hquiet : Quiet body := by
    have hsource := quiet_clean firstLine hreturn
    rw [hparts, ← List.append_assoc] at hsource
    exact hsource.of_isInfix (List.infix_append' _ body _)
  have hclean := hquiet.clean_eq bodyLine
  refine ⟨hclean, ⟨(before ++ a) ++ (head ++ ['[']), ']' :: (b ++ after), ?_, ?_⟩, ?_⟩
  · rw [hparts, hclean, List.append_assoc (before ++ a)]
  · simp only [List.length_append, List.length_singleton]
    omega
  · -- The bracket stands on the line of the body, and in front of it the rest of the statement.
    have hbehind := Text.lineAt_append firstLine (before ++ a) (head ++ ['['])
      (body ++ (']' :: (b ++ after)))
    have hbracket : Text.newlines ['['] = 0 := rfl
    have hbefore : (before ++ a).length = k := by
      rw [List.length_append]
      omega
    rw [← hparts, lineAt_clean firstLine hreturn, lineAt_clean firstLine hreturn, hbefore,
      List.length_append, List.length_singleton, ← Nat.add_assoc, Text.newlines_append,
      hbracket] at hbehind
    rw [hbehind, hline, h.line_of_spread hreturn hspread hall hs]
    rfl

theorem Nested.inPlace (hreturn : '\r' ∉ source) (h : Nested firstLine source offset line text) :
    InPlace firstLine source offset line text := by
  -- By the loops around the text, from the outermost in.
  induction h with
  | whole => exact ⟨⟨[], [], by rw [List.nil_append, List.append_nil], rfl⟩, (Int.add_zero _).symm⟩
  | @inside offset k line bodyLine text body head rest count s placed _ spread all here loop bracket
      first ih =>
    have hmem : s ∈ (lex line text).statements := by
      rw [← all]
      exact List.mem_map.mpr ⟨(k, s), here, rfl⟩
    obtain ⟨head', htext, hhead', hline⟩ := text_of_loop (tight_of_mem_statements hmem).1 loop
    obtain rfl : head = head' := by
      rw [← takeWhile_bracket rest first, ← bracket, htext, takeWhile_bracket _ hhead']
    exact (ih.body hreturn spread all here htext hline).2

end Nested

/-- A source without carriage returns, and a text that is read somewhere inside it: what is left of the
text when its comments are blanked stands in the blanked source at its offset, with its statements at
theirs. The commands and the diagnostics that reading the text gives are those of its statements, and of
its comments, and carry the lines of the source on which the statements begin. The body of a loop among
them has no comments, stands right behind the first bracket of its statement, and is again such a
text. -/
theorem nested_bodies_keep_lines {firstLine line : Int} {source text : Text} {offset : Nat}
    (hreturn : '\r' ∉ source) (h : Nested firstLine source offset line text) :
    ∃ placed : List (Nat × Statement), Spread offset (clean line text).text placed ∧
      placed.map Prod.snd = (lex line text).statements ∧
      (∃ before after, (clean firstLine source).text =
        before ++ ((clean line text).text ++ after) ∧ before.length = offset) ∧
      (parse line text).commands = placed.filterMap (fun p => p.2.command.toOption) ∧
      (parse line text).diagnostics =
        (clean line text).diagnostics ++ placed.filterMap (fun p => p.2.report?) ∧
      ∀ k s, (k, s) ∈ placed →
        s.line = source.lineAt firstLine k ∧
        (∀ c, s.command = .ok c → c.line = source.lineAt firstLine k) ∧
        (∀ d, s.report? = some d → d.line = source.lineAt firstLine k) ∧
        ∀ count body bodyLine, s.action = .ok (.repeatBody count body bodyLine) →
          ∃ head, s.text = head ++ '[' :: (body ++ [']']) ∧ '[' ∉ head ∧
            clean bodyLine body = ⟨body, [], none⟩ ∧
            Nested firstLine source (k + head.length + 1) bodyLine body := by
  have hplace := h.inPlace hreturn
  obtain ⟨placed, hspread, hall, hlines⟩ := hplace.exists_spread hreturn
  have hstatements : statements line (clean line text).text = placed.map Prod.snd := hall.symm
  refine ⟨placed, hspread, hall, hplace.occurs, ?_, ?_, fun k s hs => ?_⟩
  · rw [commands_parse, hstatements, List.filterMap_map]
    rfl
  · rw [diagnostics_parse, hstatements, List.filterMap_map]
    rfl
  · have hline := hlines k s hs
    have hmem : s ∈ (lex line text).statements := by
      rw [← hall]
      exact List.mem_map.mpr ⟨(k, s), hs, rfl⟩
    refine ⟨hline, fun c hc => ?_, fun d hd => (Statement.line_report? hd).trans hline, ?_⟩
    · rw [← hline]
      unfold Statement.command at hc
      obtain ⟨action, rfl⟩ := Reading.exists_of_map hc
      rfl
    · intro count body bodyLine hloop
      obtain ⟨head, htext, hhead, hbody⟩ := text_of_loop (tight_of_mem_statements hmem).1 hloop
      exact ⟨head, htext, hhead, (hplace.body hreturn hspread hall hs htext hbody).1,
        .inside h hspread hall hs hloop htext hhead⟩

/-- A loop in a loop, with comments before and inside; the statements of its body, one of which cannot
be read, stand on the fifth and the sixth line. -/
theorem lines_of_loop_in_loop :
    let source := "/* a\n*/ REPEAT 2 [ # b\n REPEAT 3 [\n\nFD 1\n?]]".toList
    let body := "\n\nFD 1\n?".toList
    '\r' ∉ source ∧ ∃ offset, Nested 1 source offset 3 body ∧
      ∃ placed, Spread offset body placed ∧
        placed.map (fun p => (p.2.text, Text.lineAt 1 source p.1)) =
          [("FD 1".toList, 5), ("?".toList, 6)] ∧
        (parse 3 body).commands.map (·.line) = [5] ∧
        (parse 3 body).diagnostics.map (·.line) = [6] := by
  intro source body
  let outer := "    \n REPEAT 3 [\n\nFD 1\n?]".toList
  have hreturn : '\r' ∉ source := by decide
  have hfirst : ∃ s ∈ (lex 1 source).statements,
      s.action = .ok (.repeatBody (.number 2) outer 2) := by
    decide +kernel
  have hsecond : ∃ s ∈ (lex 2 outer).statements,
      s.action = .ok (.repeatBody (.number 3) body 3) := by
    decide +kernel
  have hlines : (lex 3 body).statements.map (fun s => (s.text, s.line)) =
      [("FD 1".toList, 5), ("?".toList, 6)] := by
    decide +kernel
  -- The two loops are found one in the other.
  have hwhole : Nested 1 source 0 1 source := .whole
  obtain ⟨placed, -, hall, -, -, -, hplaced⟩ := nested_bodies_keep_lines hreturn hwhole
  obtain ⟨s, hs, hloop⟩ := hfirst
  rw [← hall] at hs
  obtain ⟨⟨k, _⟩, hmem, rfl⟩ := List.mem_map.mp hs
  obtain ⟨head, -, -, -, hnested⟩ := (hplaced k _ hmem).2.2.2 _ _ _ hloop
  obtain ⟨placed, -, hall, -, -, -, hplaced⟩ := nested_bodies_keep_lines hreturn hnested
  obtain ⟨s, hs, hloop⟩ := hsecond
  rw [← hall] at hs
  obtain ⟨⟨k, _⟩, hmem, rfl⟩ := List.mem_map.mp hs
  obtain ⟨head, -, -, hclean, hnested⟩ := (hplaced k _ hmem).2.2.2 _ _ _ hloop
  obtain ⟨placed, hspread, hall, -, -, -, hplaced⟩ := nested_bodies_keep_lines hreturn hnested
  rw [hclean] at hspread
  refine ⟨hreturn, _, hnested, placed, hspread, ?_, by decide +kernel, by decide +kernel⟩
  rw [← hlines, ← hall, List.map_map]
  exact List.map_congr_left fun p hp => congrArg (p.2.text, ·) (hplaced p.1 p.2 hp).1.symm

end TurtleTrace
