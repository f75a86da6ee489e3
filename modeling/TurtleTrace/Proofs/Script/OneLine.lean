import TurtleTrace.Proofs.Script.Nesting
import TurtleTrace.Proofs.Script.TopLevel

/-!
# Statements on one line

A text whose semicolons all stand inside brackets and whose line ends all stand outside is one statement
if its line ends come behind it, and more than one if some come between. Whether a line end is written
with a carriage return makes no difference to what the text holds otherwise.

* `Settled`: texts in which brackets hide the semicolons and none of the line ends.
-/

namespace TurtleTrace

set_option autoImplicit false

/-! ## Line ends of two characters -/

theorem normalizeLineEnds_sublist (t : Text) : (normalizeLineEnds t).Sublist t := by
  fun_induction normalizeLineEnds t with
  | case1 => exact .slnil
  | case2 rest ih => exact (ih.cons_cons '\n').cons '\r'
  | case3 c rest _ ih => exact ih.cons_cons c

theorem normalizeLineEnds_of_oneLine {t : Text} (h : '\n' ∉ t) : normalizeLineEnds t = t := by
  fun_induction normalizeLineEnds t with
  | case1 => rfl
  | case2 rest => exact absurd (List.mem_cons_of_mem _ List.mem_cons_self) h
  | case3 c rest _ ih => rw [ih fun hmem => h (List.mem_cons_of_mem c hmem)]

theorem newline_mem_normalizeLineEnds {t : Text} : '\n' ∈ normalizeLineEnds t ↔ '\n' ∈ t := by
  have hcount := newlines_normalizeLineEnds t
  unfold Text.newlines at hcount
  rw [← List.count_pos_iff, hcount, List.count_pos_iff]

theorem apart_normalizeLineEnds {t : Text} (h : t.IsChain Apart) :
    (normalizeLineEnds t).IsChain Apart := by
  fun_induction normalizeLineEnds t with
  | case1 => exact .nil
  | case2 rest ih =>
    have hrest := (List.isChain_cons.mp (List.isChain_cons.mp h).2).2
    exact (ih hrest).cons fun d _ hc => absurd hc (by decide)
  | case3 c rest _ ih =>
    obtain ⟨hc, hrest⟩ := List.isChain_cons.mp h
    refine (ih hrest).cons fun d hd => ?_
    -- The next character is the one that was there, or a line end.
    unfold normalizeLineEnds at hd
    split at hd
    · cases hd
    · cases hd
      exact fun _ => by decide
    · cases hd
      exact hc d rfl

theorem unmarked_normalizeLineEnds {t : Text} (h : Unmarked t) : Unmarked (normalizeLineEnds t) :=
  ⟨fun hmem => h.noHash ((normalizeLineEnds_sublist t).subset hmem), apart_normalizeLineEnds h.noMark⟩

theorem scanFrom_normalizeLineEnds (letters t : Text) :
    Token.scanFrom letters (normalizeLineEnds t) = Token.scanFrom letters t := by
  have hreturn : isBlank '\r' = true := by decide
  have hnewline : isBlank '\n' = true := by decide
  fun_induction normalizeLineEnds t generalizing letters with
  | case1 => rfl
  | case2 rest ih => simp only [Token.scanFrom, hreturn, hnewline, if_true, ih, Token.flush,
      List.nil_append]
  | case3 c rest _ ih => simp only [Token.scanFrom, ih]

theorem foldl_topDepth_normalizeLineEnds (t : Text) (depth : Nat) :
    (normalizeLineEnds t).foldl topDepth depth = t.foldl topDepth depth := by
  fun_induction normalizeLineEnds t generalizing depth with
  | case1 => rfl
  | case2 rest ih =>
    rw [List.foldl_cons, ih, List.foldl_cons, List.foldl_cons]
    rfl
  | case3 c rest _ ih => rw [List.foldl_cons, ih, List.foldl_cons]

theorem unsplit_normalizeLineEnds {t : Text} {depth : Nat} :
    Unsplit ',' depth (normalizeLineEnds t) ↔ Unsplit ',' depth t := by
  fun_induction normalizeLineEnds t generalizing depth with
  | case1 => rfl
  | case2 rest ih =>
    have hreturn : '\r' = ',' → depth ≠ 0 := fun h => absurd h (by decide)
    rw [unsplit_cons_iff, ih, unsplit_cons_iff (c := '\r'), unsplit_cons_iff (c := '\n')]
    exact ⟨fun h => ⟨hreturn, h⟩, fun h => h.2⟩
  | case3 c rest _ ih => rw [unsplit_cons_iff, ih, unsplit_cons_iff]

theorem Tight.normalizeLineEnds {t : Text} (h : Tight t) : Tight (normalizeLineEnds t) := by
  obtain ⟨c, rest, rfl⟩ := List.exists_cons_of_ne_nil h.nonempty
  have hc : c ≠ '\r' := by
    rintro rfl
    have hhead := h.head '\r' rfl
    cases hhead
  obtain ⟨front, last, heq⟩ : ∃ front last, c :: rest = front ++ [last] :=
    ⟨_, _, (List.dropLast_append_getLast h.nonempty).symm⟩
  have hlast : isBlank last = false := h.last last (by rw [heq, List.getLast?_concat]; rfl)
  have hline : last ≠ '\n' := by
    rintro rfl
    cases hlast
  have hback : TurtleTrace.normalizeLineEnds (c :: rest) =
      TurtleTrace.normalizeLineEnds front ++ [last] := by
    rw [heq, normalizeLineEnds_append_of_ends (fun _ => by simpa using hline)]
    rw [normalizeLineEnds_of_oneLine (t := [last]) (by simpa using Ne.symm hline)]
  have hfront : TurtleTrace.normalizeLineEnds (c :: rest) =
      c :: TurtleTrace.normalizeLineEnds rest := by
    rw [TurtleTrace.normalizeLineEnds]
    exact fun more hreturn => absurd hreturn hc
  refine ⟨?_, ?_, ?_⟩
  · rw [hfront]
    exact List.cons_ne_nil _ _
  · rw [hfront]
    exact h.head
  · rw [hback, List.getLast?_concat]
    rintro _ ⟨⟩
    exact hlast

/-- A text that does not start with a blank is trimmed at its end only. -/
theorem trim_of_head {c : Char} (hc : isBlank c = false) (rest : Text) :
    Tight (Text.trim (c :: rest)) ∧
      ∃ tail : Text, (∀ d ∈ tail, isBlank d) ∧ c :: rest = Text.trim (c :: rest) ++ tail := by
  refine ⟨tight_trim fun hnil => ?_, ?_⟩
  · rw [Text.trim_eq_nil_iff.mp hnil c List.mem_cons_self] at hc
    cases hc
  · obtain ⟨tail, htail, hparts⟩ := Text.exists_trim (c :: rest)
    rw [List.takeWhile_cons_of_neg (by simp [hc]), List.nil_append] at hparts
    exact ⟨tail, htail, hparts⟩

theorem trim_normalizeLineEnds {c : Char} (hc : isBlank c = false) (rest : Text) :
    (normalizeLineEnds (c :: rest)).trim = normalizeLineEnds (Text.trim (c :: rest)) := by
  obtain ⟨htight, tail, htail, hparts⟩ := trim_of_head hc rest
  have hends : (Text.trim (c :: rest)).getLast? = some '\r' → tail.head? ≠ some '\n' := by
    intro hlast
    have hblank := htight.last '\r' hlast
    cases hblank
  have hblank : ∀ d ∈ normalizeLineEnds tail, isBlank d := fun d hd =>
    htail d ((normalizeLineEnds_sublist tail).subset hd)
  conv => lhs; rw [hparts]
  rw [normalizeLineEnds_append_of_ends hends, Text.trim_append_right hblank,
    htight.normalizeLineEnds.trim]

/-! ## Statements on a line -/

/-- Texts in which brackets hide the semicolons and none of the line ends. -/
structure Settled (t : Text) : Prop where
  semicolons : ∀ a b, t = a ++ ';' :: b → a.foldl depthAfter 0 ≠ 0
  lineEnds : ∀ a b, t = a ++ '\n' :: b → a.foldl depthAfter 0 = 0
  closed : t.foldl depthAfter 0 = 0

namespace Settled

variable {t u : Text}

theorem append (ht : Settled t) (hu : Settled u) : Settled (t ++ u) where
  semicolons a b h := by
    obtain ⟨rest, hfirst⟩ | ⟨front, rfl, hsecond⟩ := cons_of_append_eq h
    · exact ht.semicolons a rest hfirst
    · rw [List.foldl_append, ht.closed]
      exact hu.semicolons front b hsecond
  lineEnds a b h := by
    obtain ⟨rest, hfirst⟩ | ⟨front, rfl, hsecond⟩ := cons_of_append_eq h
    · exact ht.lineEnds a rest hfirst
    · rw [List.foldl_append, ht.closed]
      exact hu.lineEnds front b hsecond
  closed := by rw [List.foldl_append, ht.closed, hu.closed]

theorem of_not_mem (hsemicolon : ';' ∉ t) (hopen : '[' ∉ t) : Settled t := by
  refine ⟨?_, ?_, foldl_depthAfter_of_not_mem hopen⟩
  · rintro a b rfl
    exact absurd (List.mem_append_right a List.mem_cons_self) hsemicolon
  · rintro a b rfl
    exact foldl_depthAfter_of_not_mem fun hmem => hopen (List.mem_append_left _ hmem)

/-- A text on one line that is passed over as a whole is settled. -/
theorem of_passes (h : scanChunk 0 t = (t, .textEnd 0)) (hline : '\n' ∉ t) : Settled t := by
  have hunseparated := unseparated_scanChunk 0 t
  rw [h] at hunseparated
  refine ⟨fun a b ht hdepth => (hunseparated a ';' b ht hdepth).1 rfl, ?_, ?_⟩
  · rintro a b rfl
    exact absurd (List.mem_append_right a List.mem_cons_self) hline
  · rw [scanChunk_of_unseparated hunseparated] at h
    cases hdepth : t.foldl depthAfter 0 with
    | zero => rfl
    | succ n =>
      rw [hdepth] at h
      cases h

/-- A first line of a settled text is passed over as a whole. -/
theorem passes_line (h : Settled (t ++ u)) (hline : '\n' ∉ t) (hclosed : t.foldl depthAfter 0 = 0) :
    scanChunk 0 t = (t, .textEnd 0) := by
  have hunseparated : Unseparated 0 t := by
    rintro a c b rfl hdepth
    refine ⟨?_, ?_⟩
    · rintro rfl
      refine h.semicolons a (b ++ u) ?_ hdepth
      rw [List.append_assoc, List.cons_append]
    · rintro rfl
      exact hline (List.mem_append_right a List.mem_cons_self)
  rw [scanChunk_of_unseparated hunseparated, hclosed]

/-- A line end behind the first line of a settled text separates. -/
theorem statements_line {b : Text} (h : Settled (t ++ '\n' :: b)) (hline : '\n' ∉ t) (line : Int) :
    statements line (t ++ '\n' :: b) =
      (Statement.ofChunk? ⟨⟨line, 1⟩, t, true⟩).toList ++ statements (line + 1) b := by
  have hpasses := h.passes_line hline (h.lineEnds t b rfl)
  have hchunks := chunksFrom_textEnd (congrArg Prod.snd hpasses) ⟨line, 1⟩
  have hwhole : ∀ chunk ∈ chunksFrom ⟨line, 1⟩ t, chunk.whole := by
    rw [hchunks]
    simp
  have hnext : line + 1 + (Text.newlines t : Int) = line + 1 := by
    rw [Text.newlines, List.count_eq_zero.mpr hline]
    exact Int.add_zero _
  rw [statements_append line hwhole, hnext, statements, hchunks, List.filterMap_cons,
    List.filterMap_nil]
  split <;> simp_all

end Settled

theorem statements_eq_nil_iff {line : Int} {t : Text} :
    statements line t = [] ↔ ∀ c ∈ t, isGap c := by
  constructor
  · intro h
    have hlaid := laid_chunksFrom ⟨line, 1⟩ t
    change Laid _ t (statements line t) at hlaid
    rw [h] at hlaid
    cases hlaid with
    | gap hgap => exact hgap
  · intro h
    refine List.eq_nil_iff_forall_not_mem.mpr fun s hs => ?_
    obtain ⟨-, c, more, htext, hc⟩ := tight_of_mem_statements hs
    obtain ⟨a, b, haround, -⟩ := (laid_chunksFrom ⟨line, 1⟩ t).exists_around hs
    have hmem : c ∈ t := by
      rw [haround, htext]
      exact List.mem_append_right a List.mem_cons_self
    rw [h c hmem] at hc
    cases hc

/-- The statement of a chunk that does not start with a blank. -/
theorem ofChunk?_of_head {p : Position} {c : Char} {rest : Text} (h : isBlank c = false) :
    Statement.ofChunk? ⟨p, c :: rest, true⟩ =
      some ⟨Text.trim (c :: rest), p, p.afterText (Text.trim (c :: rest))⟩ := by
  have hne := (trim_of_head h rest).1.nonempty
  have htake : (c :: rest).takeWhile isBlank = [] := List.takeWhile_cons_of_neg (by simp [h])
  simp only [Statement.ofChunk?, List.isEmpty_eq_false_iff.mpr hne, htake]
  rfl

namespace Settled

variable {c : Char} {rest : Text}

/-- A settled text that has line ends only behind it is one statement. -/
theorem statements_of_oneLine (h : Settled (c :: rest)) (hc : isBlank c = false)
    (hline : '\n' ∉ Text.trim (c :: rest)) (line : Int) :
    statements line (c :: rest) =
      [⟨Text.trim (c :: rest), ⟨line, 1⟩, Position.afterText ⟨line, 1⟩ (Text.trim (c :: rest))⟩] := by
  by_cases hmem : '\n' ∈ c :: rest
  · obtain ⟨a, b, hsplit, ha⟩ := List.eq_append_cons_of_mem hmem
    obtain ⟨htight, tail, htail, hparts⟩ := trim_of_head hc rest
    -- The line end stands among the blanks behind the statement.
    obtain ⟨more, hfront⟩ | ⟨front, hfront, hbehind⟩ := cons_of_append_eq (hparts.symm.trans hsplit)
    · refine absurd ?_ hline
      rw [hfront]
      exact List.mem_append_right a List.mem_cons_self
    have hblank : ∀ d ∈ front, isBlank d := fun d hd =>
      htail d (hbehind ▸ List.mem_append_left _ hd)
    have hrest : statements (line + 1) b = [] := by
      refine statements_eq_nil_iff.mpr fun d hd => isGap_of_isBlank (htail d ?_)
      rw [hbehind]
      exact List.mem_append_right front (List.mem_cons_of_mem _ hd)
    cases a with
    | nil =>
      cases hsplit
      cases hc
    | cons d a =>
      obtain rfl : c = d := (List.cons.inj hsplit).1
      have htrim : Text.trim (c :: a) = Text.trim (c :: rest) := by
        rw [hfront, Text.trim_append_right hblank, htight.trim]
      rw [hsplit] at h
      rw [hsplit, h.statements_line ha, ofChunk?_of_head hc, hrest, ← hsplit, htrim]
      rfl
  · have hwhole : Settled ((c :: rest) ++ []) := by rwa [List.append_nil]
    have hpasses := hwhole.passes_line hmem h.closed
    rw [statements, chunksFrom_textEnd (congrArg Prod.snd hpasses), List.filterMap_cons,
      ofChunk?_of_head hc]
    rfl

/-- Behind a line end something stands, and what comes first there is not a semicolon. -/
theorem statements_below_ne_nil {a b tail : Text} (h : Settled (a ++ '\n' :: (b ++ tail)))
    (htight : Tight (a ++ '\n' :: b)) (line : Int) : statements line (b ++ tail) ≠ [] := by
  rw [Ne, statements_eq_nil_iff]
  intro hgap
  have hblank : ¬ ∀ d ∈ b ++ tail, isBlank d := by
    intro hblank
    have hnil := htight.eq_nil_of_blank (u := '\n' :: b) (by
      rw [List.forall_mem_cons]
      exact ⟨by decide, fun d hd => hblank d (List.mem_append_left _ hd)⟩)
    cases hnil
  cases hfirst : (b ++ tail).dropWhile isBlank with
  | nil => exact hblank (List.dropWhile_eq_nil_iff.mp hfirst)
  | cons d more =>
    have hd : isBlank d = false := by
      have hhead := List.head?_dropWhile_not isBlank (b ++ tail)
      rw [hfirst] at hhead
      simpa using hhead
    have hwhole := List.takeWhile_append_dropWhile (p := isBlank) (l := b ++ tail)
    rw [hfirst] at hwhole
    have hmark := hgap d (by rw [← hwhole]; exact List.mem_append_right _ List.mem_cons_self)
    obtain rfl : d = ';' := by simpa [isGap, hd] using hmark
    refine h.semicolons (a ++ '\n' :: (b ++ tail).takeWhile isBlank) more ?_ ?_
    · rw [List.append_assoc, List.cons_append, hwhole]
    · rw [List.foldl_append, h.lineEnds a (b ++ tail) rfl, List.foldl_cons]
      exact depthAfter_blanks (takeWhile_isBlank _) 0

/-- A settled text with a line end inside is more than one statement. -/
theorem two_le_length_statements (h : Settled (c :: rest)) (hc : isBlank c = false)
    (hline : '\n' ∈ Text.trim (c :: rest)) (line : Int) :
    2 ≤ (statements line (c :: rest)).length := by
  obtain ⟨a, b, hsplit, ha⟩ := List.eq_append_cons_of_mem hline
  obtain ⟨htight, tail, -, hparts⟩ := trim_of_head hc rest
  rw [hsplit] at htight
  rw [hsplit, List.append_assoc, List.cons_append] at hparts
  cases a with
  | nil =>
    cases hparts
    cases hc
  | cons d a =>
    obtain rfl : c = d := (List.cons.inj hparts).1
    rw [hparts] at h
    have hlength := List.length_pos_of_ne_nil (h.statements_below_ne_nil htight (line + 1))
    rw [hparts, h.statements_line ha, ofChunk?_of_head hc, List.length_append]
    simp only [Option.toList_some, List.length_singleton]
    omega

end Settled

/-! ## What statements give -/

theorem length_reports (ss : List Statement) :
    (ss.filterMap (·.command.toOption)).length + (ss.filterMap Statement.report?).length =
      ss.length := by
  induction ss with
  | nil => rfl
  | cons s ss ih =>
    cases hcommand : s.command with
    | error fault =>
      have hreport : s.report? = some (s.diagnostic fault) := by rw [Statement.report?, hcommand]
      rw [List.filterMap_cons_none (by rw [hcommand]; rfl), List.filterMap_cons_some hreport,
        List.length_cons, List.length_cons]
      omega
    | ok command =>
      have hreport : s.report? = none := by rw [Statement.report?, hcommand]
      rw [List.filterMap_cons_some (b := command) (by rw [hcommand]; rfl),
        List.filterMap_cons_none hreport, List.length_cons, List.length_cons]
      omega

/-- What a single statement gives. -/
theorem reports_singleton_iff {s : Statement} {line : Int} (hline : s.line = line) (action : Action) :
    [s].filterMap (·.command.toOption) = [⟨action, line⟩] ∧ [s].filterMap Statement.report? = [] ↔
      s.action = .ok action := by
  subst hline
  cases haction : s.action with
  | error fault => simp [Statement.report?, Statement.command, haction, Except.map]
  | ok read => simp [Statement.report?, Statement.command, haction, Except.map, Except.toOption]

end TurtleTrace
