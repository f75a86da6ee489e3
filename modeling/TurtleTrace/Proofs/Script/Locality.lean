import TurtleTrace.Script.Parser
import TurtleTrace.Proofs.Script.Comment

/-!
# Locality of reading

A script that ends outside comments and brackets is read on its own: what follows on the next line
changes nothing of it, and what follows is read as if it stood alone, with its lines counted on. So a
statement that cannot be read never spoils the ones below it.
-/

namespace TurtleTrace

set_option autoImplicit false

/-! ## Chunks -/

/-- A scan that meets more text: it goes on in the new text if it had come to the end of the old. -/
def followedBy (scan : Text × ChunkEnd) (u : Text) : Text × ChunkEnd :=
  match scan with
  | (text, .separator mark rest) => (text, .separator mark (rest ++ u))
  | (text, .textEnd depth) => (text ++ (scanChunk depth u).1, (scanChunk depth u).2)

theorem keep_followedBy (c : Char) (scan : Text × ChunkEnd) (u : Text) :
    followedBy (keep c scan) u = keep c (followedBy scan u) := by
  obtain ⟨text, ⟨mark, rest⟩ | depth⟩ := scan
  · rfl
  · rfl

theorem scanChunk_append (depth : Nat) (s u : Text) :
    scanChunk depth (s ++ u) = followedBy (scanChunk depth s) u := by
  induction s generalizing depth with
  | nil => rfl
  | cons c s ih =>
    rw [List.cons_append]
    unfold scanChunk
    split
    · rw [ih, keep_followedBy]
    · split
      · rw [ih, keep_followedBy]
      · split
        · rfl
        · rw [ih, keep_followedBy]

theorem scanChunk_fst_of_textEnd {depth rest : Nat} {s : Text}
    (h : (scanChunk depth s).2 = .textEnd rest) : (scanChunk depth s).1 = s := by
  induction s generalizing depth with
  | nil => rfl
  | cons c s ih =>
    unfold scanChunk at h ⊢
    split at h
    · rename_i hc
      rw [if_pos hc, keep, ih h]
    · rename_i hc
      rw [if_neg hc]
      split at h
      · rename_i hd
        rw [if_pos hd, keep, ih h]
      · rename_i hd
        rw [if_neg hd]
        split at h
        · cases h
        · rename_i he
          rw [if_neg he, keep, ih h]

theorem chunksFrom_separator {t text rest : Text} {mark : Char}
    (h : scanChunk 0 t = (text, .separator mark rest)) (p : Position) :
    chunksFrom p t = ⟨p, text, true⟩ :: chunksFrom ((p.afterText text).after mark) rest := by
  have htext : (scanChunk 0 t).1 = text := congrArg Prod.fst h
  rw [chunksFrom]
  split
  · rename_i heq
    rw [h] at heq
    cases heq
    simp only [htext]
  · rename_i heq
    rw [h] at heq
    cases heq

theorem chunksFrom_textEnd {t : Text} (h : (scanChunk 0 t).2 = .textEnd 0) (p : Position) :
    chunksFrom p t = [⟨p, t, true⟩] := by
  rw [chunksFrom]
  split
  · rename_i heq
    rw [h] at heq
    cases heq
  · rename_i heq
    rw [h] at heq
    cases heq
    rfl

/-- A text that ends inside a bracket has a chunk that is not whole. -/
theorem exists_not_whole {t : Text} {depth : Nat} (h : (scanChunk 0 t).2 = .textEnd depth)
    (hopen : depth ≠ 0) (p : Position) : ∃ chunk ∈ chunksFrom p t, chunk.whole = false := by
  rw [chunksFrom]
  split
  · rename_i heq
    rw [h] at heq
    cases heq
  · rename_i heq
    rw [h] at heq
    cases heq
    rw [if_neg hopen]
    split
    · exact ⟨_, List.mem_cons_self, rfl⟩
    · exact ⟨_, List.mem_cons_self, rfl⟩

theorem chunksFrom_append {s : Text} {p : Position} (h : ∀ chunk ∈ chunksFrom p s, chunk.whole)
    (t : Text) :
    chunksFrom p (s ++ '\n' :: t) = chunksFrom p s ++ chunksFrom (p.afterText (s ++ ['\n'])) t := by
  cases hscan : scanChunk 0 s with
  | mk text stop =>
    cases stop with
    | separator mark rest =>
      have hs : text ++ mark :: rest = s := by
        have hsplit := scanChunk_separator (congrArg Prod.snd hscan)
        rwa [hscan] at hsplit
      have hwhole : scanChunk 0 (s ++ '\n' :: t) = (text, .separator mark (rest ++ '\n' :: t)) := by
        rw [scanChunk_append, hscan]
        rfl
      have hplace : p.afterText (s ++ ['\n']) =
          ((p.afterText text).after mark).afterText (rest ++ ['\n']) := by
        rw [← hs, List.append_assoc, Position.afterText_append]
        rfl
      rw [chunksFrom_separator hscan] at h
      have hrest := fun chunk hchunk => h chunk (List.mem_cons_of_mem _ hchunk)
      rw [chunksFrom_separator hwhole, chunksFrom_separator hscan, chunksFrom_append hrest t, hplace,
        List.cons_append]
    | textEnd depth =>
      have hend : (scanChunk 0 s).2 = .textEnd depth := congrArg Prod.snd hscan
      by_cases hdepth : depth = 0
      · subst hdepth
        have htext : text = s := by
          have hfst := scanChunk_fst_of_textEnd hend
          rwa [hscan] at hfst
        -- The line end is a separator here, because no bracket is open.
        have hwhole : scanChunk 0 (s ++ '\n' :: t) = (s, .separator '\n' t) := by
          rw [scanChunk_append, hscan, htext]
          exact Prod.ext (List.append_nil s) rfl
        rw [chunksFrom_separator hwhole, chunksFrom_textEnd hend, Position.afterText_append]
        rfl
      · obtain ⟨chunk, hchunk, hopen⟩ := exists_not_whole hend hdepth p
        rw [h chunk hchunk] at hopen
        cases hopen
termination_by s.length
decreasing_by
  rw [← hs, List.length_append, List.length_cons]
  omega

theorem statements_append (firstLine : Int) {s : Text}
    (h : ∀ chunk ∈ chunksFrom ⟨firstLine, 1⟩ s, chunk.whole) (t : Text) :
    statements firstLine (s ++ '\n' :: t) =
      statements firstLine s ++ statements (firstLine + 1 + s.newlines) t := by
  rw [statements, chunksFrom_append h, List.filterMap_append, Position.afterText_append_newline]
  rfl

/-! ## Statements -/

/-- What is reported about a statement. -/
def Statement.report? (s : Statement) : Option Diagnostic :=
  match s.command with
  | .ok _ => none
  | .error fault => some (s.diagnostic fault)

/-- Each statement gives its command or its diagnostic, whatever the others give. -/
theorem readStatements_eq (log : DiagnosticLog) (ss : List Statement) :
    readStatements log ss =
      (ss.filterMap (·.command.toOption), log.reportAll (ss.filterMap Statement.report?)) := by
  induction ss generalizing log with
  | nil => simp only [readStatements, List.filterMap_nil, DiagnosticLog.reportAll, List.append_nil]
  | cons s ss ih =>
    cases hs : s.command with
    | ok command =>
      have hreport : s.report? = none := by rw [Statement.report?, hs]
      simp only [readStatements, hs, ih, List.filterMap_cons, Except.toOption, hreport]
    | error fault =>
      have hreport : s.report? = some (s.diagnostic fault) := by rw [Statement.report?, hs]
      simp only [readStatements, hs, ih, List.filterMap_cons, Except.toOption, hreport,
        DiagnosticLog.report, DiagnosticLog.reportAll, List.append_assoc, List.singleton_append]

theorem commands_parse (firstLine : Int) (source : Text) :
    (parse firstLine source).commands =
      (statements firstLine (clean firstLine source).text).filterMap (·.command.toOption) := by
  simp only [parse, parseInto, readStatements_eq]
  rfl

theorem diagnostics_parse (firstLine : Int) (source : Text) :
    (parse firstLine source).diagnostics =
      (clean firstLine source).diagnostics ++
        (statements firstLine (clean firstLine source).text).filterMap Statement.report? := by
  simp only [parse, parseInto, readStatements_eq]
  exact DiagnosticLog.since_mark_reportAll .empty _

theorem comments_parse (firstLine : Int) (source : Text) :
    (parse firstLine source).comments = (clean firstLine source).comments := by
  simp only [parse, parseInto, readStatements_eq]
  rfl

theorem DiagnosticLog.reportAll_reportAll (log : DiagnosticLog) (ds es : List Diagnostic) :
    (log.reportAll ds).reportAll es = log.reportAll (ds ++ es) := by
  simp only [DiagnosticLog.reportAll, List.append_assoc]

/-- A log with earlier diagnostics changes nothing of what is read, and gets the new ones at its end. -/
theorem parseInto_eq (log : DiagnosticLog) (firstLine : Int) (source : Text) :
    parseInto log firstLine source =
      (parse firstLine source, log.reportAll (parse firstLine source).diagnostics) := by
  simp only [parse, parseInto, readStatements_eq, DiagnosticLog.reportAll_reportAll,
    DiagnosticLog.since_mark_reportAll]

/-! ## Scripts -/

theorem newlines_text_clean (firstLine : Int) (t : Text) :
    (clean firstLine t).text.newlines = t.newlines := by
  simp only [clean]
  rw [newlines_blankComments, sources_linePieces, newlines_blankComments, sources_blockPieces,
    newlines_normalizeLineEnds]

theorem statements_clean_append (firstLine : Int) {a : Text} (hline : '\r' ∉ a)
    (hblocks : blocksClose a)
    (hbrackets : ∀ chunk ∈ chunksFrom ⟨firstLine, 1⟩ (clean firstLine a).text, chunk.whole)
    (b : Text) :
    statements firstLine (clean firstLine (a ++ '\n' :: b)).text =
      statements firstLine (clean firstLine a).text ++
        statements (firstLine + 1 + a.newlines)
          (clean (firstLine + 1 + a.newlines) b).text := by
  rw [text_clean_append firstLine b hline hblocks (firstLine + 1 + a.newlines),
    statements_append firstLine hbrackets, newlines_text_clean]

/-- A text without carriage returns that ends outside block comments and brackets is read apart from
what follows on the next line: commands and comments are those of the two parts in order, and so are
the diagnostics up to their order. -/
theorem parse_append_newline (firstLine : Int) (a b : Text) (hline : '\r' ∉ a)
    (hblocks : blocksClose a)
    (hbrackets : ∀ chunk ∈ chunksFrom ⟨firstLine, 1⟩ (clean firstLine a).text, chunk.whole) :
    let whole := parse firstLine (a ++ '\n' :: b)
    let first := parse firstLine a
    let second := parse (firstLine + 1 + a.newlines) b
    whole.commands = first.commands ++ second.commands ∧
      whole.comments = first.comments ++ second.comments ∧
      whole.diagnostics.Perm (first.diagnostics ++ second.diagnostics) := by
  have hstatements := statements_clean_append firstLine hline hblocks hbrackets b
  refine ⟨?_, ?_, ?_⟩
  · rw [commands_parse, hstatements, List.filterMap_append, ← commands_parse, ← commands_parse]
  · rw [comments_parse, comments_clean_append firstLine b hline hblocks, ← comments_parse,
      ← comments_parse]
  · have hfirst : (clean firstLine a).diagnostics = [] := by
      rw [Cleaned.diagnostics, unclosed_clean firstLine hline hblocks]
    have hwhole : (clean firstLine (a ++ '\n' :: b)).diagnostics =
        (clean (firstLine + 1 + a.newlines) b).diagnostics := by
      rw [Cleaned.diagnostics, unclosed_clean_append firstLine b hline hblocks, Cleaned.diagnostics]
    rw [diagnostics_parse, diagnostics_parse, diagnostics_parse, hfirst, hwhole, hstatements,
      List.filterMap_append, List.nil_append, ← List.append_assoc, ← List.append_assoc]
    -- An unclosed comment of the second part is reported first in the whole.
    exact List.Perm.append_right _ List.perm_append_comm

/-- The first part has a statement that cannot be read, and the second opens a comment that never
closes. -/
theorem parse_append_of_faulty_parts :
    let a := "FD 10 /* one\n*/ FD ( # two\nREPEAT 2 [FD 1\n BK 2]; NOPE".toList
    let b := "BK 5 // three\nPRINT [x] /* four".toList
    (parse 1 a).diagnostics.length = 2 ∧ (parse 5 b).diagnostics.length = 1 ∧
      (parse 1 (a ++ '\n' :: b)).commands = (parse 1 a).commands ++ (parse 5 b).commands ∧
      (parse 1 (a ++ '\n' :: b)).comments = (parse 1 a).comments ++ (parse 5 b).comments ∧
      (parse 1 (a ++ '\n' :: b)).diagnostics.Perm
        ((parse 1 a).diagnostics ++ (parse 5 b).diagnostics) :=
  ⟨by decide +kernel, by decide +kernel,
    parse_append_newline 1 _ "BK 5 // three\nPRINT [x] /* four".toList (by decide +kernel)
      (by decide +kernel) (by decide +kernel)⟩

end TurtleTrace
