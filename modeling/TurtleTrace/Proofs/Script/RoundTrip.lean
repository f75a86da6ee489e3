import TurtleTrace.Proofs.Script.Written

/-!
# Scripts are read back

A script that is written out statement by statement, one below the other, is read as the commands it
was written from, each on the line where its statement starts. Bodies and labels may go over several
lines and push the statements below them down.

* `WrittenFrom`: the texts that write a list of commands.
-/

namespace TurtleTrace

set_option autoImplicit false

/-- The texts write the commands, one below the other from a line on. -/
inductive WrittenFrom : Int → List Command → List Text → Prop where
  | nil {line : Int} : WrittenFrom line [] []
  | cons {line : Int} {action : Action} {t : Text} {commands : List Command} {texts : List Text}
      (first : WrittenStatement line t action)
      (rest : WrittenFrom (line + 1 + t.newlines) commands texts) :
      WrittenFrom line (⟨action, line⟩ :: commands) (t :: texts)

/-! ## Texts without comments -/

theorem blockPieces_of_apart {t : Text} (h : t.IsChain Apart) (before : Text) :
    blockPieces before t = t.map .code := by
  induction t generalizing before with
  | nil => rw [blockPieces]; rfl
  | cons c t ih =>
    obtain ⟨hc, ht⟩ := List.isChain_cons.mp h
    have hmark : ∀ more, c = '/' → t ≠ '*' :: more := by
      rintro more hslash rfl
      exact (hc '*' rfl hslash).2 rfl
    rw [blockPieces_code hmark, ih ht, List.map_cons]

theorem linePieces_of_apart {t : Text} (h : t.IsChain Apart) (hhash : '#' ∉ t) :
    linePieces t = t.map .code := by
  induction t with
  | nil => rw [linePieces]; rfl
  | cons c t ih =>
    obtain ⟨hc, ht⟩ := List.isChain_cons.mp h
    have hhead : c ≠ '#' := fun hc' => hhash (hc' ▸ List.mem_cons_self)
    have hmark : ∀ more, c = '/' → t ≠ '/' :: more := by
      rintro more hslash rfl
      exact (hc '/' rfl hslash).1 rfl
    rw [linePieces_code hhead hmark, ih ht fun hmem => hhash (List.mem_cons_of_mem c hmem),
      List.map_cons]

theorem blankComments_code (t : Text) : blankComments (t.map .code) = t := by
  induction t with
  | nil => rfl
  | cons c t ih => rw [List.map_cons, blankComments_code_cons, ih]

theorem commentsFrom_code (shown : Text → Text) (line : Int) (t : Text) :
    commentsFrom shown line (t.map .code) = [] := by
  induction t generalizing line with
  | nil => rfl
  | cons c t ih => rw [List.map_cons, commentsFrom, ih]

theorem unclosedAt_code (p : Position) (t : Text) : unclosedAt p (t.map .code) = none := by
  induction t generalizing p with
  | nil => rfl
  | cons c t ih =>
    rw [List.map_cons, unclosedAt, Piece.isUnclosed, if_neg Bool.false_ne_true, ih]

/-- Nothing is blanked in a text without marks. -/
theorem clean_of_unmarked {source : Text} (h : Unmarked (normalizeLineEnds source))
    (firstLine : Int) : clean firstLine source = ⟨normalizeLineEnds source, [], none⟩ := by
  simp only [clean, blockPieces_of_apart h.noMark [], blankComments_code,
    linePieces_of_apart h.noMark h.noHash, commentsFrom_code, unclosedAt_code]
  rfl

theorem Quiet.clean_eq {t : Text} (h : Quiet t) (firstLine : Int) :
    clean firstLine t = ⟨t, [], none⟩ := by
  have hends := normalizeLineEnds_of_not_mem h.noReturn
  have hclean := @clean_of_unmarked t
  rw [hends] at hclean
  exact hclean h.toUnmarked firstLine

/-! ## Scripts -/

theorem join_newline (t u : Text) (texts : List Text) :
    Text.join ['\n'] (t :: u :: texts) = t ++ '\n' :: Text.join ['\n'] (u :: texts) := by
  simp [Text.join]

theorem WrittenFrom.quiet {line : Int} {commands : List Command} {texts : List Text}
    (h : WrittenFrom line commands texts) : Quiet (Text.join ['\n'] texts) := by
  induction h with
  | nil => exact quiet_nil
  | @cons line action t commands texts first rest ih =>
    have hfirst := first.part_and_tight.1.quiet
    cases texts with
    | nil => exact hfirst
    | cons u texts =>
      rw [join_newline]
      exact hfirst.append ih (by decide)

/-- A statement that is written alone is one chunk and one statement. -/
theorem statements_of_tight {t : Text} (hpart : Part t) (htight : Tight t) (line : Int) :
    (∀ chunk ∈ chunksFrom ⟨line, 1⟩ t, chunk.whole) ∧
      statements line t = [⟨t, ⟨line, 1⟩, Position.afterText ⟨line, 1⟩ t⟩] := by
  have hscan : (scanChunk 0 t).2 = .textEnd 0 := by rw [hpart.passes 0]
  have hchunks := chunksFrom_textEnd hscan ⟨line, 1⟩
  have hblank : t.takeWhile isBlank = [] := by
    cases t with
    | nil => rfl
    | cons c rest => exact List.takeWhile_cons_of_neg (by simp [htight.head c rfl])
  constructor
  · rw [hchunks]
    simp
  · simp only [statements, hchunks, List.filterMap_cons, List.filterMap_nil, Statement.ofChunk?,
      htight.trim, htight.isEmpty_eq, hblank]
    rfl

theorem WrittenFrom.command_statements {line : Int} {commands : List Command} {texts : List Text}
    (h : WrittenFrom line commands texts) :
    (statements line (Text.join ['\n'] texts)).map (·.command) = commands.map .ok := by
  induction h with
  | @nil line =>
    have hscan : (scanChunk 0 ([] : Text)).2 = .textEnd 0 := rfl
    rw [Text.join, statements, chunksFrom_textEnd hscan]
    rfl
  | @cons line action t commands texts first rest ih =>
    obtain ⟨hpart, htight⟩ := first.part_and_tight
    obtain ⟨hwhole, hfirst⟩ := statements_of_tight hpart htight line
    have hcommand : (statements line t).map (·.command) = [.ok ⟨action, line⟩] := by
      rw [hfirst, List.map_singleton, Statement.command, first.action_eq rfl rfl]
      rfl
    cases rest with
    | nil => exact hcommand
    | cons second rest =>
      rw [join_newline, statements_append line hwhole, List.map_append, hcommand, ih]
      rfl

theorem balanced_of_not_mem {t : Text} (hopen : '[' ∉ t) (hclose : ']' ∉ t) : Balanced t := by
  induction t with
  | nil => exact .nil
  | cons c t ih =>
    refine .cons (fun hc => hopen (hc ▸ List.mem_cons_self))
      (fun hc => hclose (hc ▸ List.mem_cons_self)) ?_
    exact ih (fun ht => hopen (List.mem_cons_of_mem c ht)) fun ht => hclose (List.mem_cons_of_mem c ht)

/-- A script that was written from commands is read as these commands, without diagnostics. -/
theorem parse_written {firstLine : Int} {commands : List Command} {texts : List Text}
    (h : WrittenFrom firstLine commands texts) :
    (parse firstLine (Text.join ['\n'] texts)).commands = commands ∧
      (parse firstLine (Text.join ['\n'] texts)).diagnostics = [] := by
  have hclean := h.quiet.clean_eq firstLine
  have hread := h.command_statements
  constructor
  · rw [commands_parse, hclean]
    calc (statements firstLine (Text.join ['\n'] texts)).filterMap (·.command.toOption)
        = ((statements firstLine (Text.join ['\n'] texts)).map (·.command)).filterMap
            Except.toOption := by rw [List.filterMap_map]; rfl
      _ = (commands.map .ok).filterMap Except.toOption := by rw [hread]
      _ = commands := by rw [List.filterMap_map]; exact List.filterMap_some
  · rw [diagnostics_parse, hclean]
    refine List.filterMap_eq_nil_iff.mpr fun s hs => ?_
    have hcommand : s.command ∈ commands.map .ok := by
      rw [← hread]
      exact List.mem_map_of_mem hs
    obtain ⟨command, -, hok⟩ := List.mem_map.mp hcommand
    rw [Statement.report?, ← hok]

/-- The stored list goes over two lines, so the loop below it stands on the third. -/
theorem parse_written_below_list :
    ∃ texts,
      WrittenFrom 1
          [⟨.makeList ['a'] "FD 1\nRT 90".toList, 1⟩,
            ⟨.repeatBody (.binary .add (.var ['n']) (.number 2.5)) [':', 'a'] 3, 3⟩,
            ⟨.marker (some ['m']) (some (.number 1, .apply .sqrt (.negate (.number 4)))), 4⟩,
            ⟨.call ['a'], 5⟩] texts ∧
        Text.join ['\n'] texts =
          "MAKE \"a [FD 1\nRT 90]\nREPEAT :n + 2.5 [:a]\nEXTMARKER [m], 1, sqrt ( - 4 )\n:a".toList ∧
        (parse 1 (Text.join ['\n'] texts)).commands.map (·.line) = [1, 3, 4, 5] ∧
        (parse 1 (Text.join ['\n'] texts)).diagnostics = [] := by
  have hname : IsName ['a'] := ⟨by decide, by decide +kernel, List.all_eq_true.mp (by decide)⟩
  have hvariable : IsName ['n'] := ⟨by decide, by decide +kernel, List.all_eq_true.mp (by decide)⟩
  have hinterior : ∀ t : Text, t.all (· ∉ ['[', ']', '\r', '#', '/']) = true → IsInterior t := by
    intro t ht
    have hnot : ∀ c ∈ ['[', ']', '\r', '#', '/'], c ∉ t := fun c hc hmem =>
      of_decide_eq_true (List.all_eq_true.mp ht c hmem) hc
    have hunmarked : Unmarked t := ⟨hnot '#' (by decide), apart_of_not_mem (hnot '/' (by decide))⟩
    exact ⟨balanced_of_not_mem (hnot '[' (by decide)) (hnot ']' (by decide)), hunmarked,
      hnot '\r' (by decide)⟩
  have hliteral : ∀ letters value, Expr.Word.ofText? letters = some (.literal value) →
      Expr.Written .atom letters (.number value) :=
    fun _ _ h => .literal (Expr.Word.ofText?_eq_some_iff.mp h)
  have hcount : Expr.Written .sum _ (.binary .add (.var ['n']) (.number 2.5)) :=
    .binary (by decide) (.reference hvariable) (hliteral ['2', '.', '5'] 2.5 (by decide +kernel))
  have hroot : Expr.Written .sum _ (.apply .sqrt (.negate (.number 4))) :=
    .apply (by decide) (.parens (.negate (hliteral ['4'] 4 (by decide +kernel))))
  have hone : Expr.Written .sum _ (.number 1) := .ofAtom (hliteral ['1'] 1 (by decide +kernel))
  have hcall : WrittenFrom 5 [⟨.call ['a'], 5⟩] _ := .cons (.call hname) .nil
  have hmarker : WrittenFrom 4 (⟨.marker (some ['m']) (some (.number 1, _)), 4⟩ :: _) _ :=
    .cons (.arguments (.markerBoth (hinterior ['m'] (by decide)) (by decide) hone hroot)) hcall
  have hloop : WrittenFrom 3 (⟨.repeatBody _ [':', 'a'] 3, 3⟩ :: _) _ :=
    .cons (.arguments (.repeatBody hcount (hinterior [':', 'a'] (by decide)))) hmarker
  have hlist : WrittenFrom 1 (⟨.makeList ['a'] "FD 1\nRT 90".toList, 1⟩ :: _) _ :=
    .cons (.arguments (.makeList hname (hinterior "FD 1\nRT 90".toList (by decide)))) hloop
  obtain ⟨hcommands, hdiagnostics⟩ := parse_written hlist
  exact ⟨_, hlist, by decide, by rw [hcommands]; rfl, hdiagnostics⟩

end TurtleTrace
