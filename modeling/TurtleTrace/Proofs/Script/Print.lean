import TurtleTrace.Proofs.Script.OneLine

/-!
# Printed arguments

The arguments of `PRINT` are texts in brackets and expressions with commas between them. The statement
is cut at the commas outside brackets and parentheses, and the parentheses inside a text count, though
they mean nothing there. So the arguments are read back exactly if each of them holds no comma where the
count is at zero and each but the last leaves the count at zero.

* `WrittenItem`: the texts that write an argument.
* `printed`: the statement that prints arguments.
-/

namespace TurtleTrace

set_option autoImplicit false

/-! ## Arguments -/

/-- The text writes an argument of `PRINT`. -/
inductive WrittenItem : Text → PrintItem → Prop where
  | text {t : Text} (balanced : Balanced t) (trimmed : t.trim = t) (unmarked : Unmarked t)
      (oneLine : '\n' ∉ t) : WrittenItem (bracketed t) (.text t)
  | value {t : Text} {e : Expr} (accepted : Expr.parse? t = some e) (unmarked : Unmarked t)
      (plain : ∀ c ∈ [',', ';', '[', ']'], c ∉ t) : WrittenItem t (.value e)

theorem WrittenItem.trim_ne_nil {t : Text} {item : PrintItem} (h : WrittenItem t item) :
    t.trim ≠ [] := by
  cases h with
  | text =>
    rw [(tight_bracketed _).trim]
    exact (tight_bracketed _).nonempty
  | value accepted =>
    intro hnil
    rw [Expr.parse?, ← Token.scan_trim, hnil] at accepted
    cases accepted

theorem WrittenItem.unmarked {t : Text} {item : PrintItem} (h : WrittenItem t item) :
    Unmarked t := by
  cases h with
  | @text t _ _ unmarked =>
    have hclosed : Unmarked (t ++ [']']) := unmarked.append unmarked_nil (by decide)
    exact unmarked_nil.append hclosed (by decide)
  | value _ unmarked => exact unmarked

/-! ## Reading one argument -/

theorem WrittenItem.readPrintItem_eq {t : Text} {item : PrintItem} (h : WrittenItem t item) :
    readPrintItem t.trim = .ok item := by
  have hempty := List.isEmpty_eq_false_iff.mpr h.trim_ne_nil
  cases h with
  | @text t balanced trimmed =>
    rw [(tight_bracketed t).trim] at hempty ⊢
    simp only [readPrintItem, hempty, startsWith_bracketed, readInterior_bracketed balanced]
    simp [Except.map, trimmed]
  | @value t e accepted _ plain =>
    have hbracket : '[' ∉ t.trim := fun hmem =>
      plain '[' (by decide) ((Text.trim_sublist t).subset hmem)
    have hread : readExpr t.trim = .ok e := by
      rw [readExpr, Expr.parse?, Token.scan_trim, ← Expr.parse?, accepted]
    simp only [readPrintItem, hempty, startsWith_of_not_mem hbracket, hread]
    rfl

theorem closingFrom_append {depth : Int} {t : Text} {index : Nat} (h : closingFrom depth t = some index)
    (u : Text) : closingFrom depth (t ++ u) = some index := by
  induction t generalizing depth index with
  | nil => cases h
  | cons c t ih =>
    have hrest : ∀ {depth : Int}, (closingFrom depth t).map (· + 1) = some index →
        (closingFrom depth (t ++ u)).map (· + 1) = some index := by
      intro depth hmap
      obtain ⟨i, hi, rfl⟩ := Option.map_eq_some_iff.mp hmap
      rw [ih hi, Option.map_some]
    rw [List.cons_append]
    unfold closingFrom at h ⊢
    split at h
    · rename_i hopen
      rw [if_pos hopen]
      exact hrest h
    · rename_i hopen
      rw [if_neg hopen]
      split at h
      · rename_i hclose
        rw [if_pos hclose]
        split at h
        · rename_i hdepth
          rwa [if_pos hdepth]
        · rename_i hdepth
          rw [if_neg hdepth]
          exact hrest h
      · rename_i hclose
        rw [if_neg hclose]
        exact hrest h

theorem lt_length_of_closingFrom {depth : Int} {t : Text} {index : Nat}
    (h : closingFrom depth t = some index) : index < t.length := by
  have hlength := congrArg List.length (eq_of_closingFrom h)
  simp only [List.length_append, List.length_take, List.length_cons, List.length_drop] at hlength
  omega

/-- What is read from a bracket on is closed, and nothing but blanks follows. -/
theorem closing_of_readPrintItem {inside : Text} {item : PrintItem}
    (h : readPrintItem (Text.trim ('[' :: inside)) = .ok item) :
    ∃ index, closingFrom 0 ('[' :: inside) = some index ∧
      ∀ c ∈ ('[' :: inside).drop (index + 1), isBlank c := by
  obtain ⟨tail, htail, hparts⟩ := Text.exists_trim ('[' :: inside)
  rw [List.takeWhile_cons_of_neg (by decide), List.nil_append] at hparts
  generalize Text.trim ('[' :: inside) = trimmed at h hparts
  cases trimmed with
  | nil =>
    rw [List.nil_append] at hparts
    subst hparts
    have hblank := htail '[' List.mem_cons_self
    cases hblank
  | cons c rest =>
    obtain rfl : '[' = c := (List.cons.inj hparts).1
    unfold readPrintItem at h
    rw [if_neg (by simp), if_pos (by rfl)] at h
    unfold readInterior at h
    cases hclosing : closingFrom 0 ('[' :: rest) with
    | none =>
      rw [hclosing] at h
      cases h
    | some index =>
      rw [hclosing] at h
      dsimp only at h
      split at h
      · rename_i hempty
        have hlength := lt_length_of_closingFrom hclosing
        refine ⟨index, ?_, ?_⟩
        · rw [hparts]
          exact closingFrom_append hclosing tail
        · intro c hc
          rw [hparts, List.drop_append_of_le_length hlength] at hc
          obtain hc | hc := List.mem_append.mp hc
          · exact Text.trim_eq_nil_iff.mp (List.isEmpty_iff.mp hempty) c hc
          · exact htail c hc
      · cases h

/-- A text that is cut inside its brackets is not closed. -/
theorem readPrintItem_of_cut {s a b : Text} (hs : Balanced s) (h : bracketed s = a ++ ',' :: b)
    (item : PrintItem) : readPrintItem a.trim ≠ .ok item := by
  intro hread
  cases a with
  | nil => cases h
  | cons c a =>
    obtain rfl : '[' = c := (List.cons.inj h).1
    obtain ⟨index, hclosing, -⟩ := closing_of_readPrintItem hread
    have hindex := lt_length_of_closingFrom hclosing
    have hlength := congrArg List.length h
    have hwhole := closingFrom_append hclosing (',' :: b)
    have hbracketed := closingFrom_bracketed hs []
    rw [List.append_nil, h, hwhole] at hbracketed
    simp only [bracketed, List.length_append, List.length_cons, List.length_nil,
      Option.some.injEq] at hlength hindex hbracketed
    omega

/-- A text that does not end behind its brackets has too much. -/
theorem readPrintItem_of_joined {s : Text} (hs : Balanced s) (more : Text) (item : PrintItem) :
    readPrintItem (bracketed s ++ ',' :: more).trim ≠ .ok item := by
  intro hread
  obtain ⟨index, hclosing, hblank⟩ := closing_of_readPrintItem hread
  have hbracketed := closingFrom_bracketed hs (',' :: more)
  have hindex := Option.some.inj (hclosing.symm.trans hbracketed)
  have hdrop := drop_bracketed s (',' :: more)
  rw [← hindex] at hdrop
  have hcomma : ',' ∈ (bracketed s ++ ',' :: more).drop (index + 1) := by
    rw [hdrop]
    exact List.mem_cons_self
  have hfalse := hblank ',' hcomma
  cases hfalse

/-! ## Reading all arguments -/

theorem readPrintItems_congr {ps qs : List Text} (h : ps.map Text.trim = qs.map Text.trim) :
    readPrintItems ps = readPrintItems qs := by
  induction ps generalizing qs with
  | nil => rw [List.map_eq_nil_iff.mp h.symm]
  | cons p ps ih =>
    cases qs with
    | nil => cases h
    | cons q qs =>
      rw [List.map_cons, List.map_cons] at h
      obtain ⟨hfirst, hrest⟩ := List.cons.inj h
      rw [readPrintItems, readPrintItems, hfirst, ih hrest]

theorem exists_of_readPrintItems {part : Text} {parts : List Text} {items : List PrintItem}
    (h : readPrintItems (part :: parts) = .ok items) :
    ∃ item rest, readPrintItem part.trim = .ok item ∧ readPrintItems parts = .ok rest ∧
      items = item :: rest := by
  rw [readPrintItems] at h
  obtain ⟨item, hitem, h⟩ := Reading.exists_of_bind h
  obtain ⟨rest, hrest, h⟩ := Reading.exists_of_bind h
  cases h
  exact ⟨item, rest, hitem, hrest, rfl⟩

section Reads

variable {t rest : Text} {item : PrintItem} {items : List PrintItem}

/-- An argument in front that is read at all is not cut. -/
theorem WrittenItem.unsplit_of_reads (h : WrittenItem t item)
    (hread : readPrintItems (splitTopLevel ',' (t ++ rest)) = .ok items) : Unsplit ',' 0 t := by
  obtain hunsplit | ⟨a, b, hcut, ha, hzero⟩ := unsplit_or_exists ',' 0 t
  · exact hunsplit
  · have hparts := ha.split_comma hzero (b ++ rest)
    cases h with
    | text balanced =>
      rw [hcut, List.append_assoc, List.cons_append, hparts] at hread
      obtain ⟨item, -, hitem, -⟩ := exists_of_readPrintItems hread
      exact absurd hitem (readPrintItem_of_cut balanced hcut item)
    | value _ _ plain =>
      refine absurd ?_ (plain ',' (by decide))
      rw [hcut]
      exact List.mem_append_right a List.mem_cons_self

/-- An argument in front of a comma that is read at all ends at the comma. -/
theorem WrittenItem.depth_of_reads (h : WrittenItem t item)
    (hread : readPrintItems (splitTopLevel ',' (t ++ ',' :: rest)) = .ok items) :
    t.foldl topDepth 0 = 0 := by
  have hunsplit := h.unsplit_of_reads hread
  by_contra hdepth
  obtain ⟨more, parts, hparts⟩ := hunsplit.split_open hdepth rest
  cases h with
  | text balanced =>
    rw [hparts] at hread
    obtain ⟨item, -, hitem, -⟩ := exists_of_readPrintItems hread
    exact readPrintItem_of_joined balanced more item hitem
  | value accepted _ plain =>
    exact hdepth (Expr.foldl_topDepth_of_parse? accepted (plain '[' (by decide))
      (plain ']' (by decide)) 0)

end Reads

theorem join_comma (t u : Text) (texts : List Text) :
    Text.join [',', ' '] (t :: u :: texts) =
      t ++ ',' :: ([' '] ++ Text.join [',', ' '] (u :: texts)) := by
  simp [Text.join]

/-- Arguments are read back exactly if the commas between them are all that is cut at. -/
theorem readPrintItems_join_iff {texts : List Text} {items : List PrintItem}
    (h : List.Forall₂ WrittenItem texts items) (hne : texts ≠ []) :
    readPrintItems (splitTopLevel ',' (Text.join [',', ' '] texts)) = .ok items ↔
      (∀ t ∈ texts, Unsplit ',' 0 t) ∧ ∀ t ∈ texts.dropLast, t.foldl topDepth 0 = 0 := by
  induction h with
  | nil => exact absurd rfl hne
  | @cons t item texts items first rest ih =>
    cases rest with
    | nil =>
      have hempty := @WrittenItem.unsplit_of_reads t []
      rw [List.append_nil] at hempty
      constructor
      · intro hread
        refine ⟨?_, List.forall_mem_nil _⟩
        rw [List.forall_mem_singleton]
        exact hempty first hread
      · rintro ⟨hunsplit, -⟩
        rw [Text.join, (hunsplit t List.mem_cons_self).split_eq, readPrintItems,
          first.readPrintItem_eq]
        rfl
    | @cons u item' texts items second others =>
      have hrest := ih (List.cons_ne_nil u texts)
      have hblank : readPrintItems (splitTopLevel ',' ([' '] ++ Text.join [',', ' '] (u :: texts))) =
          readPrintItems (splitTopLevel ',' (Text.join [',', ' '] (u :: texts))) :=
        readPrintItems_congr (map_trim_split_left (List.all_eq_true.mp (by decide)) _)
      rw [join_comma, List.dropLast_cons_of_ne_nil (List.cons_ne_nil u texts)]
      constructor
      · intro hread
        have hunsplit := first.unsplit_of_reads hread
        have hdepth := first.depth_of_reads hread
        rw [hunsplit.split_comma hdepth] at hread
        obtain ⟨_, _, -, hothers, heq⟩ := exists_of_readPrintItems hread
        cases heq
        rw [hblank] at hothers
        obtain ⟨hunsplits, hdepths⟩ := hrest.mp hothers
        exact ⟨List.forall_mem_cons.mpr ⟨hunsplit, hunsplits⟩,
          List.forall_mem_cons.mpr ⟨hdepth, hdepths⟩⟩
      · rintro ⟨hall, hfront⟩
        obtain ⟨hunsplit, hunsplits⟩ := List.forall_mem_cons.mp hall
        obtain ⟨hdepth, hdepths⟩ := List.forall_mem_cons.mp hfront
        rw [hunsplit.split_comma hdepth, readPrintItems, hblank, hrest.mpr ⟨hunsplits, hdepths⟩,
          first.readPrintItem_eq]
        rfl

/-! ## The whole statement -/

theorem normalizeLineEnds_join (texts : List Text) :
    normalizeLineEnds (Text.join [',', ' '] texts) =
      Text.join [',', ' '] (texts.map normalizeLineEnds) := by
  induction texts with
  | nil => rfl
  | cons t texts ih =>
    cases texts with
    | nil => rfl
    | cons u texts =>
      have hcomma := normalizeLineEnds_append (a := [',', ' ']) (by decide)
        (Text.join [',', ' '] (u :: texts))
      rw [List.map_cons, List.map_cons, join_comma, join_comma, ← List.map_cons, ← ih,
        normalizeLineEnds_append_of_ends (fun _ => by simp)]
      exact congrArg (normalizeLineEnds t ++ ·) hcomma

theorem WrittenItem.normalizeLineEnds {t : Text} {item : PrintItem} (h : WrittenItem t item) :
    WrittenItem (normalizeLineEnds t) item := by
  cases h with
  | @text t balanced trimmed unmarked oneLine =>
    rw [normalizeLineEnds_of_oneLine (by simpa [bracketed] using oneLine)]
    exact .text balanced trimmed unmarked oneLine
  | @value t e accepted unmarked plain =>
    have hsub := (normalizeLineEnds_sublist t).subset
    refine .value ?_ (unmarked_normalizeLineEnds unmarked) fun c hc hmem => plain c hc (hsub hmem)
    rw [← accepted, Expr.parse?, Expr.parse?, Token.scan, Token.scan, scanFrom_normalizeLineEnds]

theorem WrittenItem.settled {t : Text} {item : PrintItem} (h : WrittenItem t item) : Settled t := by
  cases h with
  | text balanced _ _ oneLine =>
    exact .of_passes (balanced.passes_bracketed 0) (by simpa [bracketed] using oneLine)
  | value _ _ plain =>
    exact .of_not_mem (plain ';' (by decide)) (plain '[' (by decide))

/-- The statement that prints the arguments written by some texts. -/
def printed (texts : List Text) : Text := Kind.keyword .print ++ ' ' :: Text.join [',', ' '] texts

theorem normalizeLineEnds_printed (texts : List Text) :
    normalizeLineEnds (printed texts) = printed (texts.map normalizeLineEnds) := by
  have hkeyword := normalizeLineEnds_append (a := Kind.keyword .print ++ [' ']) (by decide)
    (Text.join [',', ' '] texts)
  rw [normalizeLineEnds_join] at hkeyword
  exact hkeyword

section Written

variable {texts : List Text} {items : List PrintItem}

theorem settled_printed (h : List.Forall₂ WrittenItem texts items) : Settled (printed texts) := by
  have hcomma : Settled [',', ' '] := .of_not_mem (by decide) (by decide)
  have hkeyword : Settled (Kind.keyword .print ++ [' ']) := .of_not_mem (by decide) (by decide)
  have hjoin : Settled (Text.join [',', ' '] texts) := by
    induction h with
    | nil => exact .of_not_mem (by decide) (by decide)
    | cons first rest ih =>
      cases rest with
      | nil => exact first.settled
      | cons =>
        rw [join_comma]
        exact first.settled.append (hcomma.append ih)
  exact hkeyword.append hjoin

theorem unmarked_printed (h : List.Forall₂ WrittenItem texts items) : Unmarked (printed texts) := by
  have hkeyword : Unmarked (Kind.keyword .print) := ⟨by decide, apart_of_not_mem (by decide)⟩
  have hjoin : Unmarked (Text.join [',', ' '] texts) := by
    induction h with
    | nil => exact unmarked_nil
    | cons first rest ih =>
      cases rest with
      | nil => exact first.unmarked
      | cons =>
        have hblank := unmarked_nil.append ih (c := ' ') (by decide)
        rw [join_comma]
        exact first.unmarked.append hblank (by decide)
  exact hkeyword.append hjoin (by decide)

theorem join_trim_ne_nil (h : List.Forall₂ WrittenItem texts items) (hne : texts ≠ []) :
    (Text.join [',', ' '] texts).trim ≠ [] := by
  cases h with
  | nil => exact absurd rfl hne
  | cons first rest =>
    cases rest with
    | nil => exact first.trim_ne_nil
    | cons =>
      rw [join_comma]
      intro hnil
      have hcomma := Text.trim_eq_nil_iff.mp hnil ',' (List.mem_append_right _ List.mem_cons_self)
      cases hcomma

/-- The statement is read by its arguments, with or without the blanks behind it. -/
theorem action_printed (h : List.Forall₂ WrittenItem texts items) (hne : texts ≠ []) {s : Statement}
    (htext : s.text = (printed texts).trim) :
    s.action = (readPrintItems (splitTopLevel ',' (Text.join [',', ' '] texts))).map .print := by
  have hjoin := join_trim_ne_nil h hne
  generalize hj : Text.join [',', ' '] texts = joined at hjoin
  have hblank : ∀ c ∈ [' '], isBlank c := List.all_eq_true.mp (by decide)
  obtain ⟨tail, htail, hparts⟩ := joined.exists_trim
  -- In front of the blanks that are cut off stand the keyword, a blank and the arguments.
  have htrim : (printed texts).trim =
      Kind.keyword .print ++ ' ' :: (joined.takeWhile isBlank ++ joined.trim) := by
    have hkeyword := tight_of_plain (keyword_ne_nil .print) (plain_keyword .print)
    have htight := hkeyword.around (tight_trim hjoin) (' ' :: joined.takeWhile isBlank)
    have hwhole : printed texts =
        (Kind.keyword .print ++ ((' ' :: joined.takeWhile isBlank) ++ joined.trim)) ++ tail := by
      rw [printed, hj]
      conv => lhs; rw [hparts]
      simp only [List.append_assoc, List.cons_append]
    rw [hwhole, Text.trim_append_right htail, htight.trim, List.cons_append]
  obtain ⟨hword, hrest⟩ := takeWhile_inWord (plain_keyword .print)
    (joined.takeWhile isBlank ++ joined.trim)
  rw [← htrim, ← htext] at hword hrest
  have hargs : Text.trim (s.text.dropWhile inWord) = joined.trim := by
    rw [hrest]
    have hfront := Text.trim_append_left hblank (joined.takeWhile isBlank ++ joined.trim)
    rw [Text.trim_append_left (takeWhile_isBlank joined), (tight_trim hjoin).trim] at hfront
    exact hfront
  rw [action_of_keyword (by decide) hword hargs, readArguments, readPrint,
    if_neg (by simp [hjoin]), readPrintItems_congr (map_trim_splitTopLevel joined)]

end Written

/-- What the statements of printed arguments give, if their line ends are single characters. -/
theorem reports_printed_iff {texts : List Text} {items : List PrintItem}
    (h : List.Forall₂ WrittenItem texts items) (hne : texts ≠ []) (firstLine : Int) :
    (statements firstLine (printed texts)).filterMap (·.command.toOption) =
          [⟨.print items, firstLine⟩] ∧
        (statements firstLine (printed texts)).filterMap Statement.report? = [] ↔
      '\n' ∉ (printed texts).trim ∧
        readPrintItems (splitTopLevel ',' (Text.join [',', ' '] texts)) = .ok items := by
  have hsettled := settled_printed h
  by_cases hline : '\n' ∈ (printed texts).trim
  · -- More than one statement gives more than one command or diagnostic.
    have hmany : 2 ≤ (statements firstLine (printed texts)).length :=
      hsettled.two_le_length_statements rfl hline firstLine
    have hcount := length_reports (statements firstLine (printed texts))
    refine iff_of_false ?_ fun hall => hall.1 hline
    rintro ⟨hcommands, hdiagnostics⟩
    rw [hcommands, hdiagnostics, List.length_singleton, List.length_nil] at hcount
    omega
  · let s : Statement := ⟨(printed texts).trim, ⟨firstLine, 1⟩,
      Position.afterText ⟨firstLine, 1⟩ (printed texts).trim⟩
    have hone : statements firstLine (printed texts) = [s] :=
      hsettled.statements_of_oneLine rfl hline firstLine
    have hline' : s.line = firstLine := rfl
    rw [hone, reports_singleton_iff hline', action_printed h hne rfl]
    cases readPrintItems (splitTopLevel ',' (Text.join [',', ' '] texts)) with
    | error fault => simp [Except.map]
    | ok read => simp [Except.map, hline]

/-- A statement that prints texts in brackets and expressions is read back, as these and without
diagnostics, exactly if it is on one line and the count of brackets and parentheses, taken over the whole
statement, is at zero at the commas between the arguments and at no other comma. -/
theorem print_reads_back_iff {texts : List Text} {items : List PrintItem}
    (h : List.Forall₂ WrittenItem texts items) (hne : texts ≠ []) (firstLine : Int) :
    (parse firstLine (printed texts)).commands = [⟨.print items, firstLine⟩] ∧
        (parse firstLine (printed texts)).diagnostics = [] ↔
      '\n' ∉ (printed texts).trim ∧ (∀ t ∈ texts, Unsplit ',' 0 t) ∧
        ∀ t ∈ texts.dropLast, t.foldl topDepth 0 = 0 := by
  let plain := texts.map normalizeLineEnds
  have hplain : List.Forall₂ WrittenItem plain items :=
    List.forall₂_map_left_iff.mpr (h.imp fun _ _ hitem => hitem.normalizeLineEnds)
  have hplainne : plain ≠ [] := by simpa [plain] using hne
  have hunmarked := unmarked_printed hplain
  have hnormal := normalizeLineEnds_printed texts
  have hclean : clean firstLine (printed texts) = ⟨printed plain, [], none⟩ := by
    rw [clean_of_unmarked (by rwa [hnormal]), hnormal]
  -- The conditions do not depend on how the line ends are written.
  have hsplits : (∀ t ∈ plain, Unsplit ',' 0 t) ↔ ∀ t ∈ texts, Unsplit ',' 0 t := by
    simp only [plain, List.forall_mem_map, unsplit_normalizeLineEnds]
  have hdepths : (∀ t ∈ plain.dropLast, t.foldl topDepth 0 = 0) ↔
      ∀ t ∈ texts.dropLast, t.foldl topDepth 0 = 0 := by
    simp only [plain, ← List.map_dropLast, List.forall_mem_map, foldl_topDepth_normalizeLineEnds]
  have htrim : '\n' ∈ (printed plain).trim ↔ '\n' ∈ (printed texts).trim := by
    have htrimmed : (normalizeLineEnds (printed texts)).trim = normalizeLineEnds (printed texts).trim :=
      trim_normalizeLineEnds rfl _
    rw [← hnormal, htrimmed, newline_mem_normalizeLineEnds]
  rw [commands_parse, diagnostics_parse, hclean, ← hsplits, ← hdepths, ← htrim,
    ← readPrintItems_join_iff hplain hplainne]
  exact reports_printed_iff hplain hplainne firstLine

/-- Parentheses in the texts do no harm where they match around the commas, nor at the very end. -/
theorem print_reads_back_parentheses :
    let texts := [bracketed "f(x, y); [k]".toList, ":n * (2 + 1)".toList, bracketed "end)".toList]
    let items : List PrintItem := [.text "f(x, y); [k]".toList,
      .value (.binary .mul (.var ['n']) (.binary .add (.number 2) (.number 1))), .text "end)".toList]
    List.Forall₂ WrittenItem texts items ∧
      printed texts = "PRINT [f(x, y); [k]], :n * (2 + 1), [end)]".toList ∧
      (parse 1 (printed texts)).commands = [⟨.print items, 1⟩] ∧
      '\n' ∉ (printed texts).trim ∧ (∀ t ∈ texts, Unsplit ',' 0 t) ∧
      ∀ t ∈ texts.dropLast, t.foldl topDepth 0 = 0 := by
  intro texts items
  have hunmarked : ∀ t : Text, t.all (· ∉ ['#', '/']) = true → Unmarked t := by
    intro t ht
    have hnot : ∀ c ∈ ['#', '/'], c ∉ t := fun c hc hmem =>
      of_decide_eq_true (List.all_eq_true.mp ht c hmem) hc
    exact ⟨hnot '#' (by decide), apart_of_not_mem (hnot '/' (by decide))⟩
  have hcall : Balanced "f(x, y); [k]".toList := by
    repeat refine .cons (by decide) (by decide) ?_
    exact .group (balanced_of_not_mem (t := ['k']) (by decide) (by decide)) .nil
  have hend : Balanced "end)".toList := balanced_of_not_mem (by decide) (by decide)
  have hplain : ∀ c ∈ [',', ';', '[', ']'], c ∉ ":n * (2 + 1)".toList := by
    intro c hc
    simp only [List.mem_cons, List.not_mem_nil, or_false] at hc
    obtain rfl | rfl | rfl | rfl := hc <;> decide
  have hwritten : List.Forall₂ WrittenItem texts items :=
    .cons (.text hcall (by decide) (hunmarked _ (by decide)) (by decide))
      (.cons (.value (by decide +kernel) (hunmarked _ (by decide)) hplain)
        (.cons (.text hend (by decide) (hunmarked _ (by decide)) (by decide)) .nil))
  have hread : (parse 1 (printed texts)).commands = [⟨.print items, 1⟩] ∧
      (parse 1 (printed texts)).diagnostics = [] := by
    decide +kernel
  have hconditions := (print_reads_back_iff hwritten (List.cons_ne_nil _ _) 1).mp hread
  exact ⟨hwritten, by decide, hread.1, hconditions⟩

/-- A closing parenthesis in a text brings the count back to zero too early, and the text is cut at its
comma. -/
theorem print_cuts_text_at_comma :
    let texts := [bracketed "a), b".toList]
    List.Forall₂ WrittenItem texts [.text "a), b".toList] ∧
      printed texts = "PRINT [a), b]".toList ∧ (parse 1 (printed texts)).commands = [] ∧
      (parse 1 (printed texts)).diagnostics.map (·.message) =
        ["PRINT string missing closing bracket".toList] := by
  have hunmarked : Unmarked "a), b".toList := ⟨by decide, apart_of_not_mem (by decide)⟩
  have hbalanced : Balanced "a), b".toList := balanced_of_not_mem (by decide) (by decide)
  exact ⟨.cons (.text hbalanced (by decide) hunmarked (by decide)) .nil, by decide, by decide +kernel,
    by decide +kernel⟩

end TurtleTrace
