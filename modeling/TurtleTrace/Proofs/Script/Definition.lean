import TurtleTrace.Machine.Run
import TurtleTrace.Proofs.Expr.Reference
import TurtleTrace.Proofs.Script.LaterLines
import TurtleTrace.Proofs.Script.OneLine

/-!
# Definitions of variables

A definition takes its name up to the next blank or bracket, while an expression cuts a name at signs
as well. So the variable that a definition sets can be read under the name that stands there exactly if
no sign is in it; with a sign in its name there is no way to read it.
-/

namespace TurtleTrace

set_option autoImplicit false

/-! ## The name of a definition -/

theorem startsWith_trim {c : Char} (hc : isBlank c = false) (rest : Text) :
    Text.startsWith c (Text.trim (c :: rest)) := by
  obtain ⟨htight, tail, -, hparts⟩ := trim_of_head hc rest
  cases htrim : Text.trim (c :: rest) with
  | nil => exact absurd htrim htight.nonempty
  | cons d more =>
    rw [htrim] at hparts
    cases hparts
    exact beq_self_eq_true _

theorem inWord_eq_false_of_dropWhile {t rest : Text} {b : Char}
    (h : t.dropWhile inWord = b :: rest) : inWord b = false := by
  have hhead := List.head?_dropWhile_not inWord t
  rw [h] at hhead
  exact hhead

/-- A definition of a number has a blank behind its name, and not only blanks behind that. -/
theorem readMake_makeNumber {t v : Text} {x : Expr} (h : readMake t = .ok (.makeNumber v x)) :
    ∃ (name : Text) (b : Char) (rest : Text), t = '"' :: (name ++ b :: rest) ∧ name ≠ [] ∧
      (∀ c ∈ name, inWord c) ∧ isBlank b ∧ Text.trim rest ≠ [] ∧ v = Text.lower name := by
  unfold readMake at h
  split at h
  case h_2 => cases h
  case h_1 t =>
    simp only at h
    split at h
    case isTrue => cases h
    case isFalse hname =>
    split at h
    case isTrue => cases h
    case isFalse hvalue =>
    split at h
    case isTrue =>
      obtain ⟨_, hlist⟩ := Reading.exists_of_map h
      cases hlist
    case isFalse hbracket =>
    obtain ⟨e, he⟩ := Reading.exists_of_map h
    cases he
    cases hrest : t.dropWhile inWord with
    | nil =>
      rw [hrest] at hvalue
      exact absurd rfl hvalue
    | cons b rest =>
      rw [hrest] at hvalue hbracket
      have hblank : isBlank b := by
        have hb := inWord_eq_false_of_dropWhile hrest
        cases hblank : isBlank b with
        | true => rfl
        | false =>
          obtain rfl : b = '[' := by simpa [inWord, hblank] using hb
          exact absurd (startsWith_trim hblank rest) hbracket
      have htrim : Text.trim (b :: rest) = Text.trim rest :=
        Text.trim_append_left (List.forall_mem_singleton.mpr hblank) rest
      rw [htrim] at hvalue
      refine ⟨t.takeWhile inWord, b, rest, ?_, ?_, fun c hc => List.mem_takeWhile_imp hc, hblank, ?_,
        rfl⟩
      · rw [← hrest, List.takeWhile_append_dropWhile]
      · exact fun hnil => hname (List.isEmpty_iff.mpr hnil)
      · exact fun hnil => hvalue (List.isEmpty_iff.mpr hnil)

/-- A statement that sets a number reads its arguments as a definition. -/
theorem Statement.readMake_of_action {s : Statement} {v : Text} {x : Expr}
    (h : s.action = .ok (.makeNumber v x)) :
    readMake (Text.trim (s.text.dropWhile inWord)) = .ok (.makeNumber v x) := by
  unfold action at h
  simp only at h
  split at h
  · cases h
  · unfold readCall at h
    split at h
    · cases h
    · split at h <;> cases h
  · split at h
    · cases h
    · obtain rfl := kind_of_readArguments h
      exact h

/-- Two texts with the same front, cut where a property ends, are cut at the same place. -/
theorem cut_unique {p : Char → Bool} {s t u v : Text} (h : s ++ u = t ++ v) (hs : ∀ c ∈ s, p c)
    (ht : ∀ c ∈ t, p c) (hu : ∃ c ∈ u.head?, p c = false) (hv : ∃ c ∈ v.head?, p c = false) :
    s = t ∧ u = v := by
  have hcut : ∀ {a b : Text}, (∀ c ∈ a, p c) → (∃ c ∈ b.head?, p c = false) →
      (a ++ b).takeWhile p = a := by
    rintro a b ha ⟨c, hc, hp⟩
    obtain ⟨rest, rfl⟩ := List.head?_eq_some_iff.mp hc
    rw [List.takeWhile_append_of_pos ha, List.takeWhile_cons_of_neg (by simp [hp]), List.append_nil]
  have heq : s = t := by rw [← hcut hs hu, h, hcut ht hv]
  subst heq
  exact ⟨rfl, List.append_cancel_left h⟩

/-- The definition of a number at the front of a text: its name goes up to the first blank. -/
theorem Statement.name_of_definition {s : Statement} {v t z : Text} {x : Expr}
    (h : s.action = .ok (.makeNumber v x)) (hfront : s.text ++ z = "MAKE \"".toList ++ t) :
    ∃ (name : Text) (b : Char) (rest : Text), s.text = "MAKE \"".toList ++ (name ++ b :: rest) ∧
      t = name ++ b :: (rest ++ z) ∧ name ≠ [] ∧ (∀ c ∈ name, inWord c) ∧ isBlank b ∧
      Text.trim rest ≠ [] ∧ v = Text.lower name := by
  obtain ⟨name, b, rest, hmake, hne, hname, hblank, hrest, rfl⟩ :=
    readMake_makeNumber (readMake_of_action h)
  -- The keyword ends at the first blank, and behind it one blank stands in front of the quote.
  let behind := s.text.dropWhile inWord
  obtain ⟨tail, htail, hbehind⟩ := Text.exists_trim behind
  have hparts : behind = behind.takeWhile isBlank ++ ('"' :: (name ++ b :: (rest ++ tail))) := by
    rw [hmake] at hbehind
    simpa only [List.cons_append, List.append_assoc] using hbehind
  have hword : s.text.takeWhile inWord ++ behind = s.text := List.takeWhile_append_dropWhile
  have hends : ∃ c ∈ (behind ++ z).head?, inWord c = false := by
    cases hcons : behind with
    | nil =>
      rw [hcons] at hparts
      cases hparts
    | cons c more => exact ⟨c, rfl, inWord_eq_false_of_dropWhile hcons⟩
  obtain ⟨hkeyword, hbehind⟩ := cut_unique (p := inWord) (t := "MAKE".toList) (v := ' ' :: '"' :: t)
    (by rw [← List.append_assoc, hword, hfront]; rfl) (fun c hc => List.mem_takeWhile_imp hc)
    (List.all_eq_true.mp (by decide)) hends ⟨' ', rfl, by decide⟩
  have hquote : behind.takeWhile isBlank ++ ('"' :: (name ++ b :: (rest ++ tail)) ++ z) =
      [' '] ++ '"' :: t := by
    rw [← List.append_assoc, ← hparts, hbehind]
    rfl
  obtain ⟨hgap, hdefinition⟩ := cut_unique (p := isBlank) hquote
    (fun c hc => List.mem_takeWhile_imp hc) (List.all_eq_true.mp (by decide)) ⟨'"', rfl, by decide⟩
    ⟨'"', rfl, by decide⟩
  rw [hgap] at hparts
  refine ⟨name, b, rest ++ tail, ?_, ?_, hne, hname, hblank, ?_, rfl⟩
  · rw [← hword, hkeyword, hparts]
    rfl
  · have ht : name ++ b :: (rest ++ tail) ++ z = t := (List.cons.inj hdefinition).2
    rw [← ht, List.append_assoc, List.cons_append]
  · rw [Text.trim_append_right htail]
    exact hrest

/-! ## The only statement -/

theorem unseparated_of_mem_statements {line : Int} {t : Text} {s : Statement}
    (h : s ∈ statements line t) : Unseparated 0 s.text := by
  obtain ⟨chunk, hchunk, hs⟩ := List.mem_filterMap.mp h
  have hwhole := (unseparated_of_mem hchunk).trim
  simp only [Statement.ofChunk?] at hs
  split at hs
  · cases hs
  · cases hs
    exact hwhole

/-- The first of statements that can all be read gives the first command. -/
theorem Statement.action_of_first {s : Statement} {ss : List Statement} {c : Command}
    {commands : List Command}
    (hcommands : (s :: ss).filterMap (·.command.toOption) = c :: commands)
    (hclear : (s :: ss).filterMap report? = []) : s.action = .ok c.action := by
  cases haction : s.action with
  | error fault =>
    have hcommand : s.command = .error fault := by rw [command, haction]; rfl
    have hreport : s.report? = some (s.diagnostic fault) := by rw [report?, hcommand]
    rw [List.filterMap_cons_some hreport] at hclear
    cases hclear
  | ok action =>
    have hcommand : s.command.toOption = some ⟨action, s.line⟩ := by rw [command, haction]; rfl
    rw [List.filterMap_cons, hcommand] at hcommands
    cases hcommands
    rfl

/-- The only command of a text without diagnostics is that of the statement at its front. -/
theorem exists_statement_of_parse {line : Int} {source t : Text} {d : Char} {c : Command}
    (htext : (clean line source).text = d :: t) (hd : isGap d = false)
    (hcommands : (parse line source).commands = [c])
    (hclear : (parse line source).diagnostics = []) :
    ∃ (s : Statement) (z : Text), s.action = .ok c.action ∧ s.text ++ z = d :: t ∧
      Unseparated 0 s.text := by
  have hlaid : Laid ⟨line, 1⟩ (clean line source).text
      (statements line (clean line source).text) := laid_chunksFrom _ _
  have hwhole := fun s => @unseparated_of_mem_statements line (clean line source).text s
  rw [commands_parse] at hcommands
  rw [diagnostics_parse, List.append_eq_nil_iff] at hclear
  rw [htext] at hlaid hwhole hcommands hclear
  generalize statements line (d :: t) = ss at hlaid hwhole hcommands hclear
  generalize hu : d :: t = u at hlaid
  cases hlaid with
  | gap hgap =>
    have hgap := hgap d (hu ▸ List.mem_cons_self)
    rw [hd] at hgap
    cases hgap
  | @statement _ gap text rest ss hgap hne hrest =>
    cases gap with
    | cons g gap =>
      cases hu
      rw [hgap d List.mem_cons_self] at hd
      cases hd
    | nil =>
      exact ⟨_, rest, Statement.action_of_first hcommands hclear.2, rfl,
        hwhole _ List.mem_cons_self⟩

/-! ## Comments behind a name -/

theorem blankComments_blockPieces_append {u : Text} (h : '/' ∉ u) (before t : Text) :
    blankComments (blockPieces before (u ++ t)) =
      u ++ blankComments (blockPieces (u.foldl lineAfter before) t) := by
  induction u generalizing before with
  | nil => rfl
  | cons c u ih =>
    obtain ⟨hc, hu⟩ := not_or.mp (List.mem_cons.not.mp h)
    rw [List.cons_append, blockPieces_code (fun _ hslash => absurd hslash.symm hc),
      blankComments_code_cons, ih hu]
    rfl

theorem blankComments_linePieces_append {u : Text} (h : '/' ∉ u) (hhash : '#' ∉ u) (t : Text) :
    blankComments (linePieces (u ++ t)) = u ++ blankComments (linePieces t) := by
  induction u with
  | nil => rfl
  | cons c u ih =>
    obtain ⟨hc, hu⟩ := not_or.mp (List.mem_cons.not.mp h)
    obtain ⟨hc', hu'⟩ := not_or.mp (List.mem_cons.not.mp hhash)
    rw [List.cons_append, linePieces_code (Ne.symm hc') (fun _ hslash => absurd hslash.symm hc),
      blankComments_code_cons, ih hu hu']
    rfl

/-- What is left of a text with a line comment in it: up to the end of the line there are spaces. -/
theorem blankComments_linePieces_hash (t : Text) :
    ∃ spaces rest, blankComments (linePieces ('#' :: t)) = ' ' :: (spaces ++ rest) ∧
      (∀ c ∈ spaces, c = ' ') ∧ AtLineEnd rest := by
  refine ⟨(t.takeWhile inLine).map blankChar, blankComments (linePieces (t.dropWhile inLine)), ?_, ?_,
    ?_⟩
  · rw [linePieces]
    rfl
  · intro c hc
    obtain ⟨d, hd, rfl⟩ := List.mem_map.mp hc
    have hline : inLine d := List.mem_takeWhile_imp hd
    exact if_neg (of_decide_eq_true hline)
  · obtain hnil | ⟨rest, hrest⟩ := (atLineEnd_dropWhile t).cases
    · rw [hnil, linePieces]
      exact fun _ hc => by cases hc
    · rw [hrest, linePieces_code (by decide) (fun _ hc => by cases hc)]
      rintro _ ⟨⟩
      rfl

theorem head?_normalizeLineEnds {t : Text} (h : ∃ b ∈ t.head?, isBlank b) :
    ∃ b ∈ (normalizeLineEnds t).head?, isBlank b := by
  fun_cases normalizeLineEnds t with
  | case1 => exact h
  | case2 rest => exact ⟨'\n', rfl, by decide⟩
  | case3 c rest _ =>
    obtain ⟨b, hb, hblank⟩ := h
    exact ⟨b, hb, hblank⟩

/-- Comments are looked for behind a part without slashes as if it stood alone, up to line comments. -/
theorem exists_text_clean (line : Int) {u t : Text} (hreturn : '\r' ∉ u) (hslash : '/' ∉ u)
    (ht : ∃ b ∈ t.head?, isBlank b) :
    ∃ b rest, isBlank b ∧
      (clean line (u ++ t)).text = blankComments (linePieces (u ++ b :: rest)) := by
  obtain ⟨b, hb, hblank⟩ := head?_normalizeLineEnds ht
  obtain ⟨rest, hrest⟩ := List.head?_eq_some_iff.mp hb
  have hcode : ∀ more, b = '/' → rest ≠ '*' :: more := by
    rintro more rfl
    cases hblank
  refine ⟨b, blankComments (blockPieces (lineAfter (u.foldl lineAfter []) b) rest), hblank, ?_⟩
  simp only [clean]
  rw [normalizeLineEnds_append hreturn, blankComments_blockPieces_append hslash, hrest,
    blockPieces_code hcode]
  rfl

/-- The name of a definition that is the only command and stands at the front. -/
theorem definition_of_parse {line l : Int} {source t v : Text} {x : Expr}
    (htext : (clean line source).text = "MAKE \"".toList ++ t)
    (hcommands : (parse line source).commands = [⟨.makeNumber v x, l⟩])
    (hclear : (parse line source).diagnostics = []) :
    ∃ (name : Text) (b : Char) (rest z : Text), t = name ++ b :: (rest ++ z) ∧ name ≠ [] ∧
      (∀ c ∈ name, inWord c) ∧ isBlank b ∧ Text.trim rest ≠ [] ∧ v = Text.lower name ∧
      Unseparated 0 ("MAKE \"".toList ++ (name ++ b :: rest)) := by
  obtain ⟨s, z, haction, hfront, hwhole⟩ :=
    exists_statement_of_parse htext (by decide) hcommands hclear
  obtain ⟨name, b, rest, hs, ht, hne, hname, hb, hrest, hv⟩ :=
    Statement.name_of_definition haction hfront
  exact ⟨name, b, rest, z, ht, hne, hname, hb, hrest, hv, hs ▸ hwhole⟩

theorem not_isBlank_of_inWord {name : Text} (h : ∀ c ∈ name, inWord c) :
    ∀ c ∈ name, (!isBlank c) = true :=
  fun c hc => (Bool.and_eq_true_iff.mp (h c hc)).1

/-- A line comment right behind the name leaves no value for the definition. -/
theorem trim_eq_nil_of_spaces {name spaces after rest z : Text} (hname : ∀ c ∈ name, inWord c)
    (hspaces : ∀ c ∈ spaces, c = ' ') (hafter : AtLineEnd after)
    (h : spaces ++ after = rest ++ z)
    (hwhole : Unseparated 0 ("MAKE \"".toList ++ (name ++ ' ' :: rest))) : Text.trim rest = [] := by
  have hblank : ∀ c ∈ spaces, isBlank c := fun c hc => by
    rw [hspaces c hc]
    decide
  rw [Text.trim_eq_nil_iff]
  obtain rfl | ⟨more, rfl⟩ := hafter.cases
  · rw [List.append_nil] at h
    exact fun c hc => hblank c (h ▸ List.mem_append_left z hc)
  · obtain ⟨below, rfl⟩ | ⟨front, rfl, -⟩ := cons_of_append_eq h.symm
    · -- No bracket is open at the end of the line, so that the statement ends there.
      have hopen : '[' ∉ "MAKE \"".toList ++ (name ++ ' ' :: spaces) := by
        intro hmem
        obtain hmem | hmem := List.mem_append.mp hmem
        · revert hmem
          decide
        obtain hmem | hmem := List.mem_append.mp hmem
        · cases hname _ hmem
        obtain hmem | hmem := List.mem_cons.mp hmem
        · cases hmem
        · cases hspaces _ hmem
      have hends := hwhole _ '\n' below (by simp) (foldl_depthAfter_of_not_mem hopen)
      exact absurd rfl hends.2
    · exact fun c hc => hblank c (List.mem_append_left front hc)

/-- A line comment that starts in a name leaves the front of the name. -/
theorem blankComments_hash_in_name {keyword first second : Text}
    (hslash : '/' ∉ keyword ++ (first ++ '#' :: second)) (hhash : '#' ∉ keyword ++ first) (more : Text) :
    ∃ spaces after, blankComments (linePieces (keyword ++ (first ++ '#' :: second) ++ more)) =
        keyword ++ (first ++ ' ' :: (spaces ++ after)) ∧
      (∀ c ∈ spaces, c = ' ') ∧ AtLineEnd after := by
  obtain ⟨spaces, after, hspaced, hspaces, hafter⟩ := blankComments_linePieces_hash (second ++ more)
  refine ⟨spaces, after, ?_, hspaces, hafter⟩
  have hparts : keyword ++ (first ++ '#' :: second) ++ more =
      keyword ++ first ++ '#' :: (second ++ more) := by
    simp only [List.append_assoc, List.cons_append]
  have hslash' : '/' ∉ keyword ++ first := fun hmem =>
    hslash (List.append_assoc _ _ _ ▸ List.mem_append_left _ hmem)
  rw [hparts, blankComments_linePieces_append hslash' hhash, hspaced, List.append_assoc]

/-- A definition that is the only command takes its whole name, if nothing in it could be a sign. -/
theorem name_of_parse {line l : Int} {w r v : Text} {x : Expr} (hw : ∀ c ∈ w, Token.isLetter c)
    (hr : ∃ b ∈ r.head?, isBlank b)
    (hcommands : (parse line ("MAKE \"".toList ++ w ++ r)).commands = [⟨.makeNumber v x, l⟩])
    (hclear : (parse line ("MAKE \"".toList ++ w ++ r)).diagnostics = []) :
    w ≠ [] ∧ v = Text.lower w := by
  have hletter : ∀ {c : Char}, Token.isLetter c = false → c ∉ "MAKE \"".toList →
      c ∉ "MAKE \"".toList ++ w := by
    intro c hc hkeyword hmem
    obtain hmem | hmem := List.mem_append.mp hmem
    · exact hkeyword hmem
    · rw [hw c hmem] at hc
      cases hc
  have hslash : '/' ∉ "MAKE \"".toList ++ w := hletter rfl (by decide)
  have hblank : ∀ c ∈ w, (!isBlank c) = true := fun c hc => by
    rw [(Token.isLetter_iff.mp (hw c hc)).1]
    rfl
  obtain ⟨b, rest, hb, htext⟩ := exists_text_clean line (hletter rfl (by decide)) hslash hr
  by_cases hhash : '#' ∈ w
  · obtain ⟨first, second, rfl, hfirst⟩ := List.eq_append_cons_of_mem hhash
    have hkeyword : '#' ∉ "MAKE \"".toList ++ first := by
      rw [List.mem_append]
      exact not_or.mpr ⟨by decide, hfirst⟩
    obtain ⟨spaces, after, hspaced, hspaces, hafter⟩ :=
      blankComments_hash_in_name hslash hkeyword (b :: rest)
    have hfront := htext.trans hspaced
    obtain ⟨name, b', rest', z, ht, hne, hname, hb', hrest, rfl, hwhole⟩ :=
      definition_of_parse hfront hcommands hclear
    obtain ⟨rfl, hbehind⟩ := cut_unique (p := fun c => !isBlank c) ht
      (fun c hc => hblank c (List.mem_append_left _ hc)) (not_isBlank_of_inWord hname)
      ⟨' ', rfl, rfl⟩ ⟨b', rfl, by rw [hb']; rfl⟩
    obtain ⟨rfl, hvalue⟩ := List.cons.inj hbehind
    exact absurd (trim_eq_nil_of_spaces hname hspaces hafter hvalue hwhole) hrest
  · have hfront : (clean line ("MAKE \"".toList ++ w ++ r)).text =
        "MAKE \"".toList ++ (w ++ b :: blankComments (linePieces rest)) := by
      have hhash' : '#' ∉ "MAKE \"".toList ++ w := by
        rw [List.mem_append]
        exact not_or.mpr ⟨by decide, hhash⟩
      have hcode : b ≠ '#' ∧ b ≠ '/' := by
        constructor <;> rintro rfl <;> cases hb
      rw [htext, blankComments_linePieces_append hslash hhash',
        linePieces_code hcode.1 (fun _ h => absurd h hcode.2), List.append_assoc]
      rfl
    obtain ⟨name, b', rest', z, ht, hne, hname, hb', -, rfl, -⟩ :=
      definition_of_parse hfront hcommands hclear
    obtain ⟨rfl, -⟩ := cut_unique (p := fun c => !isBlank c) ht hblank
      (not_isBlank_of_inWord hname) ⟨b, rfl, by rw [hb]; rfl⟩ ⟨b', rfl, by rw [hb']; rfl⟩
    exact ⟨hne, rfl⟩

/-! ## Reading what was defined -/

theorem evaluate_set (b : Bindings) (v : Text) {y : Float} (hy : y.isFinite) :
    (Expr.var v).evaluate (b.set v (.number y)) = .ok y := by
  have hnumber : (b.set v (.number y)).number v = .ok y := by
    rw [Bindings.number, Bindings.find?_set_self]
  rw [Expr.evaluate, Expr.eval, hnumber]
  exact if_pos hy

/-- After a definition has run, a reference to its variable has the value that was stored. -/
theorem evaluate_of_definition {limits : Limits} {v : Text} {x : Expr} {l : Int} {m after : Machine}
    (h : runCommands limits [⟨.makeNumber v x, l⟩] m = .done after) :
    ∃ y, x.evaluate m.bindings = .ok y ∧ (Expr.var v).evaluate after.bindings = .ok y := by
  have hbindings :
      ((m.begin l).placeComments (Action.makeNumber v x).kind l).bindings = m.bindings := rfl
  simp only [runCommands, runAll, runCommand, startCommand, Command.kind, Machine.act,
    Machine.withValue, hbindings] at h
  by_cases hsteps : limits.steps < (m.begin l).steps
  · simp only [hsteps, if_true] at h
    cases h
  · simp only [hsteps, if_false] at h
    cases hvalue : x.evaluate m.bindings with
    | error fault =>
      rw [hvalue] at h
      cases h
    | ok y =>
      rw [hvalue] at h
      cases h
      exact ⟨y, rfl, evaluate_set _ v (Expr.isFinite_of_evaluate hvalue)⟩

/-- Where a definition of a number is read without complaint, the name that stands in it is a reference
to its variable exactly if there is neither a blank nor a sign in it, up to blanks behind it; a variable
with a sign in its name is out of reach of all expressions. A reference to the variable has the value
that the definition has stored. -/
theorem reference_to_defined_name {line l : Int} {name value v : Text} {x : Expr}
    (hcommands : (parse line ("MAKE \"".toList ++ name ++ ' ' :: value)).commands =
      [⟨.makeNumber v x, l⟩])
    (hclear : (parse line ("MAKE \"".toList ++ name ++ ' ' :: value)).diagnostics = []) :
    (Expr.parse? (':' :: name) = some (.var v) ↔
      ∀ c ∈ name.trimRight, isBlank c = false ∧ Sign.ofChar? c = none) ∧
    ((∃ c ∈ v, (Sign.ofChar? c).isSome) → ∀ t, Expr.parse? t ≠ some (.var v)) ∧
    ∀ (limits : Limits) (m after : Machine),
      runCommands limits (parse line ("MAKE \"".toList ++ name ++ ' ' :: value)).commands m =
        .done after →
      ∃ y, x.evaluate m.bindings = .ok y ∧ (Expr.var v).evaluate after.bindings = .ok y := by
  refine ⟨?_, ?_, ?_⟩
  · rw [Expr.parse?_colon_iff]
    constructor
    · exact fun h c hc => Token.isLetter_iff.mp (h.1 c hc)
    · intro h
      have hletters : ∀ c ∈ name.trimRight, Token.isLetter c := fun c hc =>
        Token.isLetter_iff.mpr (h c hc)
      obtain ⟨blanks, hblanks, hname⟩ := name.exists_trimRight
      have hgap : ∃ b ∈ (blanks ++ ' ' :: value).head?, isBlank b := by
        cases blanks with
        | nil => exact ⟨' ', rfl, by decide⟩
        | cons b blanks => exact ⟨b, rfl, hblanks b List.mem_cons_self⟩
      have hsource : "MAKE \"".toList ++ name ++ ' ' :: value =
          "MAKE \"".toList ++ name.trimRight ++ (blanks ++ ' ' :: value) := by
        conv => lhs; rw [hname]
        simp only [List.append_assoc]
      rw [hsource] at hcommands hclear
      exact ⟨hletters, name_of_parse hletters hgap hcommands hclear⟩
  · rintro ⟨c, hc, hsign⟩
    exact Expr.parse?_ne_var hsign hc
  · intro limits m after h
    rw [hcommands] at h
    exact evaluate_of_definition h

theorem reference_to_defined_name_in_any_case :
    (parse 1 "MAKE \"Side]2  2 * 3".toList).commands =
        [⟨.makeNumber "side]2".toList (.binary .mul (.number 2) (.number 3)), 1⟩] ∧
      Expr.parse? ":Side]2 ".toList = some (.var "side]2".toList) :=
  ⟨by decide +kernel,
    (@reference_to_defined_name 1 1 "Side]2 ".toList "2 * 3".toList "side]2".toList
      (.binary .mul (.number 2) (.number 3)) (by decide +kernel) (by decide +kernel)).1.mpr
      (by simp only [← Token.isLetter_iff]; exact List.all_eq_true.mp (by decide))⟩

/-- A definition takes a minus into the name of its variable, where a reference takes it for an
operator. -/
theorem defined_name_with_minus :
    (parse 1 "MAKE \"a-1 5".toList).commands = [⟨.makeNumber "a-1".toList (.number 5), 1⟩] ∧
      (parse 1 "MAKE \"a-1 5".toList).diagnostics = [] ∧
      Expr.parse? ":a-1".toList = some (.binary .sub (.var "a".toList) (.number 1)) := by
  decide +kernel

end TurtleTrace
