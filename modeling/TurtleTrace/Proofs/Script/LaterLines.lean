import TurtleTrace.Proofs.Script.Nesting

/-!
# Blanks at the end of a line

Blanks in front of a line end, or at the end of the text, do not matter to the lines below: the
statements that begin there are the same, at the same places, whether the blanks stand there or not. A
bracket may be open across the line end, and it may never be closed.

* `AtLineEnd`: texts with a line end in front, or with nothing.
* `later`: the statements of chunks that begin below a line.
-/

namespace TurtleTrace

set_option autoImplicit false

/-- Nothing but a line end stands in front. -/
def AtLineEnd (t : Text) : Prop := ∀ c ∈ t.head?, c = '\n'

theorem AtLineEnd.cases {t : Text} (h : AtLineEnd t) : t = [] ∨ ∃ rest, t = '\n' :: rest := by
  cases t with
  | nil => exact .inl rfl
  | cons c rest =>
    obtain rfl : c = '\n' := h c rfl
    exact .inr ⟨rest, rfl⟩

theorem atLineEnd_dropWhile (t : Text) : AtLineEnd (t.dropWhile inLine) := by
  intro c hc
  have hhead := List.head?_dropWhile_not inLine t
  rw [Option.mem_def.mp hc] at hhead
  simpa [inLine] using hhead

/-! ## Statements below a line -/

/-- The statements of chunks that begin below a line. -/
def later (line : Int) (chunks : List Chunk) : List Statement :=
  (chunks.filterMap Statement.ofChunk?).filter fun s => line < s.line

theorem Statement.line_ofChunk? {chunk : Chunk} {s : Statement} (h : ofChunk? chunk = some s) :
    s.line = chunk.start.line + Text.newlines (chunk.text.takeWhile isBlank) := by
  simp only [ofChunk?] at h
  split at h
  · cases h
  · cases h
    exact Position.line_afterText _ _

theorem later_cons_congr {line : Int} {cs ds : List Chunk} (h : later line cs = later line ds)
    (chunk : Chunk) : later line (chunk :: cs) = later line (chunk :: ds) := by
  unfold later at h ⊢
  cases hs : Statement.ofChunk? chunk with
  | none => rw [List.filterMap_cons_none hs, List.filterMap_cons_none hs, h]
  | some s =>
    rw [List.filterMap_cons_some hs, List.filterMap_cons_some hs, List.filter_cons, List.filter_cons, h]

/-- A chunk that begins early enough does not count. -/
theorem later_cons_of_le {line : Int} {chunk : Chunk}
    (h : chunk.start.line + Text.newlines (chunk.text.takeWhile isBlank) ≤ line) (cs : List Chunk) :
    later line (chunk :: cs) = later line cs := by
  unfold later
  cases hs : Statement.ofChunk? chunk with
  | none => rw [List.filterMap_cons_none hs]
  | some s =>
    have hline := Statement.line_ofChunk? hs
    rw [List.filterMap_cons_some hs, List.filter_cons_of_neg]
    simp only [decide_eq_true_eq]
    omega

theorem later_nil (line : Int) : later line [] = [] := rfl

theorem later_chunksFrom_nil (line : Int) (p : Position) : later line (chunksFrom p []) = [] := by
  have hempty : (scanChunk 0 ([] : Text)).2 = .textEnd 0 := rfl
  rw [chunksFrom_textEnd hempty]
  rfl

/-- The line of a place is the line behind a mark and the line ends from there on. -/
theorem Position.line_of_cut (p : Position) (a : Text) (mark : Char) (rest : Text) :
    p.line + (Text.newlines (a ++ mark :: rest) : Int) =
      ((p.afterText a).after mark).line + Text.newlines rest := by
  rw [Text.newlines_append, Text.newlines_cons, line_after, line_afterText]
  omega

/-- What stands in front of the first character that is not blank has no more line ends than the part of
the text in which that character stands. -/
theorem newlines_front_le {x v : Text} (h : v.newlines = 0 ∨ '[' ∈ x) :
    Text.newlines ((x ++ v).takeWhile isBlank) ≤ x.newlines := by
  obtain hv | hx := h
  · have hfront := Text.newlines_le_of_sublist (List.takeWhile_sublist isBlank (l := x ++ v))
    rw [Text.newlines_append, hv] at hfront
    exact hfront
  · have hsome : ¬ (x.takeWhile isBlank).length = x.length := by
      intro hlength
      have hall := (List.takeWhile_prefix isBlank (l := x)).eq_of_length hlength
      have hblank := List.takeWhile_eq_self_iff.mp hall '[' hx
      cases hblank
    rw [List.takeWhile_append, if_neg hsome]
    exact Text.newlines_le_of_sublist (List.takeWhile_sublist isBlank)

/-! ## Open brackets -/

theorem mem_of_scanChunk_open {depth : Nat} {t : Text} (h : (scanChunk 0 t).2 = .textEnd depth)
    (hdepth : depth ≠ 0) : '[' ∈ t := by
  by_contra hmem
  have hpasses := unseparated_scanChunk 0 t
  rw [scanChunk_fst_of_textEnd h] at hpasses
  rw [scanChunk_of_unseparated hpasses, foldl_depthAfter_of_not_mem hmem] at h
  cases h
  exact hdepth rfl

section Open

variable {depth : Nat} {first rest t : Text}

/-- A bracket that is never closed ends with its first line. -/
theorem chunksFrom_open_line (h : (scanChunk 0 (first ++ '\n' :: rest)).2 = .textEnd depth)
    (hdepth : depth ≠ 0) (hfirst : '\n' ∉ first) (p : Position) :
    chunksFrom p (first ++ '\n' :: rest) =
      ⟨p, first, false⟩ :: chunksFrom ((p.afterText first).after '\n') rest := by
  rw [chunksFrom]
  split
  · rename_i heq
    rw [h] at heq
    cases heq
  · rename_i heq
    rw [h] at heq
    cases heq
    have hcut := cutBefore_append_of_not_mem hfirst rest
    rw [if_neg hdepth]
    split
    · rename_i heq
      rw [hcut] at heq
      cases heq
      rfl
    · rename_i hnone
      exact absurd hcut (hnone first '\n' rest)

theorem chunksFrom_open_end (h : (scanChunk 0 t).2 = .textEnd depth) (hdepth : depth ≠ 0)
    (hline : '\n' ∉ t) (p : Position) : chunksFrom p t = [⟨p, t, false⟩] := by
  rw [chunksFrom]
  split
  · rename_i heq
    rw [h] at heq
    cases heq
  · rename_i heq
    rw [h] at heq
    cases heq
    rw [if_neg hdepth]
    split
    · rename_i heq
      rw [cutBefore_of_not_mem hline] at heq
      cases heq
    · rfl

end Open

/-! ## Blanks in front of a line end -/

section Blanks

variable {w x y : Text}

theorem newlines_spaces (hw : ∀ c ∈ w, c = ' ') : w.newlines = 0 := by
  refine List.count_eq_zero.mpr fun hmem => ?_
  have hspace := hw '\n' hmem
  exact absurd hspace (by decide)

theorem after_spaces (hw : ∀ c ∈ w, c = ' ') (p : Position) (x : Text) :
    (p.afterText (x ++ w)).after '\n' = ⟨p.line + 1 + x.newlines, 1⟩ := by
  have hplace := p.afterText_append_newline (x ++ w)
  rw [Position.afterText_append, Text.newlines_append, newlines_spaces hw] at hplace
  exact hplace

/-- Spaces are passed over at every depth. -/
theorem scanChunk_spaces (hw : ∀ c ∈ w, c = ' ') {depth : Nat}
    (hx : scanChunk 0 x = (x, .textEnd depth)) (y : Text) :
    scanChunk 0 (x ++ (w ++ y)) =
      (x ++ (w ++ (scanChunk depth y).1), (scanChunk depth y).2) := by
  have hpasses : scanChunk depth w = (w, .textEnd depth) := by
    refine passes_of_not_mem (fun c hc => ?_) depth
    rw [hw c hc]
    decide
  rw [scanChunk_append_of_passes hx, scanChunk_append_of_passes hpasses]

/-- Outside brackets the next statement begins on the next line. -/
theorem later_of_closed (hw : ∀ c ∈ w, c = ' ') (hy : AtLineEnd y)
    (hx : scanChunk 0 x = (x, .textEnd 0)) (p : Position) :
    later (p.line + x.newlines) (chunksFrom p (x ++ (w ++ y))) =
      later (p.line + x.newlines) (chunksFrom ⟨p.line + 1 + x.newlines, 1⟩ y.tail) := by
  have hspaces := newlines_spaces hw
  have hearly : p.line + Text.newlines ((x ++ w).takeWhile isBlank) ≤ p.line + x.newlines := by
    have hfront := newlines_front_le (x := x) (.inl hspaces)
    omega
  have hscan := scanChunk_spaces hw hx y
  obtain rfl | ⟨rest, rfl⟩ := hy.cases
  · have hend : (scanChunk 0 (x ++ (w ++ []))).2 = .textEnd 0 := by rw [hscan]; rfl
    rw [chunksFrom_textEnd hend, List.append_nil, later_cons_of_le hearly, List.tail_nil,
      later_chunksFrom_nil, later_nil]
  · have hline : scanChunk 0 (x ++ (w ++ '\n' :: rest)) = (x ++ w, .separator '\n' rest) := by
      rw [hscan, scanChunk, if_neg (by decide), if_neg (by decide), if_pos (by decide),
        List.append_nil]
    rw [chunksFrom_separator hline, later_cons_of_le hearly, after_spaces hw, List.tail_cons]

/-- Inside a bracket that is closed in what follows, the next statement begins behind it. -/
theorem later_of_bracket (hw : ∀ c ∈ w, c = ' ') (hy : AtLineEnd y) {depth : Nat}
    (hx : scanChunk 0 x = (x, .textEnd depth)) (hdepth : depth ≠ 0) {text rest : Text} {mark : Char}
    (hscan : scanChunk depth y = (text, .separator mark rest)) (p : Position) :
    later (p.line + x.newlines) (chunksFrom p (x ++ (w ++ y))) =
      later (p.line + x.newlines)
        (chunksFrom ((Position.afterText ⟨p.line + 1 + x.newlines, 1⟩ text.tail).after mark) rest) := by
  have hopen := mem_of_scanChunk_open (congrArg Prod.snd hx) hdepth
  have hwhole : scanChunk 0 (x ++ (w ++ y)) = (x ++ (w ++ text), .separator mark rest) := by
    rw [scanChunk_spaces hw hx, hscan]
  have hearly : p.line + Text.newlines ((x ++ (w ++ text)).takeWhile isBlank) ≤
      p.line + x.newlines := by
    have hfront := newlines_front_le (v := w ++ text) (.inr hopen)
    omega
  -- The line end is inside the bracket, so it is kept.
  obtain ⟨kept, rfl⟩ : ∃ kept, text = '\n' :: kept := by
    obtain rfl | ⟨more, rfl⟩ := hy.cases
    · cases hscan
    · rw [scanChunk_cons fun hzero => absurd hzero hdepth] at hscan
      exact ⟨_, (congrArg Prod.fst hscan).symm⟩
  have hplace : p.afterText (x ++ (w ++ '\n' :: kept)) =
      Position.afterText ⟨p.line + 1 + x.newlines, 1⟩ kept := by
    rw [← after_spaces hw, ← List.append_assoc, Position.afterText_append]
    rfl
  rw [chunksFrom_separator hwhole, later_cons_of_le hearly, hplace, List.tail_cons]

/-- Inside a bracket that ends with the text, no other statement begins. -/
theorem later_of_bracket_end (hw : ∀ c ∈ w, c = ' ') {depth : Nat}
    (hx : scanChunk 0 x = (x, .textEnd depth)) (hdepth : depth ≠ 0)
    (hscan : (scanChunk depth y).2 = .textEnd 0) (p : Position) :
    later (p.line + x.newlines) (chunksFrom p (x ++ (w ++ y))) = [] := by
  have hopen := mem_of_scanChunk_open (congrArg Prod.snd hx) hdepth
  have hend : (scanChunk 0 (x ++ (w ++ y))).2 = .textEnd 0 := by rw [scanChunk_spaces hw hx, hscan]
  have hearly : p.line + Text.newlines ((x ++ (w ++ y)).takeWhile isBlank) ≤
      p.line + x.newlines := by
    have hfront := newlines_front_le (v := w ++ y) (.inr hopen)
    omega
  rw [chunksFrom_textEnd hend, later_cons_of_le hearly, later_nil]

/-- A bracket on one line that is never closed ends with the line. -/
theorem later_of_unclosed (hw : ∀ c ∈ w, c = ' ') (hy : AtLineEnd y) {depth n : Nat}
    (hx : scanChunk 0 x = (x, .textEnd depth)) (hline : '\n' ∉ x)
    (hscan : (scanChunk depth y).2 = .textEnd n) (hn : n ≠ 0) (p : Position) :
    later (p.line + x.newlines) (chunksFrom p (x ++ (w ++ y))) =
      later (p.line + x.newlines) (chunksFrom ⟨p.line + 1 + x.newlines, 1⟩ y.tail) := by
  have hspaces := newlines_spaces hw
  have hfirst : '\n' ∉ x ++ w := by
    rw [List.mem_append, not_or]
    exact ⟨hline, List.count_eq_zero.mp hspaces⟩
  have hend : (scanChunk 0 (x ++ (w ++ y))).2 = .textEnd n := by rw [scanChunk_spaces hw hx, hscan]
  have hearly : p.line + Text.newlines ((x ++ w).takeWhile isBlank) ≤ p.line + x.newlines := by
    have hfront := newlines_front_le (x := x) (.inl hspaces)
    omega
  rw [← List.append_assoc] at hend ⊢
  obtain rfl | ⟨rest, rfl⟩ := hy.cases
  · rw [List.append_nil] at hend ⊢
    rw [chunksFrom_open_end hend hn hfirst, later_cons_of_le hearly, List.tail_nil,
      later_chunksFrom_nil, later_nil]
  · rw [chunksFrom_open_line hend hn hfirst, later_cons_of_le hearly, after_spaces hw, List.tail_cons]

/-- A bracket that is never closed is cut off with its first line, which the spaces are not in. -/
theorem chunksFrom_open_spaces (hw : ∀ c ∈ w, c = ' ') {depth n : Nat} {first rest : Text}
    (hx : scanChunk 0 (first ++ '\n' :: rest) = (first ++ '\n' :: rest, .textEnd depth))
    (hfirst : '\n' ∉ first) (hscan : (scanChunk depth y).2 = .textEnd n) (hn : n ≠ 0)
    (p : Position) :
    chunksFrom p (first ++ '\n' :: rest ++ (w ++ y)) =
      ⟨p, first, false⟩ :: chunksFrom ((p.afterText first).after '\n') (rest ++ (w ++ y)) := by
  have hopen : (scanChunk 0 (first ++ '\n' :: rest ++ (w ++ y))).2 = .textEnd n := by
    rw [scanChunk_spaces hw hx, hscan]
  rw [List.append_assoc, List.cons_append] at hopen ⊢
  exact chunksFrom_open_line hopen hn hfirst p

/-- Spaces in front of a line end do not matter to the statements below. -/
theorem later_spaces (hw : ∀ c ∈ w, c = ' ') (hy : AtLineEnd y) (p : Position) (x : Text) :
    later (p.line + x.newlines) (chunksFrom p (x ++ (w ++ y))) =
      later (p.line + x.newlines) (chunksFrom p (x ++ y)) := by
  have hnone : ∀ c ∈ ([] : Text), c = ' ' := List.forall_mem_nil _
  cases hscan : scanChunk 0 x with
  | mk text stop =>
    cases stop with
    | separator mark rest =>
      have hx : text ++ mark :: rest = x := by
        have hsplit := scanChunk_separator (congrArg Prod.snd hscan)
        rwa [hscan] at hsplit
      have hlong : ∀ u, scanChunk 0 (x ++ u) = (text, .separator mark (rest ++ u)) := by
        intro u
        rw [scanChunk_append, hscan]
        rfl
      rw [chunksFrom_separator (hlong _), chunksFrom_separator (hlong _)]
      refine later_cons_congr ?_ _
      rw [← hx, Position.line_of_cut]
      exact later_spaces hw hy _ rest
    | textEnd depth =>
      have htext : text = x := by
        have hfst := scanChunk_fst_of_textEnd (congrArg Prod.snd hscan)
        rwa [hscan] at hfst
      rw [htext] at hscan
      by_cases hdepth : depth = 0
      · subst hdepth
        exact (later_of_closed hw hy hscan p).trans (later_of_closed hnone hy hscan p).symm
      cases hy' : scanChunk depth y with
      | mk kept stop =>
        cases stop with
        | separator mark rest =>
          exact (later_of_bracket hw hy hscan hdepth hy' p).trans
            (later_of_bracket hnone hy hscan hdepth hy' p).symm
        | textEnd n =>
          have hend : (scanChunk depth y).2 = .textEnd n := congrArg Prod.snd hy'
          by_cases hn : n = 0
          · subst hn
            exact (later_of_bracket_end hw hscan hdepth hend p).trans
              (later_of_bracket_end hnone hscan hdepth hend p).symm
          by_cases hmem : '\n' ∈ x
          · -- The first line is cut off, and the bracket is gone with it.
            obtain ⟨first, rest, hx, hfirst⟩ := List.eq_append_cons_of_mem hmem
            rw [hx] at hscan
            have hshort := chunksFrom_open_spaces hnone hscan hfirst hend hn p
            rw [List.nil_append] at hshort
            rw [hx, chunksFrom_open_spaces hw hscan hfirst hend hn, hshort]
            refine later_cons_congr ?_ _
            rw [Position.line_of_cut]
            exact later_spaces hw hy _ rest
          · exact (later_of_unclosed hw hy hscan hmem hend hn p).trans
              (later_of_unclosed hnone hy hscan hmem hend hn p).symm
termination_by x.length
decreasing_by
  · rw [← hx, List.length_append, List.length_cons]
    omega
  · rw [hx, List.length_append, List.length_cons]
    omega

end Blanks

end TurtleTrace
