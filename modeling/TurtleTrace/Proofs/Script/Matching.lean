import TurtleTrace.Proofs.Script.Nesting

/-!
# Matching brackets

Brackets are counted in two ways. The scan for the end of a chunk starts at depth zero and passes over a
closing bracket too many; the search for the bracket that closes another one starts at that one and
counts every bracket. From an opening bracket on, the second count is the first one less the depth before
the bracket, up to where it comes back to zero. So where the scan ends with no bracket open, every
bracket is closed, and the text between two brackets that belong together ends with none open as well.

* `Chunk.Ended`, `Chunk.Recovered`: the two ways in which a chunk comes to its end.
* `Enclosed`: the texts that stand between brackets, at every depth.
-/

namespace TurtleTrace

set_option autoImplicit false

/-! ## Depth -/

/-- A matching text leaves the depth as it was. -/
theorem Balanced.foldl_depthAfter {t : Text} (h : Balanced t) (depth : Nat) :
    t.foldl depthAfter depth = depth := by
  induction h generalizing depth with
  | nil => rfl
  | cons opening closing _ ih =>
    rw [List.foldl_cons, depthAfter, if_neg opening, if_neg closing, ih]
  | group _ _ hinside hrest =>
    rw [List.foldl_cons, List.foldl_append, hinside, List.foldl_cons]
    exact hrest depth

theorem foldl_depthAfter_trim (t : Text) (depth : Nat) :
    t.trim.foldl depthAfter depth = t.foldl depthAfter depth := by
  obtain ⟨tail, htail, ht⟩ := t.exists_trim
  conv => rhs; rw [ht]
  rw [List.foldl_append, List.foldl_append, depthAfter_blanks (takeWhile_isBlank t),
    depthAfter_blanks htail]

theorem foldl_depthAfter_normalizeLineEnds (t : Text) (depth : Nat) :
    (normalizeLineEnds t).foldl depthAfter depth = t.foldl depthAfter depth := by
  fun_induction normalizeLineEnds t generalizing depth with
  | case1 => rfl
  | case2 rest ih => exact ih depth
  | case3 c rest _ ih => exact ih (depthAfter depth c)

/-- A text that brings the depth down to zero closes the innermost bracket that is open before it, and
what stands in front of that closing bracket matches. -/
theorem exists_closing {depth : Nat} {t : Text} (h : t.foldl depthAfter (depth + 1) = 0) :
    ∃ inside rest, t = inside ++ ']' :: rest ∧ Balanced inside ∧ rest.foldl depthAfter depth = 0 := by
  cases t with
  | nil => cases h
  | cons c t =>
    by_cases hopen : c = '['
    · -- The bracket that is opened here is closed first.
      subst hopen
      obtain ⟨first, more, rfl, hfirst, hmore⟩ := @exists_closing (depth + 1) t h
      obtain ⟨second, rest, rfl, hsecond, hrest⟩ := exists_closing hmore
      exact ⟨'[' :: (first ++ ']' :: second), rest, by simp, .group hfirst hsecond, hrest⟩
    · by_cases hclose : c = ']'
      · subst hclose
        exact ⟨[], t, rfl, .nil, h⟩
      · rw [List.foldl_cons, depthAfter, if_neg hopen, if_neg hclose] at h
        obtain ⟨inside, rest, rfl, hinside, hrest⟩ := exists_closing h
        exact ⟨c :: inside, rest, rfl, .cons hopen hclose hinside, hrest⟩
termination_by t.length
decreasing_by
  all_goals subst_vars
  all_goals simp only [List.length_cons, List.length_append]
  all_goals omega

/-! ## The two counts -/

/-- The search stops where the count of the scan, from the same depth, comes down to zero. -/
theorem foldl_of_closingFrom {depth index : Nat} {t : Text}
    (h : closingFrom (depth + 1 : Nat) t = some index) :
    (t.take (index + 1)).foldl depthAfter (depth + 1) = 0 := by
  induction t generalizing depth index with
  | nil => cases h
  | cons c t ih =>
    have hrest : ∀ {n : Nat}, (closingFrom (n + 1 : Nat) t).map (· + 1) = some index →
        (t.take index).foldl depthAfter (n + 1) = 0 := by
      intro n hmap
      obtain ⟨i, hi, rfl⟩ := Option.map_eq_some_iff.mp hmap
      exact ih hi
    rw [List.take_succ_cons, List.foldl_cons, depthAfter]
    unfold closingFrom at h
    split at h
    · rename_i hopen
      rw [if_pos hopen]
      exact hrest h
    · rename_i hopen
      rw [if_neg hopen]
      split at h
      · rename_i hclose
        rw [if_pos hclose]
        cases depth with
        | zero =>
          rw [if_pos (by rfl)] at h
          cases h
          rfl
        | succ depth =>
          rw [if_neg (by omega)] at h
          have hdepth : ((depth + 1 + 1 : Nat) : Int) - 1 = (depth + 1 : Nat) := by omega
          rw [hdepth] at h
          exact hrest h
      · rename_i hclose
        rw [if_neg hclose]
        exact hrest h

/-- From a bracket that is closed up to the bracket that closes it the text matches. -/
theorem exists_of_closingFrom {inside : Text} {index : Nat}
    (h : closingFrom 0 ('[' :: inside) = some index) :
    ∃ body rest, '[' :: inside = bracketed body ++ rest ∧ index = body.length + 1 ∧ Balanced body := by
  have hstep : (closingFrom (0 + 1 : Nat) inside).map (· + 1) = some index := by
    rw [closingFrom, if_pos rfl] at h
    exact h
  obtain ⟨i, hi, rfl⟩ := Option.map_eq_some_iff.mp hstep
  obtain ⟨body, rest, htake, hbody, -⟩ := exists_closing (foldl_of_closingFrom hi)
  have hparts : '[' :: inside = bracketed body ++ (rest ++ inside.drop (i + 1)) := by
    have hsplit := List.take_append_drop (i + 1) inside
    rw [htake] at hsplit
    conv => lhs; rw [← hsplit]
    simp [bracketed]
  refine ⟨body, _, hparts, ?_, hbody⟩
  rw [hparts, closingFrom_bracketed hbody] at h
  exact (Option.some.inj h).symm

/-- A bracket that is never closed leaves the depth above zero, whatever it was before. -/
theorem foldl_ne_zero_of_closingFrom {inside : Text} (h : closingFrom 0 ('[' :: inside) = none)
    (depth : Nat) : ('[' :: inside).foldl depthAfter depth ≠ 0 := by
  intro hzero
  obtain ⟨body, rest, rfl, hbody, -⟩ := @exists_closing depth inside hzero
  have hparts : '[' :: (body ++ ']' :: rest) = bracketed body ++ rest := by simp [bracketed]
  rw [hparts, closingFrom_bracketed hbody] at h
  cases h

/-! ## How chunks end -/

/-- The scan for the end of a chunk, in what was left of the text, ended with no bracket open. -/
inductive Chunk.Ended (chunk : Chunk) : Text → Prop where
  | separator {mark : Char} {rest : Text}
      (scan : scanChunk 0 (chunk.text ++ mark :: rest) = (chunk.text, .separator mark rest)) :
      Ended chunk (chunk.text ++ mark :: rest)
  | textEnd (scan : scanChunk 0 chunk.text = (chunk.text, .textEnd 0)) : Ended chunk chunk.text

/-- The scan for the end of a chunk came to the end of the text with brackets open. Then the chunk was
cut off at the end of its first line, or of the text if there is no line below. -/
inductive Chunk.Recovered (chunk : Chunk) : Text → Prop where
  | lineEnd {rest : Text} {depth : Nat} (oneLine : '\n' ∉ chunk.text)
      (scan : (scanChunk 0 (chunk.text ++ '\n' :: rest)).2 = .textEnd (depth + 1)) :
      Recovered chunk (chunk.text ++ '\n' :: rest)
  | textEnd {depth : Nat} (oneLine : '\n' ∉ chunk.text)
      (scan : (scanChunk 0 chunk.text).2 = .textEnd (depth + 1)) : Recovered chunk chunk.text

/-- A chunk is cut off what was left of the text in one of the two ways, and is called whole if it was
the first. -/
theorem exists_scan {p : Position} {t : Text} {chunk : Chunk} (h : chunk ∈ chunksFrom p t) :
    ∃ before left, t = before ++ left ∧
      (chunk.whole = true ∧ chunk.Ended left ∨ chunk.whole = false ∧ chunk.Recovered left) := by
  -- A chunk of the rest is a chunk of the text, with more in front of it.
  have hlater : ∀ {front rest : Text}, (∃ before left, rest = before ++ left ∧
      (chunk.whole = true ∧ chunk.Ended left ∨ chunk.whole = false ∧ chunk.Recovered left)) →
      ∃ before left, front ++ rest = before ++ left ∧
        (chunk.whole = true ∧ chunk.Ended left ∨ chunk.whole = false ∧ chunk.Recovered left) := by
    rintro front _ ⟨before, left, rfl, hend⟩
    exact ⟨front ++ before, left, by rw [List.append_assoc], hend⟩
  fun_induction chunksFrom p t with
  | case1 p t mark rest hscan _ ih =>
    have hsplit := scanChunk_separator hscan
    obtain rfl | h := List.mem_cons.mp h
    · refine ⟨[], _, hsplit.symm, .inl ⟨rfl, .separator ?_⟩⟩
      dsimp only
      rw [hsplit]
      exact Prod.ext rfl hscan
    · rw [← hsplit, ← List.singleton_append, ← List.append_assoc]
      exact hlater (ih h)
  | case2 p t hscan =>
    obtain rfl := List.mem_singleton.mp h
    exact ⟨[], t, rfl, .inl ⟨rfl, .textEnd (Prod.ext (scanChunk_fst_of_textEnd hscan) hscan)⟩⟩
  | case3 p t depth hscan hdepth first mark rest hcut _ ih =>
    obtain ⟨n, rfl⟩ := Nat.exists_eq_succ_of_ne_zero hdepth
    obtain ⟨_, heq⟩ := Text.head_of_cutBefore hcut
    cases heq
    have hsplit := Text.cutBefore_append hcut
    obtain rfl | h := List.mem_cons.mp h
    · rw [← hsplit] at hscan
      exact ⟨[], _, hsplit.symm, .inr ⟨rfl, .lineEnd (not_mem_of_cutBefore hcut) hscan⟩⟩
    · rw [← hsplit, ← List.singleton_append, ← List.append_assoc]
      exact hlater (ih h)
  | case4 p t depth hscan hdepth hcut =>
    obtain ⟨n, rfl⟩ := Nat.exists_eq_succ_of_ne_zero hdepth
    obtain rfl := List.mem_singleton.mp h
    refine ⟨[], t, rfl, .inr ⟨rfl, .textEnd (fun hline => ?_) hscan⟩⟩
    obtain ⟨first, rest, rfl, hfirst⟩ := List.eq_append_cons_of_mem hline
    exact hcut first '\n' rest (cutBefore_append_of_not_mem hfirst rest)

theorem depth_of_separator {depth : Nat} {t rest : Text} {mark : Char}
    (h : (scanChunk depth t).2 = .separator mark rest) :
    (scanChunk depth t).1.foldl depthAfter depth = 0 := by
  induction t generalizing depth with
  | nil => cases h
  | cons c t ih =>
    by_cases hmark : depth = 0 ∧ (c = ';' ∨ c = '\n')
    · obtain ⟨rfl, rfl | rfl⟩ := hmark
      · rfl
      · rfl
    · have hkeep : depth = 0 → c ≠ ';' ∧ c ≠ '\n' := fun hdepth =>
        not_or.mp fun hc => hmark ⟨hdepth, hc⟩
      rw [scanChunk_cons hkeep] at h ⊢
      exact ih h

theorem depth_of_textEnd {depth n : Nat} {t : Text} (h : (scanChunk depth t).2 = .textEnd n) :
    t.foldl depthAfter depth = n := by
  have hunseparated := unseparated_scanChunk depth t
  rw [scanChunk_fst_of_textEnd h] at hunseparated
  rw [scanChunk_of_unseparated hunseparated] at h
  exact ChunkEnd.textEnd.inj h

theorem Chunk.Ended.depth_eq {chunk : Chunk} {left : Text} (h : chunk.Ended left) :
    chunk.text.foldl depthAfter 0 = 0 := by
  cases h with
  | separator scan =>
    have hdepth := depth_of_separator (congrArg Prod.snd scan)
    rwa [scan] at hdepth
  | textEnd scan => exact depth_of_textEnd (congrArg Prod.snd scan)

theorem Chunk.Recovered.depth_ne {chunk : Chunk} {left : Text} (h : chunk.Recovered left) :
    chunk.text.foldl depthAfter 0 ≠ 0 := by
  intro hzero
  cases h with
  | @lineEnd rest depth _ scan =>
    -- A line end outside brackets would have ended the scan.
    have hunseparated := unseparated_scanChunk 0 (chunk.text ++ '\n' :: rest)
    rw [scanChunk_fst_of_textEnd scan] at hunseparated
    exact (hunseparated _ '\n' rest rfl hzero).2 rfl
  | textEnd _ scan =>
    rw [depth_of_textEnd scan] at hzero
    cases hzero

/-- The chunks that are whole are those that end with no bracket open. -/
theorem whole_iff {p : Position} {t : Text} {chunk : Chunk} (h : chunk ∈ chunksFrom p t) :
    chunk.whole = true ↔ chunk.text.foldl depthAfter 0 = 0 := by
  obtain ⟨-, left, -, ⟨hwhole, hended⟩ | ⟨hwhole, hrecovered⟩⟩ := exists_scan h
  · exact iff_of_true hwhole hended.depth_eq
  · exact iff_of_false (by rw [hwhole]; exact Bool.false_ne_true) hrecovered.depth_ne

/-- Where the brackets of a text are all closed at its end, each of its chunks is whole. -/
theorem whole_of_closed {t : Text} (h : t.foldl depthAfter 0 = 0) (p : Position) :
    ∀ chunk ∈ chunksFrom p t, chunk.whole = true := by
  fun_induction chunksFrom p t with
  | case1 p t mark rest hscan _ ih =>
    have hrest : rest.foldl depthAfter 0 = 0 := by
      have hmark : depthAfter 0 mark = 0 := by
        obtain rfl | rfl := mark_of_scanChunk hscan
        · rfl
        · rfl
      rwa [← scanChunk_separator hscan, List.foldl_append, depth_of_separator hscan,
        List.foldl_cons, hmark] at h
    exact List.forall_mem_cons.mpr ⟨rfl, ih hrest⟩
  | case2 p t hscan => exact List.forall_mem_singleton.mpr rfl
  | case3 p t depth hscan hdepth | case4 p t depth hscan hdepth =>
    exact absurd ((depth_of_textEnd hscan).symm.trans h) hdepth

/-! ## Between brackets -/

/-- The text between the character at one index and that at another. -/
def Text.between (t : Text) (i j : Nat) : Text := (t.take j).drop (i + 1)

/-- The texts that stand between brackets of a text: between an opening bracket and the one that closes
it, or between two such brackets of a statement of a text that stands between brackets itself. -/
inductive Enclosed : Text → Text → Prop where
  | here {t : Text} {i j : Nat} (opening : t[i]? = some '[') (closing : closingBracket? t i = some j) :
      Enclosed t (t.between i j)
  | inside {t u v : Text} {p : Position} {chunk : Chunk} {s : Statement} (outer : Enclosed t u)
      (cut : chunk ∈ chunksFrom p u) (statement : Statement.ofChunk? chunk = some s)
      (inner : Enclosed s.text v) : Enclosed t v

theorem drop_of_bracket {t : Text} {i : Nat} (hi : t[i]? = some '[') :
    t.drop i = '[' :: t.drop (i + 1) := by
  obtain ⟨hlength, hbracket⟩ := List.getElem?_eq_some_iff.mp hi
  rw [List.drop_eq_getElem_cons hlength, hbracket]

/-- In a text whose brackets are all closed at its end, the search finds the end of each of them. -/
theorem exists_closingBracket {t : Text} (h : t.foldl depthAfter 0 = 0) {i : Nat}
    (hi : t[i]? = some '[') : ∃ j, closingBracket? t i = some j := by
  rw [closingBracket?, drop_of_bracket hi]
  cases hclosing : closingFrom 0 ('[' :: t.drop (i + 1)) with
  | some index => exact ⟨_, rfl⟩
  | none =>
    refine absurd ?_ (foldl_ne_zero_of_closingFrom hclosing ((t.take i).foldl depthAfter 0))
    rw [← List.foldl_append, ← drop_of_bracket hi, List.take_append_drop, h]

theorem balanced_between {t : Text} {i j : Nat} (hi : t[i]? = some '[')
    (hj : closingBracket? t i = some j) : Balanced (t.between i j) := by
  rw [closingBracket?, drop_of_bracket hi] at hj
  obtain ⟨index, hclosing, rfl⟩ := Option.map_eq_some_iff.mp hj
  obtain ⟨body, rest, hparts, rfl, hbody⟩ := exists_of_closingFrom hclosing
  have hbehind : t.drop (i + 1) = body ++ ']' :: rest := by
    have htail := congrArg List.tail hparts
    simpa [bracketed] using htail
  have hlength : body.length + 1 + i - (i + 1) = body.length := by omega
  rw [Text.between, List.drop_take, hbehind, hlength, List.take_left]
  exact hbody

/-- What stands between brackets matches, at every depth. -/
theorem Enclosed.balanced {t u : Text} (h : Enclosed t u) : Balanced u := by
  induction h with
  | here opening closing => exact balanced_between opening closing
  | inside _ _ _ _ _ hinner => exact hinner

end TurtleTrace
