import Mathlib.Data.List.Forall2
import Mathlib.Data.List.TakeWhile
import TurtleTrace.Proofs.Script.Lines

/-!
# Nothing of a source is lost

Taking a source apart loses none of its ink, the characters that are not blank: each one stands in a
statement or in a comment, or is a semicolon between statements. What stands in a statement stands at
the place that the statement gives.

* `ink`: the characters of a text that are not blank.
* `Text.slice`: the part of a text between two places, by the lengths of its lines.
* `Laid`: statements that lie in a text one after the other, with gaps around them.
* `Unseparated`: texts without separators outside brackets.
-/

namespace TurtleTrace

set_option autoImplicit false

/-! ## Places -/

namespace Position

/-- Whether a place is in front of another one. -/
def Before (p q : Position) : Prop := p.line < q.line ∨ p.line = q.line ∧ p.column < q.column

/-- Whether a place is not behind another one. -/
def UpTo (p q : Position) : Prop := p.line < q.line ∨ p.line = q.line ∧ p.column ≤ q.column

variable {p q r : Position}

theorem UpTo.refl (p : Position) : p.UpTo p := .inr ⟨rfl, Int.le_refl _⟩

theorem UpTo.trans (h : p.UpTo q) (k : q.UpTo r) : p.UpTo r := by
  unfold UpTo at *
  omega

theorem Before.upTo (h : p.Before q) : p.UpTo q := by
  unfold Before at h
  unfold UpTo
  omega

theorem Before.trans_upTo (h : p.Before q) (k : q.UpTo r) : p.Before r := by
  unfold Before at *
  unfold UpTo at k
  omega

theorem before_after (p : Position) (c : Char) : p.Before (p.after c) := by
  unfold Before after
  split
  · exact .inl (Int.lt_succ p.line)
  · exact .inr ⟨rfl, Int.lt_succ p.column⟩

theorem upTo_afterText (p : Position) (t : Text) : p.UpTo (p.afterText t) := by
  induction t generalizing p with
  | nil => exact .refl p
  | cons c t ih => exact (p.before_after c).upTo.trans (ih (p.after c))

theorem before_afterText (p : Position) {t : Text} (h : t ≠ []) : p.Before (p.afterText t) := by
  cases t with
  | nil => exact absurd rfl h
  | cons c t => exact (p.before_after c).trans_upTo ((p.after c).upTo_afterText t)

end Position

/-! ## Slices -/

namespace Text

/-- How many characters stand in front of a place in a text whose first line has the given number. -/
def offset (firstLine : Int) (t : Text) (p : Position) : Nat :=
  ((t.lines.take (p.line - firstLine).toNat).flatMap (· ++ ['\n'])).length + (p.column - 1).toNat

/-- The part of a text from one place up to another one. -/
def slice (firstLine : Int) (t : Text) (start stop : Position) : Text :=
  (t.take (t.offset firstLine stop)).drop (t.offset firstLine start)

theorem lines_append_newline {u : Text} (h : '\n' ∉ u) (t : Text) :
    lines (u ++ '\n' :: t) = u :: lines t := by
  induction u with
  | nil => simp [lines, splitAt]
  | cons c u ih =>
    have hc : c ≠ '\n' := fun hc => h (hc ▸ List.mem_cons_self)
    have hrest := ih fun hu => h (List.mem_cons_of_mem _ hu)
    unfold lines at hrest ⊢
    simp [splitAt, hc, hrest]

/-- Reading on from the end of `u` on the first line, a text of some length leads as far. -/
theorem offset_afterText_of_line {u : Text} (h : '\n' ∉ u) (firstLine : Int) (a b : Text) :
    offset firstLine (u ++ (a ++ b)) (Position.afterText ⟨firstLine, u.length + 1⟩ a) =
      u.length + a.length := by
  -- By the text that is read; a line end starts over on the next line, with nothing before it.
  induction a generalizing u firstLine with
  | nil => simp [offset, Position.afterText]
  | cons c a ih =>
    by_cases hc : c = '\n'
    · subst hc
      have hnext := ih (List.not_mem_nil) (firstLine + 1)
      have hplace : Position.afterText ⟨firstLine, u.length + 1⟩ ('\n' :: a) =
          Position.afterText ⟨firstLine + 1, ([] : Text).length + 1⟩ a := rfl
      have hline := Position.line_afterText ⟨firstLine + 1, ([] : Text).length + 1⟩ a
      rw [hplace]
      generalize Position.afterText ⟨firstLine + 1, ([] : Text).length + 1⟩ a = q at hnext hline ⊢
      have hcount : (q.line - firstLine).toNat = (q.line - (firstLine + 1)).toNat + 1 := by
        dsimp only at hline
        omega
      simp only [offset, List.nil_append, List.length_nil, Nat.zero_add] at hnext ⊢
      rw [hcount, List.cons_append, lines_append_newline h, List.take_succ_cons, List.flatMap_cons,
        List.length_append, List.length_append, List.length_singleton, List.length_cons]
      omega
    · have hmore : '\n' ∉ u ++ [c] := by
        simp only [List.mem_append, List.mem_singleton, not_or]
        exact ⟨h, fun hn => hc hn.symm⟩
      have hnext := ih hmore firstLine
      have hplace : Position.afterText ⟨firstLine, u.length + 1⟩ (c :: a) =
          Position.afterText ⟨firstLine, (u ++ [c]).length + 1⟩ a := by
        simp [Position.afterText, Position.after, hc]
      rw [List.append_assoc, List.singleton_append] at hnext
      rw [hplace, List.cons_append, hnext, List.length_append, List.length_cons, List.length_cons]
      simp only [List.length_nil]
      omega

theorem offset_afterText (firstLine : Int) (a b : Text) :
    offset firstLine (a ++ b) (Position.afterText ⟨firstLine, 1⟩ a) = a.length := by
  have h := offset_afterText_of_line (List.not_mem_nil) firstLine a b
  simpa using h

theorem slice_append (firstLine : Int) (a b c : Text) :
    slice firstLine (a ++ (b ++ c)) (Position.afterText ⟨firstLine, 1⟩ a)
      (Position.afterText ⟨firstLine, 1⟩ (a ++ b)) = b := by
  have hstop := offset_afterText firstLine (a ++ b) c
  rw [List.append_assoc] at hstop
  rw [slice, hstop, offset_afterText, ← List.append_assoc, List.take_left, List.drop_left]

end Text

/-! ## Ink -/

/-- The characters of a text that are not blank. -/
def ink (t : Text) : Text := t.filter (!isBlank ·)

theorem ink_append (s t : Text) : ink (s ++ t) = ink s ++ ink t := List.filter_append s t

theorem ink_of_blank {t : Text} (h : ∀ c ∈ t, isBlank c) : ink t = [] := by
  rw [ink, List.filter_eq_nil_iff]
  intro c hc
  simp [h c hc]

/-- Trimming takes blanks away at both ends. -/
theorem Text.exists_trim (t : Text) :
    ∃ tail : Text, (∀ c ∈ tail, isBlank c) ∧ t = t.takeWhile isBlank ++ (t.trim ++ tail) := by
  refine ⟨((t.dropWhile isBlank).reverse.takeWhile isBlank).reverse, fun c hc => ?_, ?_⟩
  · exact List.mem_takeWhile_imp (List.mem_reverse.mp hc)
  · rw [trim, trimRight, trimLeft, ← List.reverse_append, List.takeWhile_append_dropWhile,
      List.reverse_reverse, List.takeWhile_append_dropWhile]

theorem takeWhile_isBlank (t : Text) : ∀ c ∈ t.takeWhile isBlank, isBlank c :=
  fun _ hc => List.mem_takeWhile_imp hc

theorem Text.trim_append_left {w : Text} (hw : ∀ c ∈ w, isBlank c) (t : Text) :
    trim (w ++ t) = trim t := by
  rw [trim, trimLeft, List.dropWhile_append_of_pos hw]
  rfl

theorem Text.trimRight_append {w : Text} (hw : ∀ c ∈ w, isBlank c) (t : Text) :
    trimRight (t ++ w) = trimRight t := by
  have hreverse : ∀ c ∈ w.reverse, isBlank c := fun c hc => hw c (List.mem_reverse.mp hc)
  rw [trimRight, List.reverse_append, List.dropWhile_append_of_pos hreverse, trimRight]

theorem Text.trim_append_right {w : Text} (hw : ∀ c ∈ w, isBlank c) (t : Text) :
    trim (t ++ w) = trim t := by
  rw [trim, trimLeft, List.dropWhile_append]
  split
  · rename_i hnil
    rw [List.dropWhile_eq_nil_iff.mpr hw, trim, trimLeft, List.isEmpty_iff.mp hnil]
  · rw [trimRight_append hw, trim, trimLeft]

theorem Text.trim_eq_nil_iff {t : Text} : t.trim = [] ↔ ∀ c ∈ t, isBlank c := by
  constructor
  · intro h c hc
    obtain ⟨tail, htail, ht⟩ := t.exists_trim
    rw [ht, h, List.nil_append] at hc
    obtain hc | hc := List.mem_append.mp hc
    · exact takeWhile_isBlank t c hc
    · exact htail c hc
  · intro h
    have htrim := trim_append_left h []
    rwa [List.append_nil] at htrim

theorem ink_trim (t : Text) : ink t.trim = ink t := by
  obtain ⟨tail, htail, ht⟩ := t.exists_trim
  conv => rhs; rw [ht]
  rw [ink_append, ink_append, ink_of_blank (takeWhile_isBlank t), ink_of_blank htail,
    List.nil_append, List.append_nil]

theorem isBlank_blankChar (c : Char) : isBlank (blankChar c) := by
  unfold blankChar
  split <;> decide

/-- The ink of pieces is that of their code and that of their comments. -/
theorem ink_sources {shown : Text → Text} (hshown : ∀ t, ink (shown t) = ink t) (line : Int)
    (ps : List Piece) :
    (ink (sources ps)).Perm
      (ink (blankComments ps) ++ ink ((commentsFrom shown line ps).flatMap (·.text))) := by
  rw [List.perm_iff_count]
  intro c
  induction ps generalizing line with
  | nil => rfl
  | cons p ps ih =>
    cases p with
    | code d =>
      have hrest := ih (line + Text.newlines [d])
      simp only [sources, blankComments, List.flatMap_cons, Piece.source, Piece.blanked, ink_append,
        List.count_append, commentsFrom] at hrest ⊢
      omega
    | comment body =>
      have hrest := ih (line + body.newlines)
      have hblank : ink (body.map blankChar) = [] := by
        apply ink_of_blank
        intro d hd
        obtain ⟨e, -, rfl⟩ := List.mem_map.mp hd
        exact isBlank_blankChar e
      simp only [sources, blankComments, List.flatMap_cons, Piece.source, Piece.blanked, ink_append,
        List.count_append, commentsFrom, hblank, hshown, List.count_nil] at hrest ⊢
      omega

/-- What stays of a character: the character itself or a blank for it. -/
def Stays (c d : Char) : Prop := d = c ∨ d = blankChar c

theorem stays_blankComments (ps : List Piece) :
    List.Forall₂ Stays (sources ps) (blankComments ps) := by
  have hpiece : ∀ p : Piece, List.Forall₂ Stays p.source p.blanked := by
    intro p
    cases p with
    | code c => exact .cons (.inl rfl) .nil
    | comment body =>
      refine List.forall₂_map_right_iff.mpr (List.forall₂_same.mpr fun c _ => ?_)
      exact .inr rfl
  induction ps with
  | nil => exact .nil
  | cons p ps ih => exact List.rel_append (hpiece p) ih

theorem Stays.trans {c d e : Char} (h : Stays c d) (k : Stays d e) : Stays c e := by
  have hagain : blankChar (blankChar c) = blankChar c := by
    unfold blankChar
    split <;> rfl
  obtain rfl | rfl := h
  · exact k
  · obtain rfl | rfl := k
    · exact .inr rfl
    · exact .inr hagain

/-- Blanking a second time leaves no more than characters and blanks for them. -/
theorem forall₂_stays_trans {r s t : Text} (h : List.Forall₂ Stays r s) (k : List.Forall₂ Stays s t) :
    List.Forall₂ Stays r t := by
  induction h generalizing t with
  | nil => exact k
  | cons hc _ ih =>
    obtain ⟨e, rest, he, hrest, rfl⟩ := List.forall₂_cons_left_iff.mp k
    exact .cons (hc.trans he) (ih hrest)

/-! ## Gaps -/

/-- The characters that may stand between statements. -/
def isGap (c : Char) : Bool := isBlank c || c == ';'

theorem isGap_of_isBlank {c : Char} (h : isBlank c) : isGap c := by simp [isGap, h]

/-- Statements lie in a text from a place on, one after the other with gaps around them. -/
inductive Laid : Position → Text → List Statement → Prop
  | gap {p : Position} {gap : Text} (hgap : ∀ c ∈ gap, isGap c) : Laid p gap []
  | statement {p : Position} {gap text rest : Text} {ss : List Statement}
      (hgap : ∀ c ∈ gap, isGap c) (htext : text ≠ [])
      (hrest : Laid ((p.afterText gap).afterText text) rest ss) :
      Laid p (gap ++ (text ++ rest))
        (⟨text, p.afterText gap, (p.afterText gap).afterText text⟩ :: ss)

namespace Laid

variable {p : Position} {t : Text} {ss : List Statement}

theorem skip {gap : Text} (hgap : ∀ c ∈ gap, isGap c) (h : Laid (p.afterText gap) t ss) :
    Laid p (gap ++ t) ss := by
  have hboth : ∀ {more : Text}, (∀ c ∈ more, isGap c) → ∀ c ∈ gap ++ more, isGap c := by
    intro more hmore c hc
    obtain hc | hc := List.mem_append.mp hc
    · exact hgap c hc
    · exact hmore c hc
  cases h with
  | gap hmore => exact .gap (hboth hmore)
  | @statement _ more _ _ _ hmore htext hrest =>
    rw [← Position.afterText_append p gap more] at hrest ⊢
    rw [← List.append_assoc]
    exact .statement (hboth hmore) htext hrest

/-- A chunk lies in front of what follows it. -/
theorem chunk {chunks : List Chunk} (chunk : Chunk)
    (h : Laid (chunk.start.afterText chunk.text) t (chunks.filterMap Statement.ofChunk?)) :
    Laid chunk.start (chunk.text ++ t) ((chunk :: chunks).filterMap Statement.ofChunk?) := by
  obtain ⟨start, text, whole⟩ := chunk
  obtain ⟨tail, htail, htext⟩ := text.exists_trim
  have hfront : ∀ c ∈ text.takeWhile isBlank, isGap c := fun c hc =>
    isGap_of_isBlank (takeWhile_isBlank text c hc)
  have hback : ∀ c ∈ tail, isGap c := fun c hc => isGap_of_isBlank (htail c hc)
  have hplace : start.afterText text =
      (((start.afterText (text.takeWhile isBlank)).afterText text.trim).afterText tail) := by
    rw [← Position.afterText_append, ← Position.afterText_append, ← htext]
  dsimp only at h ⊢
  rw [hplace] at h
  have hskipped := h.skip hback
  have hparts : text ++ t = text.takeWhile isBlank ++ (text.trim ++ (tail ++ t)) := by
    conv => lhs; rw [htext]
    simp only [List.append_assoc]
  rw [hparts]
  by_cases htrim : text.trim = []
  · have hnone : Statement.ofChunk? ⟨start, text, whole⟩ = none := by simp [Statement.ofChunk?, htrim]
    rw [List.filterMap_cons_none hnone]
    rw [htrim] at hskipped ⊢
    exact hskipped.skip hfront
  · have hsome : Statement.ofChunk? ⟨start, text, whole⟩ =
        some ⟨text.trim, start.afterText (text.takeWhile isBlank),
          (start.afterText (text.takeWhile isBlank)).afterText text.trim⟩ := by
      simp [Statement.ofChunk?, htrim]
    rw [List.filterMap_cons_some hsome]
    exact .statement hfront htrim hskipped

theorem lastChunk (chunk : Chunk) :
    Laid chunk.start chunk.text ([chunk].filterMap Statement.ofChunk?) := by
  have hend : Laid (chunk.start.afterText chunk.text) []
      (([] : List Chunk).filterMap Statement.ofChunk?) :=
    .gap (List.forall_mem_nil _)
  have hlaid := hend.chunk chunk
  rwa [List.append_nil] at hlaid

theorem pairwise_and_upTo (h : Laid p t ss) :
    (∀ s ∈ ss, p.UpTo s.start) ∧ ss.Pairwise fun s s' => s.stop.UpTo s'.start := by
  induction h with
  | gap => exact ⟨nofun, .nil⟩
  | @statement p gap text rest ss hgap htext hrest ih =>
    have hgapped := p.upTo_afterText gap
    have htexted := (p.afterText gap).upTo_afterText text
    refine ⟨fun s hs => ?_, List.pairwise_cons.mpr ⟨ih.1, ih.2⟩⟩
    obtain rfl | hs := List.mem_cons.mp hs
    · exact hgapped
    · exact (hgapped.trans htexted).trans (ih.1 s hs)

/-- Each statement is part of the text, at its place. -/
theorem exists_around (h : Laid p t ss) {s : Statement} (hs : s ∈ ss) :
    ∃ a b, t = a ++ (s.text ++ b) ∧ s.text ≠ [] ∧ s.start = p.afterText a ∧
      s.stop = p.afterText (a ++ s.text) := by
  induction h with
  | gap => cases hs
  | @statement p gap text rest ss hgap htext hrest ih =>
    obtain rfl | hs := List.mem_cons.mp hs
    · exact ⟨gap, rest, rfl, htext, rfl, (Position.afterText_append p gap text).symm⟩
    · obtain ⟨a, b, rfl, hne, hstart, hstop⟩ := ih hs
      refine ⟨gap ++ (text ++ a), b, ?_, hne, ?_, ?_⟩
      · simp only [List.append_assoc]
      · simp only [hstart, Position.afterText_append]
      · simp only [hstop, Position.afterText_append]

theorem ink_gap {gap : Text} (h : ∀ c ∈ gap, isGap c) : ∃ k, ink gap = List.replicate k ';' := by
  refine ⟨(ink gap).length, List.eq_replicate_iff.mpr ⟨rfl, fun c hc => ?_⟩⟩
  obtain ⟨hmem, hink⟩ := List.mem_filter.mp hc
  have hc := h c hmem
  simp_all [isGap]

/-- The ink of the text is that of its statements, and semicolons. -/
theorem ink_perm (h : Laid p t ss) :
    ∃ k, (ink t).Perm (ink (ss.flatMap (·.text)) ++ List.replicate k ';') := by
  induction h with
  | gap hgap =>
    obtain ⟨k, hk⟩ := ink_gap hgap
    exact ⟨k, by rw [hk]; exact .refl _⟩
  | statement hgap _ _ ih =>
    obtain ⟨k, hk⟩ := ink_gap hgap
    obtain ⟨n, hn⟩ := ih
    refine ⟨k + n, List.perm_iff_count.mpr fun c => ?_⟩
    have hc := hn.count_eq c
    simp only [ink_append, hk, List.flatMap_cons, List.count_append, List.replicate_add] at hc ⊢
    omega

end Laid

theorem mark_of_scanChunk {depth : Nat} {t rest : Text} {mark : Char}
    (h : (scanChunk depth t).2 = .separator mark rest) : mark = ';' ∨ mark = '\n' := by
  induction t generalizing depth with
  | nil => cases h
  | cons c t ih =>
    unfold scanChunk at h
    split at h
    · exact ih h
    · split at h
      · exact ih h
      · split at h
        · rename_i hc
          cases h
          exact hc.2
        · exact ih h

theorem isGap_of_mark {mark : Char} (h : mark = ';' ∨ mark = '\n') : ∀ c ∈ [mark], isGap c := by
  intro c hc
  obtain rfl := List.mem_singleton.mp hc
  obtain rfl | rfl := h <;> decide

/-- The statements of chunks lie in the text of the chunks. -/
theorem laid_chunksFrom (p : Position) (t : Text) :
    Laid p t ((chunksFrom p t).filterMap Statement.ofChunk?) := by
  fun_induction chunksFrom p t with
  | case1 p t mark rest hscan _ ih =>
    have hmark := isGap_of_mark (mark_of_scanChunk hscan)
    have hlaid := Laid.chunk ⟨p, (scanChunk 0 t).1, true⟩ (ih.skip hmark)
    rw [List.singleton_append, scanChunk_separator hscan] at hlaid
    exact hlaid
  | case2 p t hscan => exact .lastChunk ⟨p, t, true⟩
  | case3 p t depth hscan hdepth first mark rest hcut _ ih =>
    obtain ⟨_, heq⟩ := Text.head_of_cutBefore hcut
    cases heq
    have hlaid := Laid.chunk ⟨p, first, false⟩ (ih.skip (isGap_of_mark (.inr rfl)))
    rw [List.singleton_append, Text.cutBefore_append hcut] at hlaid
    exact hlaid
  | case4 p t depth hscan hdepth hcut => exact .lastChunk ⟨p, t, false⟩

/-! ## Separators -/

/-- The depth of open brackets after one more character; a closing bracket too many is passed over. -/
def depthAfter (depth : Nat) (c : Char) : Nat :=
  if c = '[' then depth + 1 else if c = ']' then depth - 1 else depth

theorem depthAfter_blanks {t : Text} (h : ∀ c ∈ t, isBlank c) (depth : Nat) :
    t.foldl depthAfter depth = depth := by
  induction t with
  | nil => rfl
  | cons c t ih =>
    have hblank := h c List.mem_cons_self
    have hopen : c ≠ '[' := by
      rintro rfl
      cases hblank
    have hclose : c ≠ ']' := by
      rintro rfl
      cases hblank
    rw [List.foldl_cons, depthAfter, if_neg hopen, if_neg hclose]
    exact ih fun d hd => h d (List.mem_cons_of_mem c hd)

/-- Without an opening bracket the depth stays at zero. -/
theorem foldl_depthAfter_of_not_mem {t : Text} (h : '[' ∉ t) : t.foldl depthAfter 0 = 0 := by
  induction t with
  | nil => rfl
  | cons c t ih =>
    have hopen : c ≠ '[' := fun hc => h (hc ▸ List.mem_cons_self)
    have hrest := ih fun ht => h (List.mem_cons_of_mem c ht)
    rw [List.foldl_cons, depthAfter, if_neg hopen]
    split
    · exact hrest
    · exact hrest

/-- A character of two texts put together stands in one of them. -/
theorem cons_of_append_eq {t u a b : Text} {c : Char} (h : t ++ u = a ++ c :: b) :
    (∃ rest, t = a ++ c :: rest) ∨ ∃ front, a = t ++ front ∧ u = front ++ c :: b := by
  obtain ⟨front, ha, hu⟩ | ⟨rest, ht, hb⟩ := List.append_eq_append_iff.mp h
  · exact .inr ⟨front, ha, hu⟩
  · cases rest with
    | nil => exact .inr ⟨[], by rw [ht, List.append_nil, List.append_nil], hb.symm⟩
    | cons d rest =>
      cases hb
      exact .inl ⟨rest, ht⟩

/-- No semicolon and no line end stands outside brackets. -/
def Unseparated (depth : Nat) (t : Text) : Prop :=
  ∀ a c b, t = a ++ c :: b → a.foldl depthAfter depth = 0 → c ≠ ';' ∧ c ≠ '\n'

namespace Unseparated

variable {depth : Nat} {t u : Text}

theorem nil (depth : Nat) : Unseparated depth [] := by
  intro a c b h
  cases a <;> cases h

theorem cons {c : Char} (hc : depth = 0 → c ≠ ';' ∧ c ≠ '\n')
    (h : Unseparated (depthAfter depth c) t) : Unseparated depth (c :: t) := by
  intro a d b hd hdepth
  cases a with
  | nil =>
    cases hd
    exact hc hdepth
  | cons e a =>
    cases hd
    exact h a d b rfl hdepth

theorem of_append (h : Unseparated depth (t ++ u)) : Unseparated depth t := by
  rintro a c b rfl hdepth
  exact h a c (b ++ u) (by simp) hdepth

theorem of_blanks (ht : ∀ c ∈ t, isBlank c) (h : Unseparated depth (t ++ u)) :
    Unseparated depth u := by
  rintro a c b rfl ha
  refine h (t ++ a) c b (by simp) ?_
  rw [List.foldl_append, depthAfter_blanks ht, ha]

theorem trim (h : Unseparated depth t) : Unseparated depth t.trim := by
  obtain ⟨tail, -, ht⟩ := t.exists_trim
  rw [ht] at h
  exact (h.of_blanks (takeWhile_isBlank t)).of_append

end Unseparated

theorem unseparated_scanChunk (depth : Nat) (t : Text) : Unseparated depth (scanChunk depth t).1 := by
  induction t generalizing depth with
  | nil => exact .nil depth
  | cons c t ih =>
    unfold scanChunk
    split
    · rename_i hc
      refine .cons (fun _ => ?_) ?_
      · subst hc
        decide
      · rw [depthAfter, if_pos hc]
        exact ih _
    · rename_i hopen
      split
      · rename_i hc
        refine .cons (fun _ => ?_) ?_
        · subst hc
          decide
        · rw [depthAfter, if_neg hopen, if_pos hc]
          exact ih _
      · rename_i hclose
        split
        · exact .nil depth
        · rename_i hc
          refine .cons (fun hdepth => ?_) ?_
          · exact ⟨fun hs => hc ⟨hdepth, .inl hs⟩, fun hn => hc ⟨hdepth, .inr hn⟩⟩
          · rw [depthAfter, if_neg hopen, if_neg hclose]
            exact ih _

/-- A character that does not separate is kept. -/
theorem scanChunk_cons {depth : Nat} {c : Char} (h : depth = 0 → c ≠ ';' ∧ c ≠ '\n') (t : Text) :
    scanChunk depth (c :: t) = keep c (scanChunk (depthAfter depth c) t) := by
  rw [scanChunk, depthAfter]
  split
  · rfl
  · split
    · rfl
    · rw [if_neg]
      rintro ⟨hdepth, rfl | rfl⟩
      · exact (h hdepth).1 rfl
      · exact (h hdepth).2 rfl

/-- A text without separators outside brackets is passed over as a whole. -/
theorem scanChunk_of_unseparated {depth : Nat} {t : Text} (h : Unseparated depth t) :
    scanChunk depth t = (t, .textEnd (t.foldl depthAfter depth)) := by
  induction t generalizing depth with
  | nil => rfl
  | cons c t ih =>
    have hc : depth = 0 → c ≠ ';' ∧ c ≠ '\n' := h [] c t rfl
    have hrest : Unseparated (depthAfter depth c) t := by
      rintro a d b rfl hdepth
      exact h (c :: a) d b rfl hdepth
    rw [scanChunk_cons hc, ih hrest, List.foldl_cons, keep]

theorem unseparated_of_mem {p : Position} {t : Text} {chunk : Chunk} (h : chunk ∈ chunksFrom p t) :
    Unseparated 0 chunk.text := by
  fun_induction chunksFrom p t with
  | case1 p t mark rest hscan _ ih =>
    obtain rfl | h := List.mem_cons.mp h
    · exact unseparated_scanChunk 0 t
    · exact ih h
  | case2 p t hscan =>
    obtain rfl := List.mem_singleton.mp h
    have hwhole := unseparated_scanChunk 0 t
    rwa [scanChunk_fst_of_textEnd hscan] at hwhole
  | case3 p t depth hscan hdepth first mark rest hcut _ ih =>
    obtain rfl | h := List.mem_cons.mp h
    · have hwhole := unseparated_scanChunk 0 t
      rw [scanChunk_fst_of_textEnd hscan, ← Text.cutBefore_append hcut] at hwhole
      exact hwhole.of_append
    · exact ih h
  | case4 p t depth hscan hdepth hcut =>
    obtain rfl := List.mem_singleton.mp h
    have hwhole := unseparated_scanChunk 0 t
    rwa [scanChunk_fst_of_textEnd hscan] at hwhole

/-! ## Sources -/

theorem stays_clean (firstLine : Int) (source : Text) :
    List.Forall₂ Stays (normalizeLineEnds source) (clean firstLine source).text := by
  have hblocks := stays_blankComments (blockPieces [] (normalizeLineEnds source))
  rw [sources_blockPieces] at hblocks
  have hlines := stays_blankComments
    (linePieces (blankComments (blockPieces [] (normalizeLineEnds source))))
  rw [sources_linePieces] at hlines
  exact forall₂_stays_trans hblocks hlines

theorem ink_lex (firstLine : Int) (source : Text) :
    ∃ k, (ink (normalizeLineEnds source)).Perm
      (ink ((lex firstLine source).statements.flatMap (·.text)) ++
        ink ((lex firstLine source).comments.flatMap (·.text)) ++ List.replicate k ';') := by
  let blocks := blockPieces [] (normalizeLineEnds source)
  let lines := linePieces (blankComments blocks)
  have hblocks := @ink_sources id (fun _ => rfl) firstLine blocks
  have hlines := ink_sources ink_trim firstLine lines
  obtain ⟨k, hstatements⟩ := (laid_chunksFrom ⟨firstLine, 1⟩ (blankComments lines)).ink_perm
  have hcomments : (ink ((lex firstLine source).comments.flatMap (·.text))).Perm
      (ink ((commentsFrom id firstLine blocks ++ commentsFrom Text.trim firstLine lines).flatMap
        (·.text))) :=
    ((sortOn_perm Comment.line _).flatMap_right _).filter _
  refine ⟨k, List.perm_iff_count.mpr fun c => ?_⟩
  have hb := hblocks.count_eq c
  have hl := hlines.count_eq c
  have hs := hstatements.count_eq c
  have hc := hcomments.count_eq c
  have hsource : sources blocks = normalizeLineEnds source := sources_blockPieces _ _
  have hblanked : sources lines = blankComments blocks := sources_linePieces _
  have hlexed : (lex firstLine source).statements =
      (chunksFrom ⟨firstLine, 1⟩ (blankComments lines)).filterMap Statement.ofChunk? := rfl
  rw [hsource] at hb
  rw [hblanked] at hl
  rw [hlexed]
  simp only [List.flatMap_append, ink_append, List.count_append] at *
  omega

/-- A source taken apart: its ink is that of the statements and comments, and semicolons, and each
statement stands alone at its place in the text without comments, which differs from the source in
blanks only. -/
theorem lex_accounts_for_source (firstLine : Int) (source : Text) :
    let lexed := lex firstLine source
    let blanked := (clean firstLine source).text
    (∃ k, (ink (normalizeLineEnds source)).Perm
        (ink (lexed.statements.flatMap (·.text)) ++ ink (lexed.comments.flatMap (·.text)) ++
          List.replicate k ';')) ∧
      List.Forall₂ (fun c d => d = c ∨ d = blankChar c) (normalizeLineEnds source) blanked ∧
      lexed.statements.Pairwise (fun s s' => s.stop.UpTo s'.start) ∧
      ∀ s ∈ lexed.statements,
        s.start.Before s.stop ∧
          blanked.slice firstLine s.start s.stop = s.text ∧
          ∀ a c b, s.text = a ++ c :: b → a.foldl depthAfter 0 = 0 → c ≠ ';' ∧ c ≠ '\n' := by
  have hlaid := laid_chunksFrom ⟨firstLine, 1⟩ (clean firstLine source).text
  refine ⟨ink_lex firstLine source, stays_clean firstLine source, hlaid.pairwise_and_upTo.2, ?_⟩
  intro s hs
  obtain ⟨a, b, htext, hne, hstart, hstop⟩ := hlaid.exists_around hs
  refine ⟨?_, ?_, ?_⟩
  · rw [hstart, hstop, Position.afterText_append]
    exact Position.before_afterText _ hne
  · rw [htext, hstart, hstop, Text.slice_append]
  · obtain ⟨chunk, hchunk, hs⟩ := List.mem_filterMap.mp hs
    have hwhole := (unseparated_of_mem hchunk).trim
    simp only [Statement.ofChunk?] at hs
    split at hs
    · cases hs
    · cases hs
      exact hwhole

end TurtleTrace
