import Mathlib.Data.List.Chain
import TurtleTrace.Proofs.Script.Coverage
import TurtleTrace.Proofs.Script.RoundTrip

/-!
# Nothing is left to blank

The text that is left when the comments of a source are blanked has no marks of comments: the first
pass leaves an opening mark `/*` only behind the mark of a line comment, and the second pass blanks all
that follows such a mark on its line. So a part of it is read as it stands, as the body of a loop is.

* `Guarded`: texts in which a line comment is opened before each opening mark of a block comment.
-/

namespace TurtleTrace

set_option autoImplicit false

/-! ## Guarded marks -/

/-- Behind the part `before` of a line, last character first, a mark `/*` stands only where a line
comment has been opened on its line. -/
def Guarded : Text → Text → Prop
  | _, [] => True
  | before, c :: rest =>
    (c = '/' → rest.head? = some '*' → opensLineComment before = true) ∧
      Guarded (lineAfter before c) rest

namespace Guarded

variable {before t : Text}

theorem of_append {u : Text} (h : Guarded before (u ++ t)) : Guarded (u.foldl lineAfter before) t := by
  induction u generalizing before with
  | nil => exact h
  | cons c u ih => exact ih h.2

theorem append {u : Text} (hu : '/' ∉ u) (h : Guarded (u.foldl lineAfter before) t) :
    Guarded before (u ++ t) := by
  induction u generalizing before with
  | nil => exact h
  | cons c u ih =>
    refine ⟨fun hc => absurd (hc ▸ List.mem_cons_self) hu, ?_⟩
    exact ih (fun hmem => hu (List.mem_cons_of_mem c hmem)) h

/-- A line end starts over with an empty line. -/
theorem of_dropWhile (h : Guarded before (t.dropWhile inLine)) : Guarded [] (t.dropWhile inLine) := by
  cases hrest : t.dropWhile inLine with
  | nil => trivial
  | cons c rest =>
    have hc : c = '\n' := by
      have hhead := List.head?_dropWhile_not inLine t
      rw [hrest] at hhead
      simpa [inLine] using hhead
    subst hc
    rw [hrest] at h
    exact ⟨fun hc => absurd hc (by decide), h.2⟩

end Guarded

theorem not_mem_map_blankChar {c : Char} (hc : isBlank c = false) (t : Text) :
    c ∉ t.map blankChar := by
  intro hmem
  obtain ⟨d, -, rfl⟩ := List.mem_map.mp hmem
  rw [isBlank_blankChar d] at hc
  cases hc

/-- What stays in front of a text and is not blank stood there. -/
theorem head?_of_stays {s t : Text} (h : List.Forall₂ Stays s t) {c : Char} (hc : isBlank c = false)
    (hhead : t.head? = some c) : s.head? = some c := by
  cases h with
  | nil => cases hhead
  | @cons d e _ _ hstays =>
    cases hhead
    obtain rfl | rfl := hstays
    · rfl
    · rw [isBlank_blankChar d] at hc
      cases hc

theorem head?_blankComments {ps : List Piece} {c : Char} (hc : isBlank c = false)
    (h : (blankComments ps).head? = some c) : (sources ps).head? = some c :=
  head?_of_stays (stays_blankComments ps) hc h

/-- The first pass leaves guarded marks. -/
theorem guarded_blockPieces (before t : Text) :
    Guarded before (blankComments (blockPieces before t)) := by
  fun_induction blockPieces before t with
  | case1 => trivial
  | case2 before rest body after hclose _ ih =>
    exact Guarded.append (not_mem_map_blankChar rfl _) ih
  | case3 before rest hclose hopens ih =>
    refine ⟨fun _ _ => hopens, fun hc => absurd hc (by decide), ih⟩
  | case4 before rest hclose hopens =>
    rw [blankComments, List.flatMap_singleton]
    have hblank : Guarded before (('/' :: '*' :: rest).map blankChar ++ []) :=
      Guarded.append (not_mem_map_blankChar rfl _) trivial
    rwa [List.append_nil] at hblank
  | case5 before c rest hmark ih =>
    refine ⟨fun hc hhead => ?_, ih⟩
    have hrest := head?_blankComments rfl hhead
    rw [sources_blockPieces] at hrest
    obtain ⟨more, rfl⟩ := List.head?_eq_some_iff.mp hrest
    exact absurd rfl (hmark more hc)

/-! ## The second pass -/

theorem opensLineComment_cons {c : Char} {before : Text} (hhash : c ≠ '#')
    (hslash : c = '/' → before.head? ≠ some '/') :
    opensLineComment (c :: before) = opensLineComment before := by
  rw [opensLineComment]
  · exact fun hc => absurd hc hhash
  · rintro more rfl rfl
    exact hslash rfl rfl

/-- The second pass leaves no mark of a guarded text, from a place outside line comments on. -/
theorem unmarked_linePieces {before t : Text} (h : Guarded before t)
    (hopens : opensLineComment before = false)
    (hslash : before.head? = some '/' → t.head? ≠ some '/') :
    Unmarked (blankComments (linePieces t)) := by
  -- A comment in front of what follows leaves blanks.
  have hcomment : ∀ body rest : Text, Unmarked rest → Unmarked (body.map blankChar ++ rest) := by
    rintro body rest ⟨hhash, hchain⟩
    have hblank : '/' ∉ body.map blankChar := not_mem_map_blankChar rfl body
    refine ⟨?_, ?_⟩
    · simp only [List.mem_append, not_or]
      exact ⟨not_mem_map_blankChar rfl body, hhash⟩
    · refine (apart_of_not_mem hblank).append hchain fun c hc d _ hslash => ?_
      exact absurd (hslash ▸ List.mem_of_mem_getLast? hc) hblank
  have hstart (rest : Text) : ([] : Text).head? = some '/' → rest.head? ≠ some '/' := by
    intro hhead
    cases hhead
  fun_induction linePieces t generalizing before with
  | case1 => exact unmarked_nil
  | case2 rest _ ih =>
    have hrest : Guarded before (('#' :: rest.takeWhile inLine) ++ rest.dropWhile inLine) := by
      rwa [List.cons_append, List.takeWhile_append_dropWhile]
    exact hcomment _ _ (ih hrest.of_append.of_dropWhile rfl (hstart _))
  | case3 rest _ ih =>
    have hrest : Guarded before (('/' :: '/' :: rest.takeWhile inLine) ++ rest.dropWhile inLine) := by
      rwa [List.cons_append, List.cons_append, List.takeWhile_append_dropWhile]
    exact hcomment _ _ (ih hrest.of_append.of_dropWhile rfl (hstart _))
  | case4 c rest hhash hmark ih =>
    have hpair : c = '/' → rest.head? ≠ some '/' := by
      intro hc hhead
      obtain ⟨more, rfl⟩ := List.head?_eq_some_iff.mp hhead
      exact hmark more hc rfl
    have hnext : opensLineComment (lineAfter before c) = false := by
      unfold lineAfter
      split
      · rfl
      · rw [opensLineComment_cons hhash, hopens]
        rintro rfl hhead
        exact hslash hhead rfl
    have hslash' : (lineAfter before c).head? = some '/' → rest.head? ≠ some '/' := by
      intro hhead
      refine hpair ?_
      unfold lineAfter at hhead
      split at hhead
      · cases hhead
      · exact Option.some.inj hhead
    obtain ⟨hrest, hchain⟩ := ih h.2 hnext hslash'
    rw [blankComments_code_cons]
    refine ⟨?_, hchain.cons fun d hd hc => ⟨?_, ?_⟩⟩
    · simp only [List.mem_cons, not_or]
      exact ⟨fun hc => hhash hc.symm, hrest⟩
    · rintro rfl
      have hhead := head?_blankComments rfl (Option.mem_def.mp hd)
      rw [sources_linePieces] at hhead
      exact hpair hc hhead
    · rintro rfl
      have hhead := head?_blankComments rfl (Option.mem_def.mp hd)
      rw [sources_linePieces] at hhead
      rw [h.1 hc hhead] at hopens
      cases hopens

/-! ## Parts of a blanked text -/

theorem mem_of_stays {s t : Text} (h : List.Forall₂ Stays s t) {c : Char}
    (hc : ∀ d, c ≠ blankChar d) (hmem : c ∈ t) : c ∈ s := by
  induction h with
  | nil => cases hmem
  | @cons d e s t hstays _ ih =>
    obtain rfl | hmem := List.mem_cons.mp hmem
    · obtain rfl | rfl := hstays
      · exact List.mem_cons_self
      · exact absurd rfl (hc d)
    · exact List.mem_cons_of_mem d (ih hmem)

/-- No mark of a comment is left once the comments are blanked. -/
theorem unmarked_clean (firstLine : Int) (source : Text) : Unmarked (clean firstLine source).text :=
  unmarked_linePieces (guarded_blockPieces [] (normalizeLineEnds source)) rfl nofun

/-- A source without carriage returns has no comments left once they are blanked. -/
theorem quiet_clean (firstLine : Int) {source : Text} (h : '\r' ∉ source) :
    Quiet (clean firstLine source).text := by
  have hstays := stays_clean firstLine source
  rw [normalizeLineEnds_of_not_mem h] at hstays
  refine ⟨unmarked_clean firstLine source, fun hmem => h (mem_of_stays hstays (fun d => ?_) hmem)⟩
  unfold blankChar
  split <;> decide

theorem Unmarked.of_isInfix {t u : Text} (h : Unmarked t) (hu : u <:+: t) : Unmarked u where
  noHash hmem := h.noHash (hu.subset hmem)
  noMark := List.IsChain.infix h.noMark hu

theorem Quiet.of_isInfix {t u : Text} (h : Quiet t) (hu : u <:+: t) : Quiet u :=
  ⟨h.toUnmarked.of_isInfix hu, fun hmem => h.noReturn (hu.subset hmem)⟩

end TurtleTrace
