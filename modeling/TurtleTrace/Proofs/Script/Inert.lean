import TurtleTrace.Proofs.Script.LaterLines

/-!
# Marks inside line comments

An opening mark `/*` that nothing closes belongs to a line comment if the mark of that comment, as a
whole, stands before it on its line; then it opens nothing. If all the marks without an end are of this
kind, no comment is reported as unclosed, and the lines below such a line comment hold the statements
that they would hold without it. The mark of the line comment must be complete before the opening mark
begins: in `//*` it is not, and there the opening mark takes the rest of the text.

* `blankClosed`: a text with its closed block comments blanked.
* `LineOpened`: texts on whose last line a line comment has been opened.
-/

namespace TurtleTrace

set_option autoImplicit false

/-! ## Closed comments -/

/-- A text with the block comments blanked that are closed. Behind an opening mark without an end there
are none. -/
def blankClosed : Text → Text
  | [] => []
  | '/' :: '*' :: rest =>
    match h : closeBlock? rest with
    | some (body, after) =>
      have : after.length < rest.length + 2 := by
        have := congrArg List.length (closeBlock?_append h)
        simp only [List.length_append] at this
        omega
      ('/' :: '*' :: body).map blankChar ++ blankClosed after
    | none => '/' :: '*' :: rest
  | c :: rest => c :: blankClosed rest
termination_by t => t.length

/-- A line comment has been opened, by a whole mark, on the last line of a text. -/
def LineOpened (t : Text) : Prop := opensLineComment (t.foldl lineAfter []) = true

theorem blankClosed_block {rest body after : Text} (h : closeBlock? rest = some (body, after)) :
    blankClosed ('/' :: '*' :: rest) = ('/' :: '*' :: body).map blankChar ++ blankClosed after := by
  rw [blankClosed]
  split
  · rename_i heq
    rw [h] at heq
    cases heq
    rfl
  · rename_i heq
    rw [h] at heq
    cases heq

theorem blankClosed_unclosed {rest : Text} (h : closeBlock? rest = none) :
    blankClosed ('/' :: '*' :: rest) = '/' :: '*' :: rest := by
  rw [blankClosed]
  split
  · rename_i heq
    rw [h] at heq
    cases heq
  · rfl

theorem blankClosed_code {c : Char} {rest : Text} (h : ∀ more, c = '/' → rest ≠ '*' :: more) :
    blankClosed (c :: rest) = c :: blankClosed rest := by
  rw [blankClosed]
  exact h

theorem stays_blankClosed (t : Text) : List.Forall₂ Stays t (blankClosed t) := by
  fun_induction blankClosed t with
  | case1 => exact .nil
  | case2 rest body after hclose _ ih =>
    have hbody : List.Forall₂ Stays ('/' :: '*' :: body) (('/' :: '*' :: body).map blankChar) :=
      List.forall₂_map_right_iff.mpr (List.forall₂_same.mpr fun c _ => .inr rfl)
    have hwhole : List.Forall₂ Stays (('/' :: '*' :: body) ++ after)
        (('/' :: '*' :: body).map blankChar ++ blankClosed after) := List.rel_append hbody ih
    rwa [List.cons_append, List.cons_append, closeBlock?_append hclose] at hwhole
  | case3 rest hclose => exact List.forall₂_same.mpr fun c _ => .inl rfl
  | case4 c rest hmark ih => exact .cons (.inl rfl) ih

/-! ## Texts without an end of a comment -/

theorem closeBlock?_suffix {a b : Text} (h : closeBlock? (a ++ b) = none) : closeBlock? b = none := by
  induction a with
  | nil => exact h
  | cons c a ih =>
    refine ih ?_
    rw [List.cons_append] at h
    unfold closeBlock? at h
    split at h
    · rename_i heq
      cases heq
    · cases h
    · rename_i heq
      cases heq
      exact Option.map_eq_none_iff.mp h

theorem closeBlock?_left {a b : Text} (h : closeBlock? (a ++ b) = none) : closeBlock? a = none := by
  cases hclose : closeBlock? a with
  | none => rfl
  | some found =>
    rw [closeBlock?_append_right hclose] at h
    cases h

/-- A line end does not complete the end of a comment. -/
theorem closeBlock?_append_none {a b : Text} (ha : closeBlock? a = none) (hb : closeBlock? b = none)
    (hline : AtLineEnd b) : closeBlock? (a ++ b) = none := by
  fun_induction closeBlock? a with
  | case1 => exact hb
  | case2 => cases ha
  | case3 c rest hmark ih =>
    rw [List.cons_append, closeBlock?, ih (Option.map_eq_none_iff.mp ha), Option.map_none]
    rintro more rfl hmore
    cases rest with
    | nil =>
      have hslash := hline '/' (by rw [List.nil_append] at hmore; rw [hmore]; rfl)
      exact absurd hslash (by decide)
    | cons d rest =>
      cases hmore
      exact hmark rest rfl rfl

/-- Where nothing is closed nothing is blanked. -/
theorem blankClosed_of_none {t : Text} (h : closeBlock? t = none) : blankClosed t = t := by
  fun_induction blankClosed t with
  | case1 => rfl
  | case2 rest body after hclose =>
    have hrest := closeBlock?_suffix (a := ['/', '*']) h
    rw [hrest] at hclose
    cases hclose
  | case3 => rfl
  | case4 c rest hmark ih => rw [ih (closeBlock?_suffix (a := [c]) h)]

/-- A mark that is left was there, and nothing behind it is closed. -/
theorem blankClosed_eq_mark {t a b : Text} (h : blankClosed t = a ++ '/' :: '*' :: b) :
    t.drop a.length = '/' :: '*' :: b ∧ closeBlock? b = none := by
  fun_induction blankClosed t generalizing a with
  | case1 => cases a <;> cases h
  | case2 rest body after hclose _ ih =>
    obtain ⟨more, hblank⟩ | ⟨front, rfl, hrest⟩ := cons_of_append_eq h
    · refine absurd ?_ (not_mem_map_blankChar (c := '/') rfl ('/' :: '*' :: body))
      rw [hblank]
      exact List.mem_append_right a List.mem_cons_self
    · obtain ⟨hdrop, hnone⟩ := ih hrest
      refine ⟨?_, hnone⟩
      rw [List.length_append, List.length_map, ← List.drop_drop, ← hdrop]
      have hwhole := closeBlock?_append hclose
      congr 1
      rw [← hwhole]
      exact List.drop_left
  | case3 rest hclose =>
    cases a with
    | nil =>
      cases h
      exact ⟨rfl, hclose⟩
    | cons c a =>
      obtain ⟨-, h⟩ := List.cons.inj h
      cases a with
      | nil => cases h
      | cons d a =>
        obtain ⟨-, rfl⟩ := List.cons.inj h
        refine ⟨List.drop_left, ?_⟩
        exact closeBlock?_suffix (a := ['/', '*']) (closeBlock?_suffix hclose)
  | case4 c rest hmark ih =>
    cases a with
    | nil =>
      obtain ⟨rfl, hrest⟩ := List.cons.inj h
      have hhead : rest.head? = some '*' :=
        head?_of_stays (stays_blankClosed rest) rfl (by rw [hrest]; rfl)
      obtain ⟨more, rfl⟩ := List.head?_eq_some_iff.mp hhead
      exact absurd rfl (hmark more rfl)
    | cons d a =>
      obtain ⟨-, hrest⟩ := List.cons.inj h
      exact ih hrest

/-! ## What is reported -/

theorem guarded_iff {before t : Text} :
    Guarded before t ↔
      ∀ a b, t = a ++ '/' :: '*' :: b → opensLineComment (a.foldl lineAfter before) = true := by
  induction t generalizing before with
  | nil => exact iff_of_true trivial fun a b h => by cases a <;> cases h
  | cons c t ih =>
    rw [Guarded, ih]
    constructor
    · rintro ⟨hfirst, hrest⟩ a b h
      cases a with
      | nil =>
        cases h
        exact hfirst rfl rfl
      | cons d a =>
        cases h
        exact hrest a b rfl
    · intro h
      refine ⟨?_, fun a b ht => h (c :: a) b (by rw [ht, List.cons_append])⟩
      rintro rfl hhead
      obtain ⟨b, rfl⟩ := List.head?_eq_some_iff.mp hhead
      exact h [] b rfl

theorem guarded_blanks_iff {before t u : Text} :
    Guarded before (u.map blankChar ++ t) ↔ Guarded ((u.map blankChar).foldl lineAfter before) t :=
  ⟨.of_append, .append (not_mem_map_blankChar rfl u)⟩

theorem head?_blankClosed {t : Text} (h : (blankClosed t).head? = some '*') : t.head? = some '*' :=
  head?_of_stays (stays_blankClosed t) rfl h

/-- In front of a character that is not part of a mark, a guarded text starts one character later. -/
theorem guarded_code_iff {before rest : Text} {c : Char} (h : ∀ more, c = '/' → rest ≠ '*' :: more) :
    Guarded before (c :: blankClosed rest) ↔ Guarded (lineAfter before c) (blankClosed rest) := by
  refine ⟨fun hguarded => hguarded.2, fun hrest => ⟨fun hc hhead => ?_, hrest⟩⟩
  obtain ⟨more, rfl⟩ := List.head?_eq_some_iff.mp (head?_blankClosed hhead)
  exact absurd rfl (h more hc)

theorem guarded_mark_iff {before rest : Text} (h : opensLineComment before = true) :
    Guarded before ('/' :: '*' :: rest) ↔ Guarded ('*' :: '/' :: before) rest := by
  refine ⟨fun hguarded => hguarded.2.2, fun hrest => ⟨fun _ _ => h, ?_, hrest⟩⟩
  intro hc
  exact absurd hc (by decide)

/-- A comment is reported as unclosed exactly if some mark without an end is not guarded. -/
theorem unclosedAt_eq_none_iff (p : Position) (before t : Text) :
    unclosedAt p (blockPieces before t) = none ↔ Guarded before (blankClosed t) := by
  fun_induction blockPieces before t generalizing p with
  | case1 => exact iff_of_true rfl (by rw [blankClosed]; trivial)
  | case2 before rest body after hclose _ ih =>
    have hclosed : (Piece.comment ('/' :: '*' :: body)).isUnclosed = false := by
      simp only [Piece.isUnclosed, List.drop_succ_cons, List.drop_zero, closeBlock?_body hclose,
        Option.isNone_some]
    rw [unclosedAt, hclosed, if_neg Bool.false_ne_true, ih, blankClosed_block hclose,
      guarded_blanks_iff]
  | case3 before rest hclose hopens ih =>
    rw [unclosedAt, Piece.isUnclosed, if_neg Bool.false_ne_true, unclosedAt, Piece.isUnclosed,
      if_neg Bool.false_ne_true, ih, blankClosed_unclosed hclose, guarded_mark_iff hopens,
      blankClosed_of_none hclose]
  | case4 before rest hclose hopens =>
    have hunclosed : (Piece.comment ('/' :: '*' :: rest)).isUnclosed = true := by
      simp only [Piece.isUnclosed, List.drop_succ_cons, List.drop_zero, hclose, Option.isNone_none]
    rw [unclosedAt, hunclosed, if_pos rfl, blankClosed_unclosed hclose]
    refine iff_of_false (Option.some_ne_none p) fun hguarded => ?_
    exact hopens (hguarded.1 rfl rfl)
  | case5 before c rest hmark ih =>
    rw [unclosedAt, Piece.isUnclosed, if_neg Bool.false_ne_true, ih, blankClosed_code hmark,
      guarded_code_iff hmark]

/-- If all the marks without an end are guarded, the first pass blanks the closed comments only. -/
theorem blankComments_of_guarded {before t : Text} (h : Guarded before (blankClosed t)) :
    blankComments (blockPieces before t) = blankClosed t := by
  fun_induction blockPieces before t with
  | case1 => rw [blankClosed]; rfl
  | case2 before rest body after hclose _ ih =>
    rw [blankClosed_block hclose] at h ⊢
    rw [blankComments, List.flatMap_cons, ← blankComments, ih (guarded_blanks_iff.mp h)]
    rfl
  | case3 before rest hclose hopens ih =>
    rw [blankClosed_unclosed hclose, guarded_mark_iff hopens] at h
    rw [blankClosed_unclosed hclose, blankComments_code_cons, blankComments_code_cons, ih,
      blankClosed_of_none hclose]
    rwa [blankClosed_of_none hclose]
  | case4 before rest hclose hopens =>
    rw [blankClosed_unclosed hclose] at h
    exact absurd (h.1 rfl rfl) hopens
  | case5 before c rest hmark ih =>
    rw [blankClosed_code hmark] at h ⊢
    rw [blankComments_code_cons, ih ((guarded_code_iff hmark).mp h)]

/-- Where the first pass finds a comment, a closed one has been blanked, or an opening mark is not
guarded. -/
theorem blankClosed_of_comment {before t body : Text} {ps qs : List Piece}
    (h : blockPieces before t = ps ++ .comment body :: qs) :
    ∃ rest, blankClosed t = blankComments ps ++ rest ∧ (rest.head? = some ' ' ∨
      opensLineComment ((blankComments ps).foldl lineAfter before) = false) := by
  fun_induction blockPieces before t generalizing ps with
  | case1 => cases ps <;> cases h
  | case2 before rest body' after hclose _ ih =>
    rw [blankClosed_block hclose]
    cases ps with
    | nil => exact ⟨_, rfl, .inl rfl⟩
    | cons p ps =>
      obtain ⟨rfl, hrest⟩ := List.cons.inj h
      obtain ⟨more, hmore, hcase⟩ := ih hrest
      refine ⟨more, ?_, ?_⟩
      · rw [hmore, ← List.append_assoc]
        rfl
      · rw [blankComments, List.flatMap_cons, List.foldl_append]
        exact hcase
  | case3 before rest hclose hopens ih =>
    cases ps with
    | nil => cases h
    | cons p ps =>
      obtain ⟨rfl, hstar⟩ := List.cons.inj h
      cases ps with
      | nil => cases hstar
      | cons q ps =>
        obtain ⟨rfl, hrest⟩ := List.cons.inj hstar
        obtain ⟨more, hmore, hcase⟩ := ih hrest
        rw [blankClosed_of_none hclose] at hmore
        rw [blankClosed_unclosed hclose]
        exact ⟨more, congrArg (fun t => '/' :: '*' :: t) hmore, hcase⟩
  | case4 before rest hclose hopens =>
    cases ps with
    | nil => exact ⟨_, rfl, .inr (Bool.eq_false_iff.mpr hopens)⟩
    | cons p ps =>
      obtain ⟨-, hnil⟩ := List.cons.inj h
      cases ps <;> cases hnil
  | case5 before c rest hmark ih =>
    cases ps with
    | nil => cases h
    | cons p ps =>
      obtain ⟨rfl, hrest⟩ := List.cons.inj h
      obtain ⟨more, hmore, hcase⟩ := ih hrest
      rw [blankClosed_code hmark]
      exact ⟨more, congrArg (List.cons c) hmore, hcase⟩

theorem length_blankComments (ps : List Piece) :
    (blankComments ps).length = (sources ps).length := (stays_blankComments ps).length_eq.symm

/-- A guarded mark does not open a comment. -/
theorem length_ne_of_comment {t a b body : Text} {ps qs : List Piece}
    (hmark : blankClosed t = a ++ '/' :: '*' :: b) (hopened : LineOpened a)
    (h : blockPieces [] t = ps ++ .comment body :: qs) : (sources ps).length ≠ a.length := by
  intro hlength
  obtain ⟨rest, hrest, hcase⟩ := blankClosed_of_comment h
  rw [← length_blankComments] at hlength
  obtain ⟨rfl, rfl⟩ := List.append_inj (hrest.symm.trans hmark) hlength
  obtain hblank | hopens := hcase
  · cases hblank
  · rw [LineOpened, hopens] at hopened
    cases hopened

/-! ## Without the line comment -/

/-- A text cut short with a line end behind it does not come to start with a star. -/
theorem take_append_ne_star {rest r : Text} (hrest : ∀ more, rest ≠ '*' :: more) (hline : AtLineEnd r)
    (n : Nat) (more : Text) : rest.take n ++ r ≠ '*' :: more := by
  intro hmore
  cases htake : rest.take n with
  | nil =>
    rw [htake, List.nil_append] at hmore
    have hstar := hline '*' (by rw [hmore]; rfl)
    exact absurd hstar (by decide)
  | cons c front =>
    rw [htake] at hmore
    cases hmore
    obtain ⟨tail, hwhole⟩ := List.take_prefix n rest
    rw [htake] at hwhole
    exact hrest (front ++ tail) hwhole.symm

/-- What stands in front of a place outside closed comments is blanked in the same way when something
else follows that starts with a line end and closes nothing. -/
theorem blankClosed_take_append {t a s r : Text} {c : Char} (h : blankClosed t = a ++ c :: s)
    (hc : isBlank c = false) (hstar : c ≠ '*') (hline : AtLineEnd r) (hr : closeBlock? r = none) :
    blankClosed (t.take a.length ++ r) = a ++ r := by
  fun_induction blankClosed t generalizing a with
  | case1 => cases a <;> cases h
  | case2 rest body after hclose _ ih =>
    obtain ⟨more, hblank⟩ | ⟨front, rfl, hrest⟩ := cons_of_append_eq h
    · refine absurd ?_ (not_mem_map_blankChar hc ('/' :: '*' :: body))
      rw [hblank]
      exact List.mem_append_right a List.mem_cons_self
    · have htake : ('/' :: '*' :: rest).take
          ((('/' :: '*' :: body).map blankChar) ++ front).length =
            '/' :: '*' :: (body ++ after.take front.length) := by
        rw [List.length_append, List.length_map, ← closeBlock?_append hclose]
        exact List.take_length_add_append front.length
      have hlonger := closeBlock?_append_right (closeBlock?_body hclose) (after.take front.length ++ r)
      rw [htake, List.cons_append, List.cons_append, List.append_assoc, blankClosed_block hlonger,
        List.nil_append, ih hrest, List.append_assoc]
  | case3 rest hclose =>
    cases a with
    | nil => exact blankClosed_of_none hr
    | cons d a =>
      obtain ⟨rfl, htail⟩ := List.cons.inj h
      cases a with
      | nil =>
        obtain ⟨rfl, -⟩ := List.cons.inj htail
        exact absurd rfl hstar
      | cons e a =>
        obtain ⟨rfl, hrest⟩ := List.cons.inj htail
        have hfront : closeBlock? a = none := by
          rw [hrest] at hclose
          exact closeBlock?_left hclose
        have htake : ('/' :: '*' :: rest).take ('/' :: '*' :: a).length = '/' :: '*' :: a := by
          rw [hrest]
          exact List.take_left
        rw [htake]
        exact blankClosed_unclosed (closeBlock?_append_none hfront hr hline)
  | case4 d rest hmark ih =>
    cases a with
    | nil => exact blankClosed_of_none hr
    | cons e a =>
      obtain ⟨rfl, hrest⟩ := List.cons.inj h
      have hcode : ∀ more, d = '/' → rest.take a.length ++ r ≠ '*' :: more := fun more hd =>
        take_append_ne_star (fun u => hmark u hd) hline a.length more
      rw [List.length_cons, List.take_succ_cons, List.cons_append, blankClosed_code hcode, ih hrest,
        List.cons_append]

/-- A line end starts over, whatever stood on the line before. -/
theorem Guarded.of_lineEnd {before other t : Text} (h : Guarded before t) (hline : AtLineEnd t) :
    Guarded other t := by
  obtain rfl | ⟨rest, rfl⟩ := hline.cases
  · trivial
  · exact ⟨fun hc => absurd hc (by decide), h.2⟩

/-- Part of a line may be left out of a guarded text, up to the line end. -/
theorem Guarded.without {before a body r : Text} (h : Guarded before (a ++ (body ++ r)))
    (hline : AtLineEnd r) : Guarded before (a ++ r) := by
  induction a generalizing before with
  | nil => exact (Guarded.of_append (u := body) h).of_lineEnd hline
  | cons c a ih =>
    refine ⟨fun hc hhead => ?_, ih h.2⟩
    cases a with
    | nil =>
      have hstar := hline '*' hhead
      exact absurd hstar (by decide)
    | cons d a => exact h.1 hc hhead

theorem AtLineEnd.of_append {a b : Text} (h : AtLineEnd (a ++ b)) : AtLineEnd a := by
  cases a with
  | nil => exact fun c hc => by cases hc
  | cons c a => exact h

theorem cutLine_of_atLineEnd {u v : Text} (hu : ∀ c ∈ u, inLine c) (hv : AtLineEnd v) :
    (u ++ v).takeWhile inLine = u ∧ (u ++ v).dropWhile inLine = v := by
  have hstop : v.takeWhile inLine = [] ∧ v.dropWhile inLine = v := by
    obtain rfl | ⟨rest, rfl⟩ := hv.cases
    · exact ⟨rfl, rfl⟩
    · exact ⟨rfl, rfl⟩
  rw [List.takeWhile_append_of_pos hu, List.dropWhile_append_of_pos hu, hstop.1, hstop.2,
    List.append_nil]
  exact ⟨rfl, rfl⟩

/-- A line comment, with pieces in front of it and behind it that are those of their own texts. -/
structure Between (ps : List Piece) (body : Text) (qs : List Piece) : Prop where
  front : linePieces (sources ps) = ps
  behind : linePieces (sources qs) = qs
  lineEnd : AtLineEnd (sources qs)
  oneLine : '\n' ∉ body
  marked : ∃ c rest, body = c :: rest ∧ (c = '#' ∨ c = '/')

section LineComment

variable {rest body : Text} {ps qs : List Piece}

/-- A text that starts with a line comment has it, or a later one, between its pieces. -/
theorem between_cons (mark : Text)
    (hmark : ∀ u, linePieces (mark ++ u) =
      .comment (mark ++ u.takeWhile inLine) :: linePieces (u.dropWhile inLine))
    (hfirst : '\n' ∉ mark ∧ ∃ c more, mark = c :: more ∧ (c = '#' ∨ c = '/'))
    (ih : ∀ {ps : List Piece}, linePieces (rest.dropWhile inLine) = ps ++ .comment body :: qs →
      Between ps body qs)
    (h : .comment (mark ++ rest.takeWhile inLine) :: linePieces (rest.dropWhile inLine) =
      ps ++ .comment body :: qs) : Between ps body qs := by
  have hin : ∀ c ∈ rest.takeWhile inLine, inLine c := fun c hc => List.mem_takeWhile_imp hc
  cases ps with
  | nil =>
    obtain ⟨hbody, rfl⟩ := List.cons.inj h
    obtain rfl := Piece.comment.inj hbody
    obtain ⟨hline, c, more, rfl, hc⟩ := hfirst
    refine ⟨by rw [sources, List.flatMap_nil, linePieces], ?_, ?_, ?_, c, _, rfl, hc⟩
    · rw [sources_linePieces]
    · rw [sources_linePieces]
      exact atLineEnd_dropWhile rest
    · rw [List.mem_append, not_or]
      refine ⟨hline, fun hmem => ?_⟩
      have hinside := hin '\n' hmem
      cases hinside
  | cons p ps =>
    obtain ⟨rfl, hrest⟩ := List.cons.inj h
    have hrest' := ih hrest
    have hend : AtLineEnd (sources ps) := by
      have hsources := congrArg sources hrest
      rw [sources_linePieces] at hsources
      have hwhole := atLineEnd_dropWhile rest
      rw [hsources, sources, List.append_eq, List.flatMap_append] at hwhole
      exact hwhole.of_append
    obtain ⟨htake, hdrop⟩ := cutLine_of_atLineEnd hin hend
    refine ⟨?_, hrest'.behind, hrest'.lineEnd, hrest'.oneLine, hrest'.marked⟩
    have hsource : sources (.comment (mark ++ rest.takeWhile inLine) :: ps) =
        mark ++ (rest.takeWhile inLine ++ sources ps) := by
      rw [sources, List.flatMap_cons, ← List.append_assoc]
      rfl
    rw [hsource, hmark, htake, hdrop, hrest'.front]

end LineComment

theorem between_of_linePieces {t body : Text} {ps qs : List Piece}
    (h : linePieces t = ps ++ .comment body :: qs) : Between ps body qs := by
  fun_induction linePieces t generalizing ps with
  | case1 => cases ps <;> cases h
  | case2 rest _ ih =>
    refine between_cons ['#'] (fun u => ?_) ?_ ih h
    · rw [List.singleton_append, linePieces, List.singleton_append]
    · exact ⟨by decide, '#', [], rfl, .inl rfl⟩
  | case3 rest _ ih =>
    refine between_cons ['/', '/'] (fun u => ?_) ?_ ih h
    · rw [List.cons_append, List.singleton_append, linePieces, List.cons_append, List.singleton_append]
    · exact ⟨by decide, '/', ['/'], rfl, .inr rfl⟩
  | case4 c rest hhash hslash ih =>
    cases ps with
    | nil => cases h
    | cons p ps =>
      obtain ⟨rfl, hrest⟩ := List.cons.inj h
      have hrest' := ih hrest
      refine ⟨?_, hrest'.behind, hrest'.lineEnd, hrest'.oneLine, hrest'.marked⟩
      have hsource : sources (.code c :: ps) = c :: sources ps := rfl
      have hcode : ∀ more, c = '/' → sources ps ≠ '/' :: more := by
        intro more hc hmore
        have hsources := congrArg sources hrest
        rw [sources_linePieces, sources, List.append_eq, List.flatMap_append, ← sources,
          hmore] at hsources
        exact hslash _ hc hsources
      rw [hsource, linePieces_code hhash hcode, hrest'.front]

namespace Between

variable {ps qs : List Piece} {body : Text}

theorem linePieces_without (h : Between ps body qs) :
    linePieces (sources ps ++ sources qs) = ps ++ qs := by
  have hbehind := h.behind
  obtain hnil | ⟨rest, hrest⟩ := h.lineEnd.cases
  · rw [hnil, linePieces] at hbehind
    rw [hnil, List.append_nil, h.front, ← hbehind, List.append_nil]
  · rw [hrest, linePieces_code (by decide) (fun _ hc => by cases hc)] at hbehind
    rw [hrest, linePieces_append, h.front, hbehind]

theorem spaces (h : Between ps body qs) : ∀ c ∈ body.map blankChar, c = ' ' := by
  intro c hc
  obtain ⟨d, hd, rfl⟩ := List.mem_map.mp hc
  have hline : d ≠ '\n' := fun hd' => h.oneLine (hd' ▸ hd)
  rw [blankChar, if_neg hline]

theorem atLineEnd_blankComments (h : Between ps body qs) : AtLineEnd (blankComments qs) := by
  intro c hc
  have hbehind := h.behind
  obtain hnil | ⟨rest, hrest⟩ := h.lineEnd.cases
  · rw [hnil, linePieces] at hbehind
    rw [← hbehind] at hc
    cases hc
  · rw [hrest, linePieces_code (by decide) (fun _ hc => by cases hc)] at hbehind
    rw [← hbehind] at hc
    cases hc
    rfl

end Between

theorem Cleaned.diagnostics_eq_nil_iff {c : Cleaned} : c.diagnostics = [] ↔ c.unclosed = none := by
  unfold diagnostics
  split
  · rename_i hnone
    exact iff_of_true rfl hnone
  · rename_i p hsome
    rw [hsome]
    exact iff_of_false (List.cons_ne_nil _ _) (Option.some_ne_none p)

theorem diagnostics_lex_eq_nil_iff (firstLine : Int) (source : Text) :
    (lex firstLine source).diagnostics = [] ↔
      Guarded [] (blankClosed (normalizeLineEnds source)) :=
  Cleaned.diagnostics_eq_nil_iff.trans (unclosedAt_eq_none_iff _ _ _)

theorem text_clean_of_guarded (firstLine : Int) {source : Text}
    (h : Guarded [] (blankClosed (normalizeLineEnds source))) :
    (clean firstLine source).text =
      blankComments (linePieces (blankClosed (normalizeLineEnds source))) := by
  simp only [clean, blankComments_of_guarded h]

/-- A text from which a line comment with an opening mark is left out: what was closed in front of it is
blanked as before, and nothing behind it was. -/
theorem blankClosed_without {t body : Text} {ps qs : List Piece} (hbetween : Between ps body qs)
    (hparts : blankClosed t = sources ps ++ (body ++ sources qs)) (hmark : ['/', '*'] <:+: body) :
    blankClosed (t.take (sources ps).length ++ t.drop ((sources ps).length + body.length)) =
      sources ps ++ sources qs := by
  obtain ⟨u, v, hbody⟩ := hmark
  have hmarked : blankClosed t = (sources ps ++ u) ++ '/' :: '*' :: (v ++ sources qs) := by
    rw [hparts, ← hbody]
    simp
  obtain ⟨hdrop, hnone⟩ := blankClosed_eq_mark hmarked
  have hrest : t.drop ((sources ps).length + body.length) = sources qs := by
    have hlength : (sources ps).length + body.length = (sources ps ++ u).length + (v.length + 2) := by
      rw [← hbody]
      simp only [List.length_append, List.length_cons, List.length_nil]
      omega
    rw [hlength, ← List.drop_drop, hdrop, List.drop_succ_cons, List.drop_succ_cons, List.drop_left]
  obtain ⟨c, more, rfl, hc⟩ := hbetween.marked
  have hblank : isBlank c = false ∧ c ≠ '*' := by
    obtain rfl | rfl := hc <;> decide
  rw [hrest]
  exact blankClosed_take_append hparts hblank.1 hblank.2 hbetween.lineEnd (closeBlock?_suffix hnone)

/-- Marks `/*` that nothing closes: one that stands behind the whole mark of a line comment, on its line,
opens no comment. No comment is reported as unclosed exactly if all of them are of this kind, and then
the lines below a line comment with such a mark hold the statements that they hold when the comment is
left out. -/
theorem unclosed_marks_of_line_comments (firstLine : Int) (source : Text) :
    let text := normalizeLineEnds source
    let blanked := blankClosed text
    (∀ a b, blanked = a ++ '/' :: '*' :: b → LineOpened a →
      ∀ ps body qs, blockPieces [] text = ps ++ .comment body :: qs →
        (sources ps).length ≠ a.length) ∧
    ((lex firstLine source).diagnostics = [] ↔
      ∀ a b, blanked = a ++ '/' :: '*' :: b → LineOpened a) ∧
    ((∀ a b, blanked = a ++ '/' :: '*' :: b → LineOpened a) →
      ∀ ps body qs absent, linePieces blanked = ps ++ .comment body :: qs → ['/', '*'] <:+: body →
        normalizeLineEnds absent =
          text.take (sources ps).length ++ text.drop ((sources ps).length + body.length) →
        (lex firstLine absent).diagnostics = [] ∧
          (lex firstLine absent).statements.filter (firstLine + (sources ps).newlines < ·.line) =
            (lex firstLine source).statements.filter (firstLine + (sources ps).newlines < ·.line)) := by
  intro text blanked
  refine ⟨fun a b hmark hopened ps body qs h => length_ne_of_comment hmark hopened h, ?_, ?_⟩
  · exact (diagnostics_lex_eq_nil_iff firstLine source).trans guarded_iff
  intro hopened ps body qs absent hpieces hmark habsent
  have hguarded : Guarded [] blanked := guarded_iff.mpr hopened
  have hbetween := between_of_linePieces hpieces
  have hparts : blanked = sources ps ++ (body ++ sources qs) := by
    have hsources := congrArg sources hpieces
    rw [sources_linePieces, sources, List.flatMap_append, List.flatMap_cons] at hsources
    exact hsources
  have hwithout : blankClosed (normalizeLineEnds absent) = sources ps ++ sources qs := by
    rw [habsent]
    exact blankClosed_without hbetween hparts hmark
  have hguarded' : Guarded [] (blankClosed (normalizeLineEnds absent)) := by
    rw [hwithout]
    rw [hparts] at hguarded
    exact hguarded.without hbetween.lineEnd
  refine ⟨(diagnostics_lex_eq_nil_iff firstLine absent).mpr hguarded', ?_⟩
  -- The two texts differ in the blanks for the comment, which stand at the end of their line.
  have hsource : (clean firstLine source).text =
      blankComments ps ++ (body.map blankChar ++ blankComments qs) := by
    rw [text_clean_of_guarded firstLine hguarded, hpieces, blankComments_append]
    rfl
  have hshort : (clean firstLine absent).text = blankComments ps ++ blankComments qs := by
    rw [text_clean_of_guarded firstLine hguarded', hwithout, hbetween.linePieces_without,
      blankComments_append]
  have hlater := later_spaces hbetween.spaces hbetween.atLineEnd_blankComments ⟨firstLine, 1⟩
    (blankComments ps)
  rw [← hsource, ← hshort, newlines_blankComments] at hlater
  exact hlater.symm

/-- A closed comment, a line comment that holds a mark and another one two lines below. -/
theorem statements_below_marked_comment :
    let source := "FD 1 /* # */ // see /* note\r\nRT 90\n# also /* here\nFD 20".toList
    let absent := "FD 1 /* # */ \nRT 90\n# also /* here\nFD 20".toList
    (∀ a b, blankClosed (normalizeLineEnds source) = a ++ '/' :: '*' :: b → LineOpened a) ∧
      (∀ ps body qs, blockPieces [] (normalizeLineEnds source) = ps ++ .comment body :: qs →
        (sources ps).length ≠ 20) ∧
      (lex 1 source).diagnostics = [] ∧ (lex 1 absent).diagnostics = [] ∧
      (lex 1 absent).statements.filter (1 < ·.line) =
        (lex 1 source).statements.filter (1 < ·.line) ∧
      ((lex 1 source).statements.filter (1 < ·.line)).map (·.text) =
        ["RT 90".toList, "FD 20".toList] := by
  intro source absent
  obtain ⟨hinert, hreported, hlater⟩ := unclosed_marks_of_line_comments 1 source
  have hnone : (lex 1 source).diagnostics = [] := by decide +kernel
  have hopened := hreported.mp hnone
  have hplace : blankClosed (normalizeLineEnds source) = "FD 1         // see ".toList ++
      '/' :: '*' :: " note\nRT 90\n# also /* here\nFD 20".toList := by
    decide +kernel
  have hpieces : linePieces (blankClosed (normalizeLineEnds source)) =
      "FD 1         ".toList.map .code ++ .comment "// see /* note".toList ::
        linePieces "\nRT 90\n# also /* here\nFD 20".toList := by
    decide +kernel
  have hmark : ['/', '*'] <:+: "// see /* note".toList :=
    ⟨"// see ".toList, " note".toList, by decide⟩
  obtain ⟨habsent, hsame⟩ := hlater hopened _ _ _ absent hpieces hmark (by decide +kernel)
  exact ⟨hopened, hinert _ _ hplace (hopened _ _ hplace), hnone, habsent, hsame, by decide +kernel⟩

/-- The mark of the line comment and the opening mark share a character: nothing closes the opening mark,
a line comment is opened one character before it, and yet it takes the rest of the text. -/
theorem mark_overlapping_line_comment :
    let source := "//* a\nRT 90".toList
    blankClosed (normalizeLineEnds source) = ['/'] ++ '/' :: '*' :: " a\nRT 90".toList ∧
      LineOpened (['/'] ++ ['/']) ∧
      (lex 1 source).diagnostics.map (·.message) = [unclosedMessage] ∧
      (lex 1 source).statements.map (·.text) = [['/']] :=
  ⟨by decide +kernel, rfl, by decide +kernel, by decide +kernel⟩

end TurtleTrace
