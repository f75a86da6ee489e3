import TurtleTrace.Proofs.Drawing.Finished
import TurtleTrace.Proofs.Machine.Reachable
import TurtleTrace.Proofs.Machine.Regular
import TurtleTrace.Proofs.Script.Coverage
import TurtleTrace.Scad

/-!
# Polygons along a run

At every point of a run the open polygon leads to the turtle, and the finished polygons are in order,
each with the arc that its circle comes from. From one point to a later one they only become more, and
the end of the run adds at most one. A polygon comes out as an empty block only if all it has is one
empty comment. Notes are never empty, and neither are comments that are read from a source, so the
OpenSCAD text of a script is not empty; that of a run with an empty comment can be.

* `TracedBetween`: a circle comes from an arc on the way from one point of a run to another.
* `polygons_in_order`: what holds of the polygons at all points of a run and at its end.
-/

namespace TurtleTrace

set_option autoImplicit false

/-! ## Texts are not empty -/

theorem exists_of_mem_commentsFrom {shown : Text → Text} {line : Int} {ps : List Piece}
    {c : Comment} (h : c ∈ commentsFrom shown line ps) :
    ∃ body, Piece.comment body ∈ ps ∧ c.text = shown body := by
  induction ps generalizing line with
  | nil => cases h
  | cons p ps ih =>
    cases p with
    | code =>
      obtain ⟨body, hbody, htext⟩ := ih h
      exact ⟨body, List.mem_cons_of_mem _ hbody, htext⟩
    | comment body =>
      obtain rfl | h := List.mem_cons.mp h
      · exact ⟨body, List.mem_cons_self, rfl⟩
      · obtain ⟨other, hother, htext⟩ := ih h
        exact ⟨other, List.mem_cons_of_mem _ hother, htext⟩

theorem ink_of_mem_blockPieces {before t body : Text}
    (h : Piece.comment body ∈ blockPieces before t) : ink body ≠ [] := by
  fun_induction blockPieces before t with
  | case1 => cases h
  | case2 before rest body' after hclose _ ih =>
    obtain heq | h := List.mem_cons.mp h
    · cases heq
      exact List.cons_ne_nil _ _
    · exact ih h
  | case3 before rest hclose hopen ih =>
    obtain heq | h := List.mem_cons.mp h
    · cases heq
    · obtain heq | h := List.mem_cons.mp h
      · cases heq
      · exact ih h
  | case4 =>
    cases List.mem_singleton.mp h
    exact List.cons_ne_nil _ _
  | case5 before c rest _ ih =>
    obtain heq | h := List.mem_cons.mp h
    · cases heq
    · exact ih h

theorem ink_of_mem_linePieces {t body : Text} (h : Piece.comment body ∈ linePieces t) :
    ink body ≠ [] := by
  fun_induction linePieces t with
  | case1 => cases h
  | case2 rest _ ih | case3 rest _ ih =>
    obtain heq | h := List.mem_cons.mp h
    · cases heq
      exact List.cons_ne_nil _ _
    · exact ih h
  | case4 c rest _ _ ih =>
    obtain heq | h := List.mem_cons.mp h
    · cases heq
    · exact ih h

/-- A comment of a source has its opening mark in it. -/
theorem text_ne_nil_of_parse {firstLine : Int} {source : Text} {c : Comment}
    (h : c ∈ (parse firstLine source).comments) : c.text ≠ [] := by
  have hmem : c ∈ (clean firstLine source).comments := h
  obtain hblock | hline := List.mem_append.mp ((sortOn_perm Comment.line _).mem_iff.mp hmem)
  · obtain ⟨body, hbody, htext⟩ := exists_of_mem_commentsFrom hblock
    intro hn
    rw [htext] at hn
    exact ink_of_mem_blockPieces hbody (by rw [show body = [] from hn]; rfl)
  · obtain ⟨body, hbody, htext⟩ := exists_of_mem_commentsFrom hline
    intro hn
    rw [htext] at hn
    exact ink_of_mem_linePieces hbody (by rw [← ink_trim, hn]; rfl)

theorem Machine.noteOf_ne_nil {m : Machine} {action : Action} {text : Text}
    (h : m.noteOf action = some text) : text ≠ [] := by
  have hmark (rest : Text) : "// ".toList ++ rest ≠ [] := List.cons_ne_nil _ _
  cases action with
  | print items =>
    simp only [noteOf] at h
    split at h
    · cases h
    · cases h
      exact hmark _
  | notePosition label =>
    cases h
    exact List.cons_ne_nil _ _
  | marker label place =>
    cases place with
    | none =>
      cases h
      exact List.cons_ne_nil _ _
    | some place =>
      simp only [noteOf] at h
      split at h
      · cases h
        exact List.cons_ne_nil _ _
      · cases h
  | _ => cases h

theorem Visit.note_ne_nil_of_placed {v : Visit} {text : Text} (h : Placement.note text ∈ v.placed) :
    text ≠ [] := by
  have hnote : text ∈ v.placed.filterMap Placement.note? := List.mem_filterMap.mpr ⟨_, h, rfl⟩
  rw [v.filterMap_note_placed] at hnote
  exact Machine.noteOf_ne_nil (Option.mem_toList.mp hnote)

theorem Canvas.Places.mem_waiting {c c' : Canvas} {log : List Placement} {comment : Comment}
    (h : c.Places log c') (hmem : .comment comment ∈ log) : comment ∈ c.queue.waiting := by
  rw [h.takes]
  exact List.mem_append_left _ (List.mem_filterMap.mpr ⟨_, hmem, rfl⟩)

/-- What is read off a finished drawing is a comment of the source or a note. -/
theorem free_ne_nil_of_execute {limits : Limits} {resolution : Int} {commands : List Command}
    {comments : List Comment} {m : Machine}
    (h : execute limits resolution commands comments = .done m)
    (hcomments : ∀ c ∈ comments, c.text ≠ []) :
    ∀ p ∈ m.drawing.polygons.toList, ∀ text ∈ p.free.toList, text ≠ [] := by
  intro p hp text htext
  have hread : text ∈ m.drawing.polygons.toList.flatMap Polygon.reading :=
    List.mem_flatMap.mpr ⟨p, hp, List.mem_append_left _ htext⟩
  rw [reading_of_execute h] at hread
  obtain ⟨placement, hplaced, rfl⟩ := List.mem_map.mp hread
  cases placement with
  | comment c =>
    exact hcomments c ((sortOn_perm Comment.line comments).mem_iff.mp
      ((places_of_execute h).mem_waiting hplaced))
  | note text =>
    obtain hplaced | hplaced := List.mem_append.mp hplaced
    · obtain ⟨v, -, hv⟩ := List.mem_flatMap.mp hplaced
      exact v.note_ne_nil_of_placed hv
    · obtain ⟨c, -, hc⟩ := List.mem_map.mp hplaced
      cases hc

/-! ## Empty OpenSCAD texts -/

theorem Text.join_eq_nil_iff {glue : Text} (hglue : glue ≠ []) {ts : List Text} :
    Text.join glue ts = [] ↔ ts = [] ∨ ts = [[]] := by
  match ts with
  | [] => simp [Text.join]
  | [part] => simp [Text.join]
  | part :: next :: parts => simp [Text.join, hglue]

namespace Scad

/-- Geometry is written out as a `polygon` or a `circle`. -/
theorem exists_geometryLine (style : Style) {p : Polygon} (h : p.commentOnly = false) :
    ∃ line ∈ geometryLines style p, line ≠ [] := by
  have hpolygon : ∃ line ∈ polygonLines style p, line ≠ [] :=
    ⟨_, List.mem_cons_self, List.cons_ne_nil _ _⟩
  unfold geometryLines
  rw [h, if_neg Bool.false_ne_true]
  split
  · rename_i circle _
    split
    · exact ⟨_, List.mem_append_right _ List.mem_cons_self, List.cons_ne_nil _ _⟩
    · exact hpolygon
  · exact hpolygon

/-- A finished polygon has an empty block only if all it has is one empty comment. -/
theorem block_eq_nil_iff (style : Style) {p : Polygon} (h : p.Finished) :
    block style p = [] ↔ p.commentOnly = true ∧ p.free = #[[]] := by
  rw [block, Text.join_eq_nil_iff (List.cons_ne_nil _ _), blockLines]
  cases honly : p.commentOnly with
  | true =>
    have hlines : geometryLines style p = [] := by rw [geometryLines, if_pos honly]
    have hsome : p.free.toList ≠ [] := fun hn => (h.ofComments honly).2 (Array.toList_eq_nil_iff.mp hn)
    rw [hlines, List.append_nil, or_iff_right hsome, ← Array.toList_inj]
    exact (and_iff_right rfl).symm
  | false =>
    obtain ⟨line, hline, hne⟩ := exists_geometryLine style honly
    have hmem : line ∈ p.free.toList ++ geometryLines style p := List.mem_append_right _ hline
    refine iff_of_false ?_ fun hp => Bool.false_ne_true hp.1
    rintro (hn | hn)
    · exact List.ne_nil_of_mem hmem hn
    · rw [hn] at hmem
      exact hne (List.mem_singleton.mp hmem)

/-- The text is empty only if there are polygons and all their blocks are empty. -/
theorem generate_eq_nil_iff (style : Style) (ps : List Polygon) :
    generate style ps = [] ↔ ps ≠ [] ∧ ∀ p ∈ ps, block style p = [] := by
  cases ps with
  | nil => exact iff_of_false (List.cons_ne_nil _ _) fun h => h.1 rfl
  | cons p ps =>
    let blocks := ((p :: ps).map (block style)).filter (!·.isEmpty)
    -- The blocks that are joined are not empty.
    have hblocks : blocks ≠ [[]] := by
      intro hn
      have hmem : [] ∈ blocks := hn ▸ List.mem_singleton_self _
      exact absurd (List.mem_filter.mp hmem).2 (by decide)
    rw [generate, List.isEmpty_cons, if_neg Bool.false_ne_true,
      Text.join_eq_nil_iff (List.cons_ne_nil _ _), or_iff_left hblocks, List.filter_eq_nil_iff]
    simp

end Scad

/-! ## Points of a run -/

/-- The first point of a run. -/
def Configuration.start (resolution : Int) (commands : List Command) (comments : List Comment) :
    Configuration :=
  ⟨.start resolution comments, commands, []⟩

/-- Between two points of a run, a command has finished the polygon, and the circle on it comes from
that command. -/
def TracedBetween (limits : Limits) (a b : Configuration) (p : Polygon) (circle : Circle) : Prop :=
  ∃ c c' command rest added,
    Leads limits (.inl a) (.inl c) ∧ c.commands = command :: rest ∧ c.next limits = .inl c' ∧
      Leads limits (.inl c') (.inl b) ∧
      c'.machine.drawing.polygons.toList = c.machine.drawing.polygons.toList ++ added ∧ p ∈ added ∧
      Machine.FullTurn c.machine command.action c'.machine p circle

variable {limits : Limits} {a b c c' : Configuration}

theorem TracedBetween.next {p : Polygon} {circle : Circle} (h : TracedBetween limits a b p circle)
    (hnext : b.next limits = .inl c) : TracedBetween limits a c p circle := by
  obtain ⟨d, d', command, rest, added, hd, hcommands, hstep, hlater, hrest⟩ := h
  exact ⟨d, d', command, rest, added, hd, hcommands, hstep,
    hlater.trans (.head hnext (.refl _)), hrest⟩

/-- What commands preserve about the open polygon, while they finish others. -/
structure Machine.Tidy (m : Machine) : Prop where
  closed : m.PenUpClosed
  inked : m.Inked
  sound : m.drawing.Sound

theorem Machine.tidy_start (resolution : Int) (comments : List Comment) :
    (start resolution comments).Tidy := by
  refine ⟨penUpClosed_start resolution comments, inked_start resolution comments, ?_⟩
  rintro p ⟨⟩
  exact Polygon.sound_of_pinned_eq_empty rfl nofun

theorem Advance.tidy {v : Visit} {m : Machine} (h : Advance limits v m) (hv : v.before.Tidy) :
    m.Tidy :=
  ⟨h.penUpClosed hv.closed, h.inked hv.closed hv.inked, (h.finishes hv.closed hv.sound).1⟩

theorem Machine.Inked.back?_eq {m : Machine} (h : m.Inked) {p : Polygon}
    (hp : m.drawing.current = some p) (hpoints : p.points ≠ #[]) :
    p.points.back? = some m.turtle.position := by
  obtain ⟨block, -, hopen⟩ := h
  rw [hp] at hopen
  obtain ⟨hn, -⟩ | ⟨-, -, hlast⟩ := hopen
  · exact absurd hn hpoints
  · rw [← Array.getLast?_toList]
    exact hlast

/-- Finished polygons are never changed. -/
theorem Leads.polygons_prefix (h : Leads limits (.inl c) (.inl c')) (hc : c.machine.Tidy) :
    c.machine.drawing.polygons.toList <+: c'.machine.drawing.polygons.toList := by
  refine (h.preserves (P := fun m => m.Tidy ∧
    c.machine.drawing.polygons.toList <+: m.drawing.polygons.toList) ?_ ⟨hc, List.prefix_rfl⟩).2
  rintro v m hadvance ⟨htidy, hbefore⟩
  exact ⟨hadvance.tidy htidy,
    hbefore.trans (hadvance.finishes htidy.closed htidy.sound).2.isPrefix⟩

/-- Every finished polygon is in order, and a circle on it comes from an arc since the start. -/
theorem Leads.finished (h : Leads limits (.inl a) (.inl c)) (ha : a.machine.Tidy)
    (hnone : a.machine.drawing.polygons = #[]) :
    ∀ p ∈ c.machine.drawing.polygons.toList,
      p.Finished ∧ ∀ circle, p.circle = some circle → TracedBetween limits a c p circle := by
  refine (h.invariant (P := fun c => c.machine.Tidy ∧ ∀ p ∈ c.machine.drawing.polygons.toList,
    p.Finished ∧ ∀ circle, p.circle = some circle → TracedBetween limits a c p circle) ?_ ?_).2
  · refine ⟨ha, fun p hp => ?_⟩
    rw [hnone] at hp
    cases hp
  · rintro b b' hb hnext ⟨htidy, hall⟩
    have hold : ∀ p ∈ b.machine.drawing.polygons.toList, p.Finished ∧
        ∀ circle, p.circle = some circle → TracedBetween limits a b' p circle := fun p hp =>
      ⟨(hall p hp).1, fun circle hcircle => ((hall p hp).2 circle hcircle).next hnext⟩
    obtain hsame | ⟨command, rest, hcommands, hadvance⟩ := Configuration.advance_of_next hnext
    · rw [hsame]
      exact ⟨htidy, hold⟩
    · refine ⟨hadvance.tidy htidy, fun p hp => ?_⟩
      obtain ⟨-, added, hadded, hnew⟩ := hadvance.finishes htidy.closed htidy.sound
      rw [hadded] at hp
      obtain hp | hp := List.mem_append.mp hp
      · exact hold p hp
      · obtain ⟨hfinished, hcircles⟩ := hnew p hp
        exact ⟨hfinished, fun circle hcircle => ⟨b, b', command, rest, added, hb, hcommands, hnext,
          .refl _, hadded, hp, hcircles circle hcircle⟩⟩

/-! ## The end of a run -/

theorem Visit.polygons_ready (v : Visit) :
    v.ready.drawing.polygons = v.before.drawing.polygons := by
  show (v.before.canvas.beforeCommand v.command.kind v.command.line v.before.turtle.penDown
    v.before.turtle.position).drawing.polygons = _
  unfold Canvas.beforeCommand
  split
  · rfl
  · exact (Keeps.placeBefore _ v.command.kind _).polygons

section Execute

variable {resolution : Int} {commands : List Command} {comments : List Comment}

theorem Leads.tidy (h : Leads limits (.inl (.start resolution commands comments)) (.inl c)) :
    c.machine.Tidy :=
  h.preserves (fun _ _ => Advance.tidy) (Machine.tidy_start resolution comments)

/-- The end of a run adds at most a polygon without a circle to those of its last point. -/
theorem grows_execute (hc : c.machine.Tidy)
    (h : c.next limits = .inr (runCommands limits commands (.start resolution comments))) :
    c.machine.drawing.Grows Polygon.Plain
      (execute limits resolution commands comments).machine.drawing := by
  unfold execute
  obtain hdone | ⟨command, rest, failure, m, -, hfailed, hm⟩ := Configuration.outcome_of_next h
  · rw [hdone]
    exact (c.machine.canvas.finishes_finish hc.sound).2
  · rw [hfailed]
    refine Drawing.grows_of_eq ?_
    obtain rfl | ⟨trace, rfl⟩ := hm
    · rfl
    · exact Visit.polygons_ready ⟨command, c.machine⟩

/-- From each point that a run passes through, its steps lead on to a last one. -/
theorem Leads.exists_last
    (h : Leads limits (.inl (.start resolution commands comments)) (.inl c)) :
    ∃ c', Leads limits (.inl c) (.inl c') ∧ c'.machine.drawing.Grows Polygon.Plain
      (execute limits resolution commands comments).machine.drawing := by
  obtain ⟨c', hlast, hnext⟩ :=
    (h.onward (leads_runCommands limits commands (.start resolution comments))).last
  exact ⟨c', hlast, grows_execute (h.trans hlast).tidy hnext⟩

theorem Leads.polygons_prefix_execute
    (h : Leads limits (.inl (.start resolution commands comments)) (.inl c)) :
    c.machine.drawing.polygons.toList <+:
      (execute limits resolution commands comments).machine.drawing.polygons.toList := by
  obtain ⟨c', hlast, hgrows⟩ := h.exists_last
  exact (hlast.polygons_prefix h.tidy).trans hgrows.isPrefix

theorem finished_of_execute (limits : Limits) (resolution : Int) (commands : List Command)
    (comments : List Comment) :
    ∀ p ∈ (execute limits resolution commands comments).machine.drawing.polygons.toList,
      p.Finished ∧ ∀ circle, p.circle = some circle →
        ∃ c, TracedBetween limits (.start resolution commands comments) c p circle := by
  intro p hp
  have hfirst : Leads limits (.inl (.start resolution commands comments))
      (.inl (.start resolution commands comments)) := .refl _
  obtain ⟨c, hlast, added, hadded, hplain⟩ := hfirst.exists_last
  rw [hadded] at hp
  obtain hp | hp := List.mem_append.mp hp
  · obtain ⟨hfinished, hcircles⟩ :=
      hlast.finished (Machine.tidy_start resolution comments) rfl p hp
    exact ⟨hfinished, fun circle hcircle => ⟨c, hcircles circle hcircle⟩⟩
  · obtain ⟨hfinished, hnone⟩ := hplain p hp
    refine ⟨hfinished, fun circle hcircle => ?_⟩
    rw [hnone] at hcircle
    cases hcircle

/-- A run has an empty OpenSCAD text only if all that its polygons have is one empty comment each. -/
theorem generate_eq_nil_iff_of_execute {m : Machine}
    (h : execute limits resolution commands comments = .done m) (style : Scad.Style) :
    Scad.generate style m.drawing.polygons.toList = [] ↔ m.drawing.polygons.toList ≠ [] ∧
      ∀ p ∈ m.drawing.polygons.toList, p.commentOnly = true ∧ p.free = #[[]] := by
  have hfinished := finished_of_execute limits resolution commands comments
  rw [h] at hfinished
  rw [Scad.generate_eq_nil_iff]
  exact and_congr_right fun _ => forall₂_congr fun p hp =>
    Scad.block_eq_nil_iff style (hfinished p hp).1

end Execute

/-- At every point of a run with a resolution of at least one: with the pen up no polygon is open, an
open polygon with points ends at the turtle, the resolution is at least one and numbers are finite, and
every finished polygon is in order, with the arc that its circle comes from, and stays as it is at all
later points. The same holds of the polygons when the run has ended or failed. If it has ended, its
OpenSCAD text is empty only if there are polygons and all that each of them has is one empty comment.
That takes a comment without a text; comments that are read from a source always have one. -/
theorem polygons_in_order (limits : Limits) {resolution : Int} (hresolution : 1 ≤ resolution)
    (commands : List Command) (comments : List Comment) :
    let first := Configuration.start resolution commands comments
    let final := (execute limits resolution commands comments).machine
    (∀ c, Leads limits (.inl first) (.inl c) →
      (c.machine.turtle.penDown = false → c.machine.drawing.current = none) ∧
      (∀ p, c.machine.drawing.current = some p → p.points ≠ #[] →
        p.points.back? = some c.machine.turtle.position) ∧
      1 ≤ c.machine.turtle.resolution ∧
      (∀ name v, (name, Value.number v) ∈ c.machine.bindings.entries → v.isFinite = true) ∧
      (∀ p ∈ c.machine.drawing.polygons.toList,
        p.Finished ∧ ∀ circle, p.circle = some circle → TracedBetween limits first c p circle) ∧
      (∀ c', Leads limits (.inl c) (.inl c') →
        c.machine.drawing.polygons.toList <+: c'.machine.drawing.polygons.toList) ∧
      c.machine.drawing.polygons.toList <+: final.drawing.polygons.toList) ∧
    (∀ p ∈ final.drawing.polygons.toList,
      p.Finished ∧ ∀ circle, p.circle = some circle → ∃ c, TracedBetween limits first c p circle) ∧
    (∀ m, execute limits resolution commands comments = .done m → ∀ style,
      (Scad.generate style m.drawing.polygons.toList = [] ↔ m.drawing.polygons.toList ≠ [] ∧
        ∀ p ∈ m.drawing.polygons.toList, p.commentOnly = true ∧ p.free = #[[]]) ∧
      ((∀ comment ∈ comments, comment.text ≠ []) →
        Scad.generate style m.drawing.polygons.toList ≠ [])) ∧
    ∀ firstLine source, ∀ comment ∈ (parse firstLine source).comments, comment.text ≠ [] := by
  refine ⟨fun c hc => ?_, finished_of_execute limits resolution commands comments,
    fun m hm style => ?_, fun _ _ _ => text_ne_nil_of_parse⟩
  · have htidy := hc.tidy
    have hregular : c.machine.Regular :=
      hc.preserves (fun _ _ => Advance.regular) (Machine.regular_start hresolution comments)
    exact ⟨htidy.closed, fun p => htidy.inked.back?_eq, hregular.resolution, hregular.numbers,
      hc.finished (Machine.tidy_start resolution comments) rfl,
      fun c' hc' => hc'.polygons_prefix htidy, hc.polygons_prefix_execute⟩
  · have hempty := generate_eq_nil_iff_of_execute hm style
    refine ⟨hempty, fun hcomments hn => ?_⟩
    obtain ⟨hsome, hall⟩ := hempty.mp hn
    obtain ⟨p, hp⟩ := List.exists_mem_of_ne_nil _ hsome
    refine free_ne_nil_of_execute hm hcomments p hp [] ?_ rfl
    rw [(hall p hp).2]
    exact List.mem_singleton_self _

/-- A circle around the origin with a comment above it, and a note that is written with the pen up. -/
theorem polygons_in_order_of_circle_and_note :
    let commands : List Command := [⟨.arc (.number (-360)) (.number 2), 2⟩, ⟨.penUp, 3⟩,
      ⟨.print [.text "a".toList], 4⟩]
    let comments : List Comment := [⟨"# one".toList, 1, none⟩]
    let first := Configuration.start 4 commands comments
    1 ≤ (4 : Int) ∧ ∃ m, execute {} 4 commands comments = .done m ∧
      m.drawing.polygons.toList.map (·.commentOnly) = [false, true] ∧
      (∀ p ∈ m.drawing.polygons.toList, p.Finished) ∧
      (∃ p ∈ m.drawing.polygons.toList, p.points.size = 4 ∧
        ∃ c, TracedBetween {} first c p ⟨.origin, 2, 4⟩) ∧
      ∀ style, Scad.generate style m.drawing.polygons.toList ≠ [] := by
  intro commands comments first
  obtain ⟨m, hm⟩ : ∃ m, execute {} 4 commands comments = .done m :=
    Outcome.exists_of_isDone (by decide +kernel)
  have hkinds : (execute {} 4 commands comments).machine.drawing.polygons.toList.map
      (·.commentOnly) = [false, true] := by
    decide +kernel
  have hcircle : ∃ p ∈ (execute {} 4 commands comments).machine.drawing.polygons.toList,
      p.points.size = 4 ∧ p.circle = some ⟨.origin, 2, 4⟩ := by
    decide +kernel
  have hresolution : 1 ≤ (4 : Int) := by decide
  obtain ⟨-, hfinished, htext, -⟩ := polygons_in_order {} hresolution commands comments
  rw [hm] at hkinds hcircle hfinished
  obtain ⟨p, hp, hsize, hp'⟩ := hcircle
  exact ⟨hresolution, m, hm, hkinds, fun q hq => (hfinished q hq).1,
    ⟨p, hp, hsize, (hfinished p hp).2 _ hp'⟩, fun style => (htext m hm style).2 (by decide)⟩

/-- A run without commands over one empty comment ends with an empty text. -/
theorem generate_eq_nil_of_empty_comment :
    let comments : List Comment := [⟨[], 1, none⟩]
    ∃ m, execute {} 40 [] comments = .done m ∧ m.drawing.polygons.toList.map (·.free) = [#[[]]] ∧
      Scad.generate {} m.drawing.polygons.toList = [] := by
  intro comments
  obtain ⟨m, hm⟩ : ∃ m, execute {} 40 [] comments = .done m :=
    Outcome.exists_of_isDone (by decide +kernel)
  have hfree : (execute {} 40 [] comments).machine.drawing.polygons.toList.map (·.free) =
      [#[[]]] := by
    decide +kernel
  have htext : Scad.generate {} (execute {} 40 [] comments).machine.drawing.polygons.toList = [] := by
    decide +kernel
  rw [hm] at hfree htext
  exact ⟨m, hm, hfree, htext⟩

end TurtleTrace
