import TurtleTrace.Proofs.Drawing.Statistics

/-!
# Segments by line

A drawing is built by edits in any order: segments are logged, polygons opened, changed and finished,
markers set, and all is cleared. The index of lines is only ever added to, next to the log; after all
edits it still agrees with a scan of the log.

* `Edit`, `Drawing.ofEdits`: the edits, and the drawing after a row of them.
* `LineIndex.Partitions`: the rows of an index share out the numbers below a bound.
* `Drawing.Indexed`: the invariant of edits.
-/

namespace TurtleTrace

set_option autoImplicit false

/-! ## Edits -/

/-- What can be done to a drawing. -/
inductive Edit where
  | segment (start stop : Point) (line : Int) (penDown : Bool) (arcGroup : Option Int)
  | startPolygon (seed : Option Point)
  | ensurePolygon (position : Point)
  | ensureTarget
  | point (point position : Point)
  | changePolygon (change : Polygon → Polygon)
  | dropPolygon
  | finishPolygon (commentOnly : Bool) (circle : Option Circle)
  | marker (position : Point) (comment : Option Text)
  | clear

namespace Drawing

def edit (d : Drawing) : Edit → Drawing
  | .segment start stop line penDown arcGroup => d.addSegment start stop line penDown arcGroup
  | .startPolygon seed => d.startPolygon seed
  | .ensurePolygon position => d.ensurePolygon position
  | .ensureTarget => d.ensureTarget
  | .point point position => d.addPoint point position
  | .changePolygon change => d.onCurrent change
  | .dropPolygon => { d with current := none }
  | .finishPolygon commentOnly circle => d.finishPolygon commentOnly circle
  | .marker position comment => d.addMarker position comment
  | .clear => .empty

/-- The drawing after a row of edits. -/
def ofEdits (edits : List Edit) : Drawing := edits.foldl edit .empty

end Drawing

/-! ## The rows of an index -/

namespace LineIndex

/-- The numbers below a bound stand in the rows of the index, each once in all; no row is empty, and no
line has two rows. -/
structure Partitions (index : LineIndex) (bound : Nat) : Prop where
  covers : (index.rows.flatMap (·.2.toList)).Perm (List.range bound)
  filled : ∀ row ∈ index.rows, row.2 ≠ #[]
  once : (index.rows.map Prod.fst).Nodup

theorem flatMap_addTo (line : Int) (id : Nat) (rows : List (Int × Array Nat)) :
    ((addTo line id rows).flatMap (·.2.toList)).Perm (rows.flatMap (·.2.toList) ++ [id]) := by
  induction rows with
  | nil => exact .refl _
  | cons row rest ih =>
    obtain ⟨key, ids⟩ := row
    unfold addTo
    split
    · simp only [List.flatMap_cons, Array.toList_push, List.append_assoc]
      exact List.Perm.append_left _ List.perm_append_comm
    · simp only [List.flatMap_cons, List.append_assoc]
      exact ih.append_left _

theorem filled_addTo {line : Int} {id : Nat} {rows : List (Int × Array Nat)}
    (h : ∀ row ∈ rows, row.2 ≠ #[]) : ∀ row ∈ addTo line id rows, row.2 ≠ #[] := by
  induction rows with
  | nil => exact List.forall_mem_singleton.mpr (by simp)
  | cons first rest ih =>
    obtain ⟨key, ids⟩ := first
    obtain ⟨hfirst, hrest⟩ := List.forall_mem_cons.mp h
    unfold addTo
    split
    · exact List.forall_mem_cons.mpr ⟨Array.push_ne_empty, hrest⟩
    · exact List.forall_mem_cons.mpr ⟨hfirst, ih hrest⟩

end LineIndex

/-! ## The invariant -/

namespace Drawing

variable {d d' : Drawing}

/-- The counter is in step with the log, the segments are numbered in the order of the log, the index
has the numbers of the segments of each line in this order, and its rows hold all of them. -/
structure Indexed (d : Drawing) : Prop where
  counted : d.counter = d.segments.size
  numbered : d.segments.toList.map (·.id) = List.range d.segments.size
  ids : ∀ line, (d.lines.ids line).toList = (d.segments.toList.filter (·.line == line)).map (·.id)
  covers : (d.lines.rows.flatMap (·.2.toList)).Perm (List.range d.segments.size)
  filled : ∀ row ∈ d.lines.rows, row.2 ≠ #[]

theorem indexed_empty : Drawing.empty.Indexed :=
  ⟨rfl, rfl, fun _ => rfl, .refl _, fun _ h => absurd h List.not_mem_nil⟩

theorem Indexed.addSegment (h : d.Indexed) (p q : Point) (line : Int) (penDown : Bool)
    (group : Option Int) : (d.addSegment p q line penDown group).Indexed := by
  have hsegments : (d.addSegment p q line penDown group).segments.toList =
      d.segments.toList ++ [⟨d.counter, line, p, q, penDown, group⟩] := Array.toList_push
  have hsize : (d.addSegment p q line penDown group).segments.size = d.segments.size + 1 :=
    Array.size_push _
  refine ⟨?_, ?_, fun other => ?_, ?_, LineIndex.filled_addTo h.filled⟩
  · rw [hsize, ← h.counted]
    rfl
  · rw [hsegments, hsize, List.map_append, h.numbered, List.range_succ, h.counted]
    rfl
  · have hids : (d.addSegment p q line penDown group).lines.ids other =
        if other = line then (d.lines.ids line).push d.counter else d.lines.ids other :=
      LineIndex.ids_add _ _ _ _
    rw [hids, hsegments, List.filter_append, List.map_append, ← h.ids other]
    by_cases he : other = line
    · simp [he]
    · simp [he, Ne.symm he]
  · have hcovers := h.covers
    rw [← h.counted] at hcovers
    rw [hsize, List.range_succ, ← h.counted]
    exact (LineIndex.flatMap_addTo _ _ _).trans (hcovers.append_right _)

/-- A drawing without its polygons and markers: segments with their index, and lengths. -/
def trace (d : Drawing) : Drawing := { d.log with markers := #[] }

theorem Indexed.of_trace (h : d.Indexed) (htrace : d'.trace = d.trace) : d'.Indexed := by
  have hkept : d.trace.Indexed := ⟨h.counted, h.numbered, h.ids, h.covers, h.filled⟩
  rw [← htrace] at hkept
  exact ⟨hkept.counted, hkept.numbered, hkept.ids, hkept.covers, hkept.filled⟩

theorem Tallied.of_trace (h : d.Tallied) (htrace : d'.trace = d.trace) : d'.Tallied := by
  have hkept : d.trace.Tallied := ⟨h.total, h.penDown, h.penUp, h.once, h.lines⟩
  rw [← htrace] at hkept
  exact ⟨hkept.total, hkept.penDown, hkept.penUp, hkept.once, hkept.lines⟩

theorem trace_of_log (h : d'.log = d.log) : d'.trace = d.trace := by rw [trace, trace, h]

/-- An edit logs a segment, starts over, or leaves segments and index alone. -/
theorem edit_cases (d : Drawing) (e : Edit) :
    (∃ p q line penDown group, d.edit e = d.addSegment p q line penDown group) ∨
      d.edit e = .empty ∨ (d.edit e).trace = d.trace := by
  cases e with
  | segment p q line penDown group => exact .inl ⟨p, q, line, penDown, group, rfl⟩
  | clear => exact .inr (.inl rfl)
  | startPolygon | changePolygon | dropPolygon | marker => exact .inr (.inr rfl)
  | ensurePolygon position => exact .inr (.inr (trace_of_log (d.log_ensurePolygon position)))
  | ensureTarget => exact .inr (.inr (trace_of_log d.log_ensureTarget))
  | point p position => exact .inr (.inr (trace_of_log (d.log_addPoint p position)))
  | finishPolygon commentOnly circle =>
    exact .inr (.inr (trace_of_log (d.log_finishPolygon commentOnly circle)))

theorem indexed_and_tallied_edit (h : d.Indexed ∧ d.Tallied) (e : Edit) :
    (d.edit e).Indexed ∧ (d.edit e).Tallied := by
  obtain ⟨p, q, line, penDown, group, he⟩ | he | htrace := d.edit_cases e
  · rw [he]
    exact ⟨h.1.addSegment p q line penDown group, h.2.addSegment p q line penDown group⟩
  · rw [he]
    exact ⟨indexed_empty, tallied_empty⟩
  · exact ⟨h.1.of_trace htrace, h.2.of_trace htrace⟩

theorem indexed_and_tallied_ofEdits (edits : List Edit) :
    (ofEdits edits).Indexed ∧ (ofEdits edits).Tallied := by
  unfold ofEdits
  generalize hd : Drawing.empty = d
  have h : d.Indexed ∧ d.Tallied := hd ▸ ⟨indexed_empty, tallied_empty⟩
  clear hd
  induction edits generalizing d with
  | nil => exact h
  | cons e edits ih => exact ih (d.edit e) (indexed_and_tallied_edit h e)

/-! ## Questions -/

/-- The log is numbered: a number is that of the segment at its place. -/
theorem Indexed.getElem?_iff (h : d.Indexed) {n : Nat} {s : Segment} :
    d.segments[n]? = some s ↔ s ∈ d.segments.toList ∧ s.id = n := by
  have hnumber : ∀ i (hi : i < d.segments.toList.length), d.segments.toList[i].id = i := by
    intro i hi
    have hid : (d.segments.toList.map (·.id))[i]? = some d.segments.toList[i].id := by
      rw [List.getElem?_map, List.getElem?_eq_getElem hi]
      rfl
    rw [h.numbered, List.getElem?_range (by simpa using hi)] at hid
    exact (Option.some.inj hid).symm
  rw [← Array.getElem?_toList]
  constructor
  · intro hs
    obtain ⟨hn, rfl⟩ := List.getElem?_eq_some_iff.mp hs
    exact ⟨List.getElem_mem hn, hnumber n hn⟩
  · rintro ⟨hs, rfl⟩
    obtain ⟨i, hi, rfl⟩ := List.mem_iff_getElem.mp hs
    rw [hnumber i hi, List.getElem?_eq_getElem hi]

/-- The index finds what a scan of the log finds. -/
theorem Indexed.segmentsOfLine_eq (h : d.Indexed) (line : Int) :
    d.segmentsOfLine line = d.segments.toList.filter (·.line == line) := by
  have hfound : ∀ s ∈ d.segments.toList.filter (·.line == line), d.segments[s.id]? = some s :=
    fun s hs => h.getElem?_iff.mpr ⟨(List.mem_filter.mp hs).1, rfl⟩
  rw [segmentsOfLine, h.ids, List.filterMap_map]
  exact (List.filterMap_congr hfound).trans List.filterMap_some

theorem Indexed.mem_ids_iff (h : d.Indexed) {n : Nat} {line : Int} :
    n ∈ (d.lines.ids line).toList ↔ ∃ s ∈ d.segments.toList, s.id = n ∧ s.line = line := by
  rw [h.ids, List.mem_map]
  constructor
  · rintro ⟨s, hs, hn⟩
    obtain ⟨hs, hline⟩ := List.mem_filter.mp hs
    exact ⟨s, hs, hn, beq_iff_eq.mp hline⟩
  · rintro ⟨s, hs, hn, hline⟩
    exact ⟨s, List.mem_filter.mpr ⟨hs, beq_iff_eq.mpr hline⟩, hn⟩

/-- A scan of the log for a number finds the line whose row holds the number. -/
theorem Indexed.lineOfSegment?_eq_some_iff (h : d.Indexed) {session : Session}
    (hresult : session.result = d.result) {id line : Int} :
    session.lineOfSegment? id = some line ↔ ∃ n ∈ (d.lines.ids line).toList, (n : Int) = id := by
  have hsegments : session.result.segments = d.segments := by rw [hresult]; rfl
  rw [Session.lineOfSegment?, hsegments, Option.map_eq_some_iff]
  constructor
  · rintro ⟨s, hs, rfl⟩
    have hid := List.find?_some hs
    exact ⟨s.id, h.mem_ids_iff.mpr ⟨s, List.mem_of_find?_eq_some hs, rfl, rfl⟩, beq_iff_eq.mp hid⟩
  · rintro ⟨n, hn, rfl⟩
    obtain ⟨s, hs, rfl, rfl⟩ := h.mem_ids_iff.mp hn
    cases hfind : d.segments.toList.find? fun segment => (segment.id : Int) == (s.id : Int) with
    | none =>
      have hmiss := List.find?_eq_none.mp hfind s hs
      exact absurd (beq_self_eq_true _) hmiss
    | some found =>
      -- The number is that of one segment only.
      have hid : found.id = s.id := by
        have hsame := List.find?_some hfind
        exact Int.ofNat.inj (beq_iff_eq.mp hsame)
      have hfound := h.getElem?_iff.mpr ⟨List.mem_of_find?_eq_some hfind, hid⟩
      rw [h.getElem?_iff.mpr ⟨hs, rfl⟩] at hfound
      exact ⟨found, rfl, by rw [Option.some.inj hfound]⟩

theorem Indexed.partitions (h : d.Indexed) (htallied : d.Tallied) :
    d.lines.Partitions d.segments.size :=
  ⟨h.covers, h.filled, htallied.once⟩

end Drawing

/-- After any edits the index of lines agrees with a scan of the log: for every line it gives the
segments of the line in the order of the log, as a session does that filters them. The counter is in
step with the log, and the segments are numbered in its order. The rows of the index share out these
numbers, the statistics count the different lines of the segments, and looking up a number gives the
line whose row holds it, and nothing if no row does. -/
theorem line_index_agrees_with_scan (edits : List Edit) (session : Session) :
    let d := Drawing.ofEdits edits
    let asked : Session := { session with result := d.result }
    (∀ line, d.segmentsOfLine line = d.segments.toList.filter (·.line == line)) ∧
    (∀ line, asked.segmentsOfLine line = d.segmentsOfLine line) ∧
    d.counter = d.segments.size ∧
    d.segments.toList.map (·.id) = List.range d.segments.size ∧
    d.lines.Partitions d.segments.size ∧
    d.statistics.lines = (d.segments.toList.map (·.line)).toFinset.card ∧
    ∀ id line, asked.lineOfSegment? id = some line ↔
      ∃ n ∈ (d.lines.ids line).toList, (n : Int) = id := by
  intro d asked
  obtain ⟨hindexed, htallied⟩ := Drawing.indexed_and_tallied_ofEdits edits
  refine ⟨hindexed.segmentsOfLine_eq, fun line => (hindexed.segmentsOfLine_eq line).symm,
    hindexed.counted, hindexed.numbered, hindexed.partitions htallied, ?_,
    fun id line => hindexed.lineOfSegment?_eq_some_iff rfl⟩
  rw [htallied.statistics_eq]
  rfl

end TurtleTrace
