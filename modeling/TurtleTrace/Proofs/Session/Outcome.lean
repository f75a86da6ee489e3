import TurtleTrace.Proofs.Drawing.Statistics
import TurtleTrace.Proofs.Script.Locality
import TurtleTrace.Proofs.Session.History

/-!
# How the processing of a script ends

Processing a script settles the reply, the diagnostics, the result, its text and the machine behind
bounding box and geometry in different places. They agree: when the commands that could be read run to
their end, all of them are about what was drawn, and when the run fails, all of them are about an empty
run, with one more diagnostic.

* `Session.run`: the run of a script.
* `Session.settled`: the session that a run leaves.
-/

namespace TurtleTrace

set_option autoImplicit false

/-! ## What reading reports -/

/-- Reading reports errors of the text: they are neither fatal nor about a run. -/
theorem severity_of_parse {firstLine : Int} {source : Text} {d : Diagnostic}
    (h : d ∈ (parse firstLine source).diagnostics) : d.severity = .error ∧ d.category ≠ .runtime := by
  rw [diagnostics_parse] at h
  obtain h | h := List.mem_append.mp h
  · unfold Cleaned.diagnostics at h
    split at h
    · cases h
    · rw [List.mem_singleton.mp h]
      exact ⟨rfl, nofun⟩
  · obtain ⟨s, -, hs⟩ := List.mem_filterMap.mp h
    unfold Statement.report? at hs
    split at hs
    · cases hs
    · rename_i fault _
      cases hs
      exact ⟨rfl, by cases fault <;> exact nofun⟩

theorem parseInto_empty (firstLine : Int) (source : Text) :
    parseInto .empty firstLine source =
      (parse firstLine source, ⟨(parse firstLine source).diagnostics⟩) :=
  parseInto_eq .empty firstLine source

theorem hasErrors_parse (firstLine : Int) (source : Text) :
    DiagnosticLog.hasErrors ⟨(parse firstLine source).diagnostics⟩ =
      !(parse firstLine source).diagnostics.isEmpty := by
  unfold DiagnosticLog.hasErrors
  dsimp only
  cases hds : (parse firstLine source).diagnostics with
  | nil => rfl
  | cons d ds =>
    have hd : d ∈ (parse firstLine source).diagnostics := by
      rw [hds]
      exact List.mem_cons_self
    simp [(severity_of_parse hd).1]

theorem hasFatal_parse (firstLine : Int) (source : Text) :
    DiagnosticLog.hasFatal ⟨(parse firstLine source).diagnostics⟩ = false := by
  unfold DiagnosticLog.hasFatal
  rw [List.any_eq_false]
  intro d hd
  simp [(severity_of_parse hd).1]

/-! ## Runs of scripts -/

namespace Session

/-- The run of the commands that can be read from a script. -/
def run (s : Session) (text : Text) : Outcome :=
  execute s.limits s.settings.resolution (parse 1 text).commands (parse 1 text).comments

/-- The session that the run of a script leaves, with the diagnostics, the machine and the result. -/
def settled (s : Session) (text : Text) (diagnostics : List Diagnostic) (machine : Machine)
    (result : Result) : Session :=
  { settings := s.settings, log := ⟨diagnostics⟩, machine, parsed := some (parse 1 text), result
    scad := Scad.generate s.style result.polygons.toList, text
    successful := !DiagnosticLog.hasErrors ⟨diagnostics⟩ }

variable {s s' : Session} {text : Text} {ok : Bool}

/-- Processing comes back when the run ends or the script fails, not when arithmetic does. -/
theorem settled_of_process (h : s.perform (.process text) = (s', .ok ok)) :
    ok = s'.successful ∧
      ((∃ m, s.run text = .done m ∧
          s' = s.settled text (parse 1 text).diagnostics m m.drawing.result) ∨
        ∃ fault line m, s.run text = .failed (.script fault line) m ∧
          s' = s.settled text ((parse 1 text).diagnostics ++ [runtimeDiagnostic text fault line])
            (.idle s.settings.resolution) {}) := by
  have hrun : execute s.limits s.settings.resolution (parse 1 text).commands (parse 1 text).comments =
      s.run text := rfl
  simp only [perform, process, beginText, parseInto_empty, limits] at h
  simp only [limits] at hrun
  rw [hrun] at h
  cases ho : s.run text with
  | done m =>
    simp only [ho, conclude, Prod.mk.injEq, Except.ok.injEq] at h
    obtain ⟨rfl, rfl⟩ := h
    exact ⟨rfl, .inl ⟨m, rfl, rfl⟩⟩
  | failed failure m =>
    cases failure with
    | script fault line =>
      simp only [ho, conclude, Prod.mk.injEq, Except.ok.injEq] at h
      obtain ⟨rfl, rfl⟩ := h
      exact ⟨rfl, .inr ⟨fault, line, m, rfl, rfl⟩⟩
    | arithmetic fault =>
      simp only [ho, Prod.mk.injEq] at h
      cases h.2

end Session

/-- When processing a script comes back, it replies whether the script could be read and was run, and
all that the session tells is about the same run: the one of the commands that could be read, or an
empty one with a fatal diagnostic. -/
theorem outcome_of_process {s s' : Session} {text : Text} {ok : Bool}
    (h : s.perform (.process text) = (s', .ok ok)) :
    (ok = true ↔ Session.validates text = true ∧ ∃ m, s.run text = .done m) ∧
      (s'.answer .hasFatal = true ↔
        ∃ fault line m, s.run text = .failed (.script fault line) m) ∧
      (∀ d ∈ (parse 1 text).diagnostics, d.severity ≠ .fatal ∧ d.category ≠ .runtime) ∧
      (s'.answer .diagnostics).Perm s'.log.entries ∧
      match s.run text with
      | .done m =>
        s'.log.entries = (parse 1 text).diagnostics ∧
          s'.result = m.drawing.result ∧
          s'.answer .scad = Scad.generate s.style m.drawing.polygons.toList ∧
          s'.answer .geometry = s'.result.statistics ∧
          s'.result.IsBoundedBy (s'.answer .boundingBox)
      | .failed (.script fault _) _ =>
        (∃ d : Diagnostic, s'.log.entries = (parse 1 text).diagnostics ++ [d] ∧
          d.message = fault.message ∧ d.category = .runtime ∧ d.severity = .fatal) ∧
          ∃ empty, execute s.limits s.settings.resolution [] [] = .done empty ∧
            s'.result = empty.drawing.result ∧
            s'.answer .geometry = empty.drawing.statistics ∧
            s'.answer .boundingBox = empty.drawing.boundingBox ∧
            s'.answer .scad = "// No polygons".toList
      | .failed (.arithmetic _) _ => False := by
  have hread : ∀ d ∈ (parse 1 text).diagnostics, d.severity ≠ .fatal ∧ d.category ≠ .runtime := by
    intro d hd
    obtain ⟨hsevere, hcategory⟩ := severity_of_parse hd
    exact ⟨by rw [hsevere]; exact nofun, hcategory⟩
  obtain ⟨rfl, ⟨m, hrun, rfl⟩ | ⟨fault, line, m, hrun, rfl⟩⟩ := Session.settled_of_process h
  · have hreply : (!DiagnosticLog.hasErrors ⟨(parse 1 text).diagnostics⟩) = Session.validates text := by
      rw [hasErrors_parse, Bool.not_not]
      rfl
    rw [hrun]
    refine ⟨?_, ?_, hread, DiagnosticLog.sorted_perm _, rfl, rfl, rfl, ?_, ?_⟩
    · simp [Session.settled, hreply]
    · simp [Session.answer, Session.settled, hasFatal_parse]
    · exact (tallied_of_execute hrun).statistics_eq
    · exact isBoundedBy_boundingBox m.drawing
  · rw [hrun]
    refine ⟨?_, ?_, hread, DiagnosticLog.sorted_perm _, ⟨_, rfl, rfl, rfl, rfl⟩,
      ⟨_, rfl, rfl, rfl, rfl, rfl⟩⟩
    · simp [Session.settled, DiagnosticLog.hasErrors, Session.runtimeDiagnostic,
        Diagnostic.onWholeLine]
    · simp [Session.answer, Session.settled, DiagnosticLog.hasFatal, Session.runtimeDiagnostic,
        Diagnostic.onWholeLine]

/-- The first statement cannot be read and the last one fails. -/
theorem outcome_of_unreadable_and_failing :
    ∃ fresh s', Session.open? .default = .ok fresh ∧
      fresh.perform (.process "FD (\nSETX 3\nFD :x".toList) = (s', .ok false) ∧
      s'.answer .hasFatal = true ∧
      ∃ fault line m, fresh.run "FD (\nSETX 3\nFD :x".toList = .failed (.script fault line) m ∧
        (∃ d : Diagnostic,
          s'.log.entries = (parse 1 "FD (\nSETX 3\nFD :x".toList).diagnostics ++ [d] ∧
            d.message = fault.message ∧ d.category = .runtime ∧ d.severity = .fatal) ∧
        s'.answer .scad = "// No polygons".toList := by
  let fresh : Session := { settings := .default, machine := .idle 40 }
  let s' : Session := (fresh.perform (.process "FD (\nSETX 3\nFD :x".toList)).1
  have hprocess : fresh.perform (.process "FD (\nSETX 3\nFD :x".toList) = (s', .ok false) :=
    Prod.ext rfl (by decide +kernel)
  have hfatal : s'.answer .hasFatal = true := by decide +kernel
  obtain ⟨-, hfailed, -, -, htold⟩ := outcome_of_process hprocess
  obtain ⟨fault, line, m, hrun⟩ := hfailed.mp hfatal
  rw [hrun] at htold
  obtain ⟨hreported, empty, -, -, -, -, hscad⟩ := htold
  exact ⟨fresh, s', rfl, hprocess, hfatal, fault, line, m, hrun, hreported, hscad⟩

end TurtleTrace
