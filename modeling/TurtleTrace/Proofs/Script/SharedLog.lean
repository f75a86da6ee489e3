import Mathlib.Data.List.Forall2
import TurtleTrace.Proofs.Script.Locality

/-!
# Reading with a shared log

Several scripts may be read one after the other with the same log. No script shows in what is read
from another: each is read as if it were alone, and the log only grows by what is reported about it.
Within a script the statements are as separate: each gives its command or its diagnostic.

* `parseSeries`: reads scripts in order, handing the log on.
* `Statement.Gives`: what a statement can give.
-/

namespace TurtleTrace

set_option autoImplicit false

/-! ## Statements -/

/-- What a statement gives: a command on its first line, or a diagnostic over its whole span. -/
inductive Statement.Gives (s : Statement) : Command ⊕ Diagnostic → Prop where
  | command {action : Action} (read : s.action = .ok action) : Gives s (.inl ⟨action, s.start.line⟩)
  | diagnostic {fault : StatementFault} (unread : s.action = .error fault) :
      Gives s (.inr ⟨fault.message, s.span, fault.category, .error⟩)

def Statement.given (s : Statement) : Command ⊕ Diagnostic :=
  match s.action with
  | .ok action => .inl ⟨action, s.start.line⟩
  | .error fault => .inr (s.diagnostic fault)

theorem Statement.gives_given (s : Statement) : s.Gives s.given := by
  unfold given
  split
  · rename_i read
    exact .command read
  · rename_i unread
    exact .diagnostic unread

theorem Statement.getLeft?_given (s : Statement) : s.given.getLeft? = s.command.toOption := by
  unfold given command
  cases s.action with
  | ok action => rfl
  | error fault => rfl

theorem Statement.getRight?_given (s : Statement) : s.given.getRight? = s.report? := by
  unfold given report? command
  cases s.action with
  | ok action => rfl
  | error fault => rfl

/-- Taking the comments out reports at most that the last of them has no end. -/
theorem diagnostics_clean (firstLine : Int) (source : Text) :
    ∃ unclosed : Option Diagnostic,
      (clean firstLine source).diagnostics = unclosed.toList ∧
        ∀ d ∈ unclosed, d.message = unclosedMessage := by
  unfold Cleaned.diagnostics
  split
  · exact ⟨none, rfl, nofun⟩
  · refine ⟨some _, rfl, ?_⟩
    intro d hd
    cases hd
    rfl

/-- The statements of a script, and what each of them gives, account for all that is read from it but
an unclosed comment. -/
theorem exists_given (firstLine : Int) (source : Text) :
    ∃ (given : List (Command ⊕ Diagnostic)) (unclosed : Option Diagnostic),
      List.Forall₂ Statement.Gives (lex firstLine source).statements given ∧
        (parse firstLine source).commands = given.filterMap Sum.getLeft? ∧
        (parse firstLine source).diagnostics = unclosed.toList ++ given.filterMap Sum.getRight? ∧
        ∀ d ∈ unclosed, d.message = unclosedMessage := by
  obtain ⟨unclosed, hclean, hmessage⟩ := diagnostics_clean firstLine source
  refine ⟨(lex firstLine source).statements.map Statement.given, unclosed, ?_, ?_, ?_, hmessage⟩
  · rw [List.forall₂_map_right_iff, List.forall₂_same]
    exact fun s _ => s.gives_given
  · rw [commands_parse, List.filterMap_map]
    exact List.filterMap_congr fun s _ => s.getLeft?_given.symm
  · rw [diagnostics_parse, hclean, List.filterMap_map]
    exact congrArg _ (List.filterMap_congr fun s _ => s.getRight?_given.symm)

/-! ## Series of scripts -/

/-- Reads scripts in order, each with the number of its first line, handing the log on. -/
def parseSeries (log : DiagnosticLog) : List (Int × Text) → List Parsed × DiagnosticLog
  | [] => ([], log)
  | (firstLine, source) :: rest =>
    let (parsed, log) := parseInto log firstLine source
    let (others, log) := parseSeries log rest
    (parsed :: others, log)

theorem parseSeries_eq (log : DiagnosticLog) (sources : List (Int × Text)) :
    parseSeries log sources =
      (sources.map fun x => parse x.1 x.2,
        log.reportAll (sources.flatMap fun x => (parse x.1 x.2).diagnostics)) := by
  induction sources generalizing log with
  | nil => simp only [parseSeries, List.map_nil, List.flatMap_nil, DiagnosticLog.reportAll,
      List.append_nil]
  | cons x rest ih =>
    simp only [parseSeries, parseInto_eq, ih, DiagnosticLog.reportAll_reportAll, List.map_cons,
      List.flatMap_cons]

/-- Scripts read one after the other with one log are each read as if alone, and the log keeps what it
held and gets the diagnostics of all of them in order. Of each script, every statement gives either
one command, on the statement's first line, or one diagnostic, over the statement's span; commands and
diagnostics are in the order of the statements, and all that is reported beside is at most one unclosed
comment, which comes first. -/
theorem parseSeries_separate (log : DiagnosticLog) (sources : List (Int × Text)) :
    (parseSeries log sources).1 = sources.map (fun x => parse x.1 x.2) ∧
      (parseSeries log sources).2.entries =
        log.entries ++ (parseSeries log sources).1.flatMap Parsed.diagnostics ∧
      List.Forall₂
        (fun (x : Int × Text) (parsed : Parsed) =>
          ∃ (given : List (Command ⊕ Diagnostic)) (unclosed : Option Diagnostic),
            List.Forall₂ Statement.Gives (lex x.1 x.2).statements given ∧
              parsed.commands = given.filterMap Sum.getLeft? ∧
              parsed.diagnostics = unclosed.toList ++ given.filterMap Sum.getRight? ∧
              ∀ d ∈ unclosed, d.message = unclosedMessage)
        sources (parseSeries log sources).1 := by
  rw [parseSeries_eq]
  refine ⟨rfl, ?_, ?_⟩
  · simp only [DiagnosticLog.reportAll, List.flatMap_map]
  · rw [List.forall₂_map_right_iff, List.forall₂_same]
    exact fun x _ => exists_given x.1 x.2

end TurtleTrace
