import Mathlib.Data.List.Induction
import TurtleTrace.Session

/-!
# What a session remembers

A session is used by calls, in any order: it processes scripts, validates texts, is reset and is asked
questions. Processing a script that is not stopped by a fault of arithmetic overwrites all that the
calls before it have left, whatever these were. A reset forgets the last script in all answers but two:
bounding box and geometry are read off the machine, which stays as the last script has left it.

* `Session.perform`: what a call does and what it replies.
* `Session.after`: a session after a history of calls.
* `Question.readsMachine`: the two questions that a reset does not reach.
-/

namespace TurtleTrace

set_option autoImplicit false

/-! ## Calls -/

/-- What a session can be asked. -/
inductive Question where
  | successful
  | scad
  | summary
  | text
  | diagnostics
  | diagnosticsOfLine (line : Int)
  | hasErrors
  | hasFatal
  | polygons
  | markers
  | segments
  | segmentsOfLine (line : Int)
  | lineOfSegment (id : Int)
  | counts
  | boundingBox
  | geometry
  deriving DecidableEq, Repr

namespace Question

abbrev Answer : Question → Type
  | successful | hasErrors | hasFatal => Bool
  | scad | summary | text => Text
  | diagnostics | diagnosticsOfLine _ => List Diagnostic
  | polygons => Array Polygon
  | markers => Array Marker
  | segments => Array Segment
  | segmentsOfLine _ => List Segment
  | lineOfSegment _ => Option Int
  | counts => Session.Counts
  | boundingBox => Point × Point
  | geometry => Drawing.Statistics

/-- Whether the answer is read off the machine and not off the result of the last script. -/
def readsMachine : Question → Bool
  | boundingBox | geometry => true
  | _ => false

end Question

inductive Call where
  | process (text : Text)
  | validate (text : Text)
  | reset
  | ask (question : Question)
  deriving DecidableEq, Repr

namespace Call

abbrev Reply : Call → Type
  | process _ => Except ArithmeticFault Bool
  | validate _ => Bool
  | reset => Unit
  | ask question => question.Answer

def isProcess : Call → Bool
  | process _ => true
  | _ => false

/-- The last script of a history, if it has one, as a history of its own. -/
def lastScript (history : List Call) : List Call := (history.filter isProcess).getLast?.toList

end Call

namespace Session

def answer (s : Session) : (question : Question) → question.Answer
  | .successful => s.successful
  | .scad => s.scad
  | .summary => s.summary
  | .text => s.text
  | .diagnostics => s.log.sorted
  | .diagnosticsOfLine line => s.log.forLine line
  | .hasErrors => s.log.hasErrors
  | .hasFatal => s.log.hasFatal
  | .polygons => s.result.polygons
  | .markers => s.result.markers
  | .segments => s.result.segments
  | .segmentsOfLine line => s.segmentsOfLine line
  | .lineOfSegment id => s.lineOfSegment? id
  | .counts => s.counts
  | .boundingBox => s.boundingBox
  | .geometry => s.machine.drawing.statistics

/-- The session after a call, and the reply. A script replies whether it was processed without errors,
or the fault that has stopped it. -/
def perform (s : Session) : (call : Call) → Session × call.Reply
  | .process text =>
    let (s, fault, _) := s.process text
    (s, match fault with
      | none => .ok s.successful
      | some fault => .error fault)
  | .validate text => (s, validates text)
  | .reset => (s.reset, ())
  | .ask question => (s, s.answer question)

def after (s : Session) (history : List Call) : Session :=
  history.foldl (fun s call => (s.perform call).1) s

/-! ## One script -/

variable {s s' : Session}

/-- What processing a script tells and leaves depends on the settings alone, as long as no fault of
arithmetic stops it. -/
theorem process_of_settings (h : s.settings = s'.settings) (text : Text) :
    (s.process text).2 = (s'.process text).2 ∧
      (s.process text).1.settings = s.settings ∧
      (s.process text).1.machine = (s'.process text).1.machine ∧
      ((s.process text).2.1 = none → (s.process text).1 = (s'.process text).1) := by
  obtain ⟨settings, log, machine, parsed, result, scad, last, successful⟩ := s
  obtain ⟨settings', log', machine', parsed', result', scad', last', successful'⟩ := s'
  obtain rfl : settings = settings' := h
  simp only [process, beginText, limits]
  split
  · exact ⟨rfl, rfl, rfl, fun _ => rfl⟩
  · exact ⟨rfl, rfl, rfl, fun _ => rfl⟩
  · -- The fault leaves result, text of the drawing and success of the script before.
    refine ⟨rfl, rfl, rfl, ?_⟩
    intro hfault
    cases hfault

theorem perform_process_of_settings (h : s.settings = s'.settings) {text : Text}
    (hreturns : (s.perform (.process text)).2.isOk = true) :
    s.perform (.process text) = s'.perform (.process text) := by
  obtain ⟨htold, -, -, hsession⟩ := process_of_settings h text
  have hfault : (s.process text).2.1 = none := by
    simp only [perform] at hreturns
    cases hf : (s.process text).2.1 with
    | none => rfl
    | some fault =>
      rw [hf] at hreturns
      cases hreturns
  have hprocess : s.process text = s'.process text := Prod.ext (hsession hfault) htold
  simp only [perform, hprocess]

/-! ## Histories -/

theorem settings_perform (s : Session) (call : Call) : (s.perform call).1.settings = s.settings := by
  cases call with
  | process text => exact (process_of_settings rfl text).2.1
  | validate _ | reset | ask _ => rfl

theorem settings_after (s : Session) (history : List Call) :
    (s.after history).settings = s.settings := by
  induction history generalizing s with
  | nil => rfl
  | cons call rest ih => exact (ih _).trans (s.settings_perform call)

theorem after_append (s : Session) (history later : List Call) :
    s.after (history ++ later) = (s.after history).after later := List.foldl_append

theorem after_concat (s : Session) (history : List Call) (call : Call) :
    s.after (history ++ [call]) = ((s.after history).perform call).1 := s.after_append history [call]

/-- The machine is as the last script has left it, whatever happened before and after. -/
theorem machine_after (s : Session) (history : List Call) :
    (s.after history).machine = (s.after (Call.lastScript history)).machine := by
  -- By the last call: a script replaces the machine, and no other call touches it.
  induction history using List.reverseRecOn with
  | nil => rfl
  | append_singleton history call ih =>
    rw [after_concat]
    cases call with
    | process text =>
      have hlast : Call.lastScript (history ++ [.process text]) = [.process text] := by
        simp [Call.lastScript, Call.isProcess]
      rw [hlast]
      exact (process_of_settings (s.settings_after history) text).2.2.1
    | validate _ | reset | ask _ =>
      simpa [Call.lastScript, Call.isProcess, perform, reset] using ih

end Session

/-- Once a script has been processed without a fault, its reply and every later one are what they would
have been without the history before it. -/
theorem replies_of_history (s : Session) (history : List Call) {text : Text}
    (hreturns : ((s.after history).perform (.process text)).2.isOk = true) :
    ((s.after history).perform (.process text)).2 = (s.perform (.process text)).2 ∧
      ∀ (later : List Call) (call : Call),
        ((s.after (history ++ .process text :: later)).perform call).2 =
          ((s.after (.process text :: later)).perform call).2 := by
  have hsame := Session.perform_process_of_settings (s.settings_after history) hreturns
  refine ⟨congrArg Prod.snd hsame, fun later call => ?_⟩
  have hafter : s.after (history ++ .process text :: later) = s.after (.process text :: later) := by
    rw [s.after_append]
    exact congrArg (fun p => Session.after p.1 later) hsame
  rw [hafter]

theorem replies_of_faulty_history :
    ∃ fresh, Session.open? .default = .ok fresh ∧
      let history : List Call :=
        [.process "SETX 9".toList, .process "RT 1e308\nRT 1e308\nFD 1".toList,
          .process "FD :x".toList, .validate "FD".toList, .reset, .ask .boundingBox]
      ((fresh.after history).perform (.process "SETX 3".toList)).2 =
          (fresh.perform (.process "SETX 3".toList)).2 ∧
        ∀ (later : List Call) (call : Call),
          ((fresh.after (history ++ .process "SETX 3".toList :: later)).perform call).2 =
            ((fresh.after (.process "SETX 3".toList :: later)).perform call).2 :=
  ⟨_, rfl, replies_of_history _ _ (by decide +kernel)⟩

/-! ## Resets -/

namespace Session

theorem answer_of_machine {s s' : Session} (h : s.machine = s'.machine) {question : Question}
    (hq : question.readsMachine = true) : s.answer question = s'.answer question := by
  cases question with
  | boundingBox => exact congrArg (·.drawing.boundingBox) h
  | geometry => exact congrArg (·.drawing.statistics) h
  | _ => cases hq

theorem answer_reset {settings : Settings} {fresh : Session} (hopen : open? settings = .ok fresh)
    (s : Session) {question : Question} (hq : question.readsMachine = false) :
    s.reset.answer question = fresh.answer question := by
  unfold open? at hopen
  split at hopen
  · cases hopen
  · cases hopen
    cases question with
    | boundingBox | geometry => cases hq
    | _ => rfl

end Session

/-- After a reset a session answers as a fresh one, but bounding box and geometry are those of the last
script that was processed, before or after any other reset. -/
theorem answers_of_reset {settings : Settings} {fresh : Session}
    (hopen : Session.open? settings = .ok fresh) (history : List Call) (question : Question) :
    (fresh.after (history ++ [.reset])).answer question =
      (if question.readsMachine then fresh.after (Call.lastScript history) else fresh).answer
        question := by
  rw [Session.after_concat]
  cases hq : question.readsMachine with
  | true =>
    have hmachine : (fresh.after history).reset.machine =
        (fresh.after (Call.lastScript history)).machine := fresh.machine_after history
    exact Session.answer_of_machine hmachine hq
  | false => exact Session.answer_reset hopen (fresh.after history) hq

theorem answers_of_reset_after_line :
    ∃ fresh, Session.open? .default = .ok fresh ∧ ∀ question,
      (fresh.after ([.process "SETX 10".toList, .reset, .validate "FD".toList] ++ [.reset])).answer
          question =
        (if question.readsMachine then fresh.after [.process "SETX 10".toList] else fresh).answer
          question := by
  have hopen : Session.open? .default = .ok { settings := .default, machine := .idle 40 } := rfl
  exact ⟨_, hopen, answers_of_reset hopen _⟩

/-- The bounding box of a script outlives the reset. -/
theorem boundingBox_of_reset :
    ∃ fresh, Session.open? .default = .ok fresh ∧
      (fresh.after [.process "SETX 10".toList, .reset]).boundingBox ≠ fresh.boundingBox :=
  ⟨_, rfl, by decide +kernel⟩

end TurtleTrace
