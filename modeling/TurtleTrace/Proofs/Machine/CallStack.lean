import TurtleTrace.Proofs.Machine.Agreement
import Mathlib.Logic.Relation

/-!
# The call stack of a run

A run seen step by step, with the frames that are open written out. A configuration holds the
machine, the commands that are still to start in the current round, and the stack of open frames. Each
step starts one command, begins another round of the innermost frame, or closes it. The steps lead to
the outcome of the run (`leads_runCommands`), so the configurations that they pass through are the
points of the run, and at each of them no more frames are open than the limits allow
(`length_stack_le`).

* `Activation`, `Configuration`: an open frame, and a point of a run.
* `Configuration.next`: one step.
* `Leads`: any number of steps.
-/

namespace TurtleTrace

set_option autoImplicit false

/-! ## Configurations -/

/-- A frame that is open: the rounds of its body that follow the current one, and the commands that
are to run after it. -/
structure Activation where
  frame : Frame
  body : List Command
  rounds : Nat
  after : List Command
  deriving DecidableEq, Repr

/-- A point of a run; the innermost frame is the first of the stack. -/
structure Configuration where
  machine : Machine
  commands : List Command
  stack : List Activation
  deriving DecidableEq, Repr

/-- Where a run stands: at a configuration, or at its end. -/
abbrev Stand := Configuration ⊕ Outcome

namespace Configuration

/-- Opens a frame, unless a limit forbids it. The new frame has all its rounds before it. -/
def enter (limits : Limits) (command : Command) (rest : List Command) (stack : List Activation)
    (frame : Frame) (body : List Command) (m : Machine) : Stand :=
  if limits.callDepth ≤ stack.length then
    .inr (.failed (.script (.tooDeep limits.callDepth) frame.line) m)
  else if limits.nesting ≤ stack.length then
    .inr (.failed (.script .nestingExhausted command.line) m)
  else
    .inl ⟨m.record (.entered frame (stack.length + 1)), [],
      ⟨frame, body, frame.count.toNat, rest⟩ :: stack⟩

def next (limits : Limits) (c : Configuration) : Stand :=
  match c.commands, c.stack with
  | command :: rest, stack =>
    match startCommand limits command c.machine with
    | .done m => .inl ⟨m, rest, stack⟩
    | .failed failure m => .inr (.failed failure m)
    | .enter frame body m => enter limits command rest stack frame body m
  | [], [] => .inr (.done c.machine)
  | [], ⟨frame, body, rounds + 1, after⟩ :: outer =>
    .inl ⟨c.machine, body, ⟨frame, body, rounds, after⟩ :: outer⟩
  | [], ⟨_, _, 0, after⟩ :: outer => .inl ⟨c.machine, after, outer⟩

end Configuration

/-- Some number of steps leads from one stand of a run to another. -/
def Leads (limits : Limits) : Stand → Stand → Prop :=
  Relation.ReflTransGen fun s s' => ∃ c : Configuration, s = .inl c ∧ c.next limits = s'

/-- Where a run stands after a part of it: it goes on with the rest, unless the part has failed. -/
def Outcome.stand (rest : List Command) (stack : List Activation) : Outcome → Stand
  | done m => .inl ⟨m, rest, stack⟩
  | failed failure m => .inr (.failed failure m)

variable {limits : Limits}

theorem Leads.head {c : Configuration} {s s' : Stand} (h : c.next limits = s)
    (hs : Leads limits s s') : Leads limits (.inl c) s' :=
  Relation.ReflTransGen.head ⟨c, rfl, h⟩ hs

theorem Leads.refl (s : Stand) : Leads limits s s := Relation.ReflTransGen.refl

theorem Leads.trans {s s' s'' : Stand} (h : Leads limits s s') (h' : Leads limits s' s'') :
    Leads limits s s'' :=
  Relation.ReflTransGen.trans h h'

/-! ## The steps lead to the outcome -/

/-- Running one command inside the open frames is a number of steps. -/
def CommandLeads (limits : Limits) (stack : List Activation)
    (run : Command → Machine → Outcome) : Prop :=
  ∀ command rest m,
    Leads limits (.inl ⟨m, command :: rest, stack⟩) ((run command m).stand rest stack)

theorem leads_runAll {stack : List Activation} {run : Command → Machine → Outcome}
    (h : CommandLeads limits stack run) (commands : List Command) (m : Machine) :
    Leads limits (.inl ⟨m, commands, stack⟩) ((runAll run commands m).stand [] stack) := by
  induction commands generalizing m with
  | nil => exact .refl _
  | cons command rest ih =>
    have hfirst := h command rest m
    unfold runAll
    cases hrun : run command m with
    | done n =>
      rw [hrun] at hfirst
      exact hfirst.trans (ih n)
    | failed failure n =>
      rw [hrun] at hfirst
      exact hfirst

/-- The rounds of the innermost frame lead to its end, where it is closed. -/
theorem leads_replay {frame : Frame} {body after : List Command} {outer : List Activation}
    {run : Command → Machine → Outcome}
    (h : ∀ rounds, CommandLeads limits (⟨frame, body, rounds, after⟩ :: outer) run) (n : Nat)
    (m : Machine) :
    Leads limits (.inl ⟨m, [], ⟨frame, body, n, after⟩ :: outer⟩)
      ((replay (runAll run body) n m).stand after outer) := by
  induction n generalizing m with
  | zero => exact .head rfl (.refl _)
  | succ n ih =>
    have hround := leads_runAll (h n) body m
    refine .head rfl ?_
    unfold replay
    cases hrun : runAll run body m with
    | done k =>
      rw [hrun] at hround
      exact hround.trans (ih k)
    | failed failure k =>
      rw [hrun] at hround
      exact hround

theorem leads_runCommand (room : Nat) (stack : List Activation)
    (hroom : limits.nesting = room + stack.length) :
    CommandLeads limits stack (runCommand limits room stack.length) := by
  intro command rest m
  cases hs : startCommand limits command m with
  | done n =>
    rw [runCommand_of_done hs]
    exact .head (by simp only [Configuration.next, hs]; rfl) (.refl _)
  | failed failure n =>
    rw [runCommand_of_failed hs]
    exact .head (by simp only [Configuration.next, hs]; rfl) (.refl _)
  | enter frame body n =>
    have hnext : Configuration.next limits ⟨m, command :: rest, stack⟩ =
        Configuration.enter limits command rest stack frame body n := by
      simp only [Configuration.next, hs]
    by_cases hdeep : limits.callDepth ≤ stack.length
    · rw [Configuration.enter, if_pos hdeep] at hnext
      rw [runCommand_of_tooDeep hs hdeep]
      exact .head hnext (.refl _)
    · rw [Configuration.enter, if_neg hdeep] at hnext
      cases room with
      | zero =>
        rw [if_pos (by omega)] at hnext
        rw [runCommand_of_noRoom hs hdeep]
        exact .head hnext (.refl _)
      | succ room =>
        rw [if_neg (by omega)] at hnext
        rw [runCommand_of_enter hs hdeep]
        -- Inside the frame one more frame is open and one level of nesting less is left.
        refine .head hnext (leads_replay (fun rounds => ?_) _ _)
        exact leads_runCommand room (⟨frame, body, rounds, rest⟩ :: stack)
          (by rw [List.length_cons]; omega)

/-- The steps from the start of a run lead to its outcome. -/
theorem leads_runCommands (limits : Limits) (commands : List Command) (m : Machine) :
    Leads limits (.inl ⟨m, commands, []⟩) (.inr (runCommands limits commands m)) := by
  have h := leads_runAll (leads_runCommand limits.nesting [] rfl) commands m
  refine h.trans ?_
  show Leads limits ((runCommands limits commands m).stand [] []) _
  cases runCommands limits commands m with
  | done n => exact .head rfl (.refl _)
  | failed failure n => exact .refl _

/-! ## How many frames are open -/

/-- Whether at most as many frames are open as the limits allow. -/
def Configuration.Bounded (limits : Limits) (c : Configuration) : Prop :=
  (c.stack.length : Int) ≤ max 0 limits.callDepth

theorem Configuration.Bounded.next {c c' : Configuration} (h : c.Bounded limits)
    (hn : c.next limits = .inl c') : c'.Bounded limits := by
  unfold Bounded at h ⊢
  unfold Configuration.next at hn
  split at hn
  · rename_i command rest stack _ hstack
    split at hn
    · cases hn
      exact h
    · cases hn
    · unfold enter at hn
      split at hn
      · cases hn
      · split at hn
        · cases hn
        · rename_i hdeep _
          cases hn
          simp only [List.length_cons]
          omega
  · cases hn
  · rename_i hstack
    cases hn
    rw [hstack] at h
    exact h
  · rename_i hstack
    cases hn
    rw [hstack, List.length_cons] at h
    dsimp only
    omega

/-- At every point of a run the open frames are within the limit. -/
theorem length_stack_le {commands : List Command} {m : Machine} {c : Configuration}
    (h : Leads limits (.inl ⟨m, commands, []⟩) (.inl c)) :
    (c.stack.length : Int) ≤ max 0 limits.callDepth := by
  have hall : ∀ s, Leads limits (.inl ⟨m, commands, []⟩) s → ∀ c, s = .inl c → c.Bounded limits := by
    intro s hs
    induction hs with
    | refl =>
      rintro c ⟨⟩
      exact Int.le_max_left 0 _
    | tail _ hstep ih =>
      obtain ⟨c₀, rfl, hnext⟩ := hstep
      rintro c rfl
      exact (ih c₀ rfl).next hnext
  exact hall _ h c rfl

end TurtleTrace
