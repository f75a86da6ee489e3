import TurtleTrace.Proofs.Machine.Limits
import TurtleTrace.Proofs.Machine.Reachable

/-!
# The rounds of a run

A loop or a call begins a round each time that it replays its body. A round of a body that holds a
command starts this command next, so the limit on started commands bounds these rounds over the whole
run, through all loops and calls. A round of an empty body starts nothing, and the limit does not see
it: a frame with such a body goes through all its rounds.

* `Round`: one replay of the body of a frame.
* `Replays`: steps of a run, with the rounds that they begin.
* `Configuration.Pays`: what holds between rounds and started commands at every point of a run.
-/

namespace TurtleTrace

set_option autoImplicit false

/-- One replay of the body of a frame. -/
structure Round where
  frame : Frame
  body : List Command
  deriving DecidableEq, Repr

/-- The round that the next step begins, if it begins one. -/
def Configuration.round? (c : Configuration) : Option Round :=
  match c.commands, c.stack with
  | [], ⟨frame, body, _ + 1, _⟩ :: _ => some ⟨frame, body⟩
  | _, _ => none

/-- Steps that lead from a point of a run to where it stands after them, with the rounds that they
begin. -/
inductive Replays (limits : Limits) (c : Configuration) : List Round → Stand → Prop where
  | refl : Replays limits c [] (.inl c)
  | step {rounds : List Round} {a : Configuration} (before : Replays limits c rounds (.inl a)) :
      Replays limits c (rounds ++ a.round?.toList) (a.next limits)

/-- How many of the rounds have a body that holds a command. -/
def busyRounds (rounds : List Round) : Nat := (rounds.filter (·.body ≠ [])).length

theorem busyRounds_append (rounds others : List Round) :
    busyRounds (rounds ++ others) = busyRounds rounds + busyRounds others := by
  simp only [busyRounds, List.filter_append, List.length_append]

variable {limits : Limits} {c : Configuration}

theorem Leads.exists_replays {s : Stand} (h : Leads limits (.inl c) s) :
    ∃ rounds, Replays limits c rounds s := by
  induction h with
  | refl => exact ⟨[], .refl⟩
  | tail _ hstep ih =>
    obtain ⟨a, rfl, rfl⟩ := hstep
    obtain ⟨rounds, hrounds⟩ := ih
    exact ⟨_, hrounds.step⟩

/-! ## Rounds and started commands -/

/-- Every round with a command in its body has been paid for with a command that was started in it, or
is about to start it. A frame is itself opened by a command, which is why between two of its rounds
one started command is left over. -/
structure Configuration.Pays (rounds : List Round) (c : Configuration) : Prop where
  always : busyRounds rounds ≤ c.machine.steps
  between : c.commands = [] → c.stack ≠ [] → busyRounds rounds < c.machine.steps

namespace Configuration

variable {a b : Configuration} {rounds : List Round}

/-- A step that starts a command begins no round. -/
theorem round?_of_visit {v : Visit} (h : a.visit? = some v) : a.round? = none := by
  obtain ⟨command, hhead, -⟩ := Option.map_eq_some_iff.mp h
  obtain ⟨rest, hcommands⟩ := List.head?_eq_some_iff.mp hhead
  unfold round?
  rw [hcommands]

theorem Pays.advance {v : Visit} (h : a.Pays rounds) (hv : v.before = a.machine)
    (hadvance : Advance limits v b.machine) : b.Pays rounds := by
  have hsteps := hadvance.steps_eq
  have hpaid := h.always
  rw [hv] at hsteps
  exact ⟨by omega, fun _ _ => by omega⟩

/-- A round is begun between rounds, where a started command is left over for it. -/
theorem Pays.begin {frame : Frame} {body after : List Command} {n : Nat} {outer : List Activation}
    (h : a.Pays rounds) (hcommands : a.commands = [])
    (hstack : a.stack = ⟨frame, body, n + 1, after⟩ :: outer) :
    Pays (rounds ++ [⟨frame, body⟩]) ⟨a.machine, body, ⟨frame, body, n, after⟩ :: outer⟩ := by
  have hleft := h.between hcommands (by rw [hstack]; exact List.cons_ne_nil _ _)
  have hcount := busyRounds_append rounds [⟨frame, body⟩]
  have hone : busyRounds [⟨frame, body⟩] ≤ 1 := List.length_filter_le _ _
  refine ⟨by dsimp only; omega, fun hempty _ => ?_⟩
  have hnone : busyRounds [⟨frame, body⟩] = 0 := by
    dsimp only at hempty
    simp [busyRounds, hempty]
  dsimp only
  omega

theorem Pays.next (h : a.Pays rounds) (hn : a.next limits = .inl b) :
    b.Pays (rounds ++ a.round?.toList) := by
  obtain ⟨hnone, -⟩ | ⟨v, hvisit, hadvance⟩ := visit_of_next hn
  · have hcommands : a.commands = [] := by
      rw [visit?, Option.map_eq_none_iff, List.head?_eq_none_iff] at hnone
      exact hnone
    obtain ⟨m, commands, stack⟩ := a
    dsimp only at hcommands
    subst hcommands
    cases stack with
    | nil => cases hn
    | cons activation outer =>
      obtain ⟨frame, body, n, after⟩ := activation
      cases n with
      | zero =>
        cases hn
        rw [round?, Option.toList_none, List.append_nil]
        have hleft := h.between rfl (List.cons_ne_nil _ _)
        exact ⟨h.always, fun _ _ => hleft⟩
      | succ n =>
        cases hn
        exact h.begin rfl rfl
  · rw [round?_of_visit hvisit, Option.toList_none, List.append_nil]
    obtain ⟨command, -, rfl⟩ := Option.map_eq_some_iff.mp hvisit
    exact h.advance rfl hadvance

/-- The last step of a run begins no round. -/
theorem round?_of_outcome {o : Outcome} (h : a.next limits = .inr o) : a.round? = none := by
  obtain ⟨m, commands, stack⟩ := a
  cases commands with
  | cons command rest => rfl
  | nil =>
    cases stack with
    | nil => rfl
    | cons activation outer =>
      obtain ⟨frame, body, n, after⟩ := activation
      cases n with
      | zero => rfl
      | succ n => cases h

end Configuration

/-- At every point of a run the rounds are paid for. -/
theorem Replays.pays {m : Machine} {commands : List Command} {rounds : List Round} {b : Configuration}
    (h : Replays limits ⟨m, commands, []⟩ rounds (.inl b)) : b.Pays rounds := by
  generalize hs : Sum.inl b = s at h
  induction h generalizing b with
  | refl =>
    cases hs
    exact ⟨Nat.zero_le _, fun _ hstack => absurd rfl hstack⟩
  | step _ ih => exact (ih rfl).next hs.symm

theorem Replays.leads {rounds : List Round} {s : Stand} (h : Replays limits c rounds s) :
    Leads limits (.inl c) s := by
  induction h with
  | refl => exact .refl _
  | step _ ih => exact ih.trans (.head rfl (.refl _))

theorem Leads.steps_le {b : Configuration} (h : Leads limits (.inl c) (.inl b))
    (hc : (c.machine.steps : Int) ≤ max 0 limits.steps) :
    (b.machine.steps : Int) ≤ max 0 limits.steps := by
  refine h.preserves (P := fun m => (m.steps : Int) ≤ max 0 limits.steps) (fun v m hv _ => ?_) hc
  have hle := hv.steps_le
  omega

/-- However far a run has come, the rounds with a command in their body are within the limit on started
commands. -/
theorem Replays.busyRounds_le {m : Machine} {commands : List Command} {rounds : List Round} {s : Stand}
    (h : Replays limits ⟨m, commands, []⟩ rounds s) (hm : m.steps = 0) :
    (busyRounds rounds : Int) ≤ max 0 limits.steps := by
  have hpoint : ∀ {rounds : List Round} {b : Configuration},
      Replays limits ⟨m, commands, []⟩ rounds (.inl b) →
        (busyRounds rounds : Int) ≤ max 0 limits.steps := by
    intro rounds b h
    have hpaid := h.pays.always
    have hsteps := h.leads.steps_le (by dsimp only; omega)
    omega
  cases s with
  | inl b => exact hpoint h
  | inr o =>
    generalize hs : Sum.inr o = s at h
    cases h with
    | refl => cases hs
    | step before =>
      rw [Configuration.round?_of_outcome hs.symm, Option.toList_none, List.append_nil]
      exact hpoint before

/-! ## Empty bodies -/

/-- A frame with an empty body goes through its rounds and is closed, and the machine stays as it
is. -/
theorem Replays.through_empty {rounds : List Round} {m : Machine} {frame : Frame} {n : Nat}
    {after : List Command} {outer : List Activation}
    (h : Replays limits c rounds (.inl ⟨m, [], ⟨frame, [], n, after⟩ :: outer⟩)) :
    Replays limits c (rounds ++ List.replicate n ⟨frame, []⟩) (.inl ⟨m, after, outer⟩) := by
  induction n generalizing rounds with
  | zero => exact h.step
  | succ n ih =>
    have hnext := ih h.step
    rwa [List.append_assoc] at hnext

/-- In a run, the rounds of loops and calls whose body holds a command are within the limit on started
commands, at every point and at the end, which every run comes to. A loop or a call whose body is empty
goes through all its rounds without starting a command. -/
theorem rounds_within_limit (limits : Limits) (resolution : Int) (commands : List Command)
    (comments : List Comment) :
    let start : Configuration := ⟨.start resolution comments, commands, []⟩
    (∀ rounds stand, Replays limits start rounds stand →
      ((rounds.filter (·.body ≠ [])).length : Int) ≤ max 0 limits.steps) ∧
    (∃ rounds, Replays limits start rounds (.inr (runCommands limits commands start.machine))) ∧
    ∀ rounds m frame n after outer,
      Replays limits start rounds (.inl ⟨m, [], ⟨frame, [], n, after⟩ :: outer⟩) →
        Replays limits start (rounds ++ List.replicate n ⟨frame, []⟩) (.inl ⟨m, after, outer⟩) :=
  ⟨fun _ _ h => h.busyRounds_le rfl, (leads_runCommands limits commands _).exists_replays,
    fun _ _ _ _ _ _ h => h.through_empty⟩

/-- Whether a run stands at a point with given commands to start and given open frames. -/
def Stand.isAt (commands : List Command) (stack : List Activation) (s : Stand) : Bool :=
  s.elim (fun c => decide (c.commands = commands ∧ c.stack = stack)) (fun _ => false)

/-- A first step that begins no round leads to where the run stands then. -/
theorem Replays.exists_of_isAt {commands : List Command} {stack : List Activation}
    (hround : c.round? = none) (h : Stand.isAt commands stack (c.next limits) = true) :
    ∃ m, Replays limits c [] (.inl ⟨m, commands, stack⟩) := by
  have hstep : Replays limits c ([] ++ c.round?.toList) (c.next limits) := Replays.refl.step
  rw [hround, Option.toList_none, List.append_nil] at hstep
  cases hnext : c.next limits with
  | inl b =>
    rw [hnext] at h hstep
    obtain ⟨rfl, rfl⟩ : b.commands = commands ∧ b.stack = stack := of_decide_eq_true h
    exact ⟨b.machine, hstep⟩
  | inr o =>
    rw [hnext] at h
    cases h

/-- A loop without commands in front of one with a command, under the narrowest limit that lets the run
end: of its seven rounds the two of the second loop count against the limit. -/
theorem rounds_of_two_loops :
    let limits : Limits := { steps := 4 }
    let commands := (parse 1 "REPEAT 5 []\nREPEAT 2 [HOME]".toList).commands
    let start : Configuration := ⟨.start 40 [], commands, []⟩
    (runCommands limits commands start.machine).isDone = true ∧
      (∃ rounds, Replays limits start rounds (.inr (runCommands limits commands start.machine)) ∧
        ((rounds.filter (·.body ≠ [])).length : Int) ≤ max 0 limits.steps) ∧
      ∃ m, Replays limits start (List.replicate 5 ⟨⟨.repeat, 1, none, 5⟩, []⟩)
        (.inl ⟨m, commands.drop 1, []⟩) := by
  intro limits commands start
  obtain ⟨hwithin, ⟨rounds, hrounds⟩, hempty⟩ := rounds_within_limit limits 40 commands []
  have hat : Stand.isAt [] [⟨⟨.repeat, 1, none, 5⟩, [], 5, commands.drop 1⟩] (start.next limits) =
      true := by decide +kernel
  obtain ⟨m, hpoint⟩ := Replays.exists_of_isAt (by decide +kernel) hat
  exact ⟨by decide +kernel, ⟨rounds, hrounds, hwithin rounds _ hrounds⟩, m, hempty [] m _ 5 _ [] hpoint⟩

/-- A loop without commands goes through five rounds under a limit of one command, and the run does not
fail. -/
theorem rounds_of_empty_loop :
    let limits : Limits := { steps := 1 }
    let start : Configuration := ⟨.start 40 [], (parse 1 "REPEAT 5 []".toList).commands, []⟩
    ∃ rounds m, Replays limits start rounds (.inr (.done m)) ∧ limits.steps < rounds.length := by
  intro limits start
  have hat : Stand.isAt [] [⟨⟨.repeat, 1, none, 5⟩, [], 5, []⟩] (start.next limits) = true := by
    decide +kernel
  obtain ⟨m, hpoint⟩ := Replays.exists_of_isAt (by decide +kernel) hat
  exact ⟨_, m, hpoint.through_empty.step, by simp [limits, Configuration.round?]⟩

end TurtleTrace
