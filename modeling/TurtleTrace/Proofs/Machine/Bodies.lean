import TurtleTrace.Proofs.Machine.FailureLine
import TurtleTrace.Proofs.Script.Kept

/-!
# The bodies that a run reads

A run starts the commands of its source, and those of the bodies and lists that it reads on the way. A
body is kept by the command that runs it, and a list by the command that stored it, so all texts that
are read while a source runs are kept from the source, at every depth of loops and calls
(`Leads.keptFrom`), and so is the body that a run fails to read (`exists_kept_of_failed`).

* `Configuration.KeptFrom`: the points of a run that hold no other texts than those kept from a source.
-/

namespace TurtleTrace

set_option autoImplicit false

/-! ## Stored lists -/

theorem Bindings.mem_of_list {b : Bindings} {name text : Text} (h : b.list name = .ok text) :
    ∃ key, (key, Value.list text) ∈ b.entries := by
  unfold list at h
  split at h
  · cases h
  · rename_i hfound
    cases h
    obtain ⟨before, after, hentries, -⟩ := List.lookup_eq_some_iff.mp hfound
    exact ⟨_, hentries ▸ List.mem_append_right before List.mem_cons_self⟩
  · cases h

/-- An action that is done with at once binds no variable, or one to a number, or one to the list that
it keeps. -/
theorem Machine.bindings_of_act {m m' : Machine} {line : Int} {action : Action}
    (h : m.act action line = .done m') :
    m'.bindings = m.bindings ∨ ∃ name value, m'.bindings = m.bindings.set name value ∧
      ∀ text, value = .list text → action.kept? = some text := by
  have hs : ∀ failure n, Step.done m' ≠ .failed failure n := fun _ _ => nofun
  cases action with
  | makeNumber name e =>
    obtain ⟨v, -, hv⟩ := withValue_eq hs h
    cases hv
    refine .inr ⟨name, .number v, rfl, ?_⟩
    rintro _ ⟨⟩
  | makeList name body =>
    cases h
    refine .inr ⟨name, .list body, rfl, ?_⟩
    rintro _ ⟨⟩
    rfl
  -- No other action binds a variable.
  | forward e | back e =>
    obtain ⟨v, -, hv⟩ := withValue_eq hs h
    obtain ⟨p, -, hp⟩ := withResult_eq hs hv
    cases hp
    exact .inl rfl
  | left e | right e | setHeading e | setX e | setY e =>
    obtain ⟨v, -, hv⟩ := withValue_eq hs h
    cases hv
    exact .inl rfl
  | setXY e f =>
    obtain ⟨x, -, hx⟩ := withValue_eq hs h
    obtain ⟨y, -, hy⟩ := withValue_eq hs hx
    cases hy
    exact .inl rfl
  | home =>
    cases h
    exact .inl rfl
  | penUp =>
    cases h
    exact .inl (m.frame_penUp line).2.1
  | penDown =>
    cases h
    exact .inl (m.frame_penDown line).2.1
  | arc e f =>
    cases change_of_act h with
    | flatArc | arc => exact .inl rfl
    | note written => cases written
    | skip silent | bind silent | steer silent | move silent => cases silent
  | repeatBody count body bodyLine =>
    obtain hd | ⟨n, -, hn⟩ := withCount_eq hs h
    · cases hd
      exact .inl rfl
    · obtain ⟨-, hb⟩ := withBody_eq hs hn
      cases hb
  | repeatNamed count name =>
    obtain hd | ⟨n, -, hn⟩ := withCount_eq hs h
    · cases hd
      exact .inl rfl
    · obtain ⟨text, -, -, hb⟩ := withStored_eq hs hn
      cases hb
  | call name =>
    obtain ⟨text, -, -, hb⟩ := withStored_eq hs h
    cases hb
  | setResolution e =>
    obtain ⟨v, -, hv⟩ := withValue_eq hs h
    obtain ⟨resolution, -, hr⟩ := withResult_eq hs hv
    split at hr
    · cases hr
    · cases hr
      exact .inl rfl
  | print items | notePosition label =>
    cases change_of_act h with
    | note => exact .inl (m.frame_placeNote line _).2.1
    | skip silent | bind silent | steer silent | move silent => cases silent
  | marker label place =>
    cases change_of_act h with
    | note => exact .inl (m.frame_placeNote line _).2.1
    | marker => exact .inl (Machine.frame_placeNote _ line _).2.1
    | skip silent | bind silent | steer silent | move silent => cases silent

/-! ## Points of a run -/

/-- The text that a command keeps, if it keeps one, is kept from a source. -/
def Command.KeptFrom (source : Text) (c : Command) : Prop :=
  ∀ text, c.action.kept? = some text → Kept source text

/-- The lists that are stored are kept from a source. -/
def Machine.KeptFrom (source : Text) (m : Machine) : Prop :=
  ∀ name text, (name, Value.list text) ∈ m.bindings.entries → Kept source text

/-- All texts that may still be read from a point of a run on are kept from a source: those of the
commands to come, in the current round and in the open frames, and those of the stored lists. -/
structure Configuration.KeptFrom (source : Text) (c : Configuration) : Prop where
  commands : ∀ command ∈ c.commands, command.KeptFrom source
  bodies : ∀ a ∈ c.stack, ∀ command ∈ a.body, command.KeptFrom source
  after : ∀ a ∈ c.stack, ∀ command ∈ a.after, command.KeptFrom source
  machine : c.machine.KeptFrom source

variable {source : Text} {limits : Limits}

theorem Command.KeptFrom.relocate {c : Command} (h : c.KeptFrom source) (line : Int) :
    (c.relocate line).KeptFrom source := by
  obtain ⟨action, _⟩ := c
  cases action with
  | _ => exact h

theorem Kept.keptFrom {outer : Text} (h : Kept source outer) {line : Int} {c : Command}
    (hc : c ∈ (parse line outer).commands) : c.KeptFrom source :=
  fun _ hkept => .ofKept h hc hkept

theorem Machine.KeptFrom.of_list {m : Machine} (h : m.KeptFrom source) {name text : Text}
    (hstored : m.bindings.list name = .ok text) : Kept source text := by
  obtain ⟨key, hkey⟩ := Bindings.mem_of_list hstored
  exact h key text hkey

section Start

variable {v : Visit} {m : Machine}

/-- A command reads its own body, or a list that is stored. -/
theorem Visit.kept_of_body? (hcommand : v.command.KeptFrom source)
    (hbefore : v.before.KeptFrom source) {line : Int} {text : Text}
    (h : v.body? = some (line, text)) : Kept source text := by
  unfold body? at h
  split at h
  · rename_i hbody
    cases h
    refine hcommand _ ?_
    cases haction : v.command.action with
    | repeatBody =>
      rw [haction] at hbody
      cases hbody
      rfl
    | _ =>
      rw [haction] at hbody
      cases hbody
  · obtain ⟨list, hlist, heq⟩ := Option.map_eq_some_iff.mp h
    cases heq
    unfold list? at hlist
    split at hlist
    · cases hlist
    · rename_i name _
      cases hstored : v.before.bindings.list name with
      | error fault =>
        rw [hstored] at hlist
        cases hlist
      | ok stored =>
        rw [hstored] at hlist
        cases hlist
        exact hbefore.of_list hstored

/-- The commands of a frame are read from the body of the command that opens it. -/
theorem Visit.keptFrom_of_enter (hcommand : v.command.KeptFrom source)
    (hbefore : v.before.KeptFrom source) {frame : Frame} {body : List Command}
    (h : startCommand limits v.command v.before = .enter frame body m) :
    ∀ c ∈ body, c.KeptFrom source := by
  have hact := act_ready h fun _ _ => nofun
  obtain ⟨⟨action, line⟩, before⟩ := v
  cases Machine.entry_of_act hact with
  | loop => exact fun c hc => (hcommand _ rfl).keptFrom hc
  | list _ stored =>
    intro c hc
    obtain ⟨c', hc', rfl⟩ := List.mem_map.mp hc
    exact ((hbefore.of_list stored).keptFrom hc').relocate line

/-- A command that has run has stored no list but the one that it keeps. -/
theorem Advance.keptFrom (h : Advance limits v m) (hcommand : v.command.KeptFrom source)
    (hbefore : v.before.KeptFrom source) : m.KeptFrom source := by
  cases h with
  | done h =>
    intro name text hmem
    obtain hsame | ⟨bound, value, hbind, hvalue⟩ :=
      Machine.bindings_of_act (Visit.act_ready h fun _ _ => nofun)
    · rw [hsame] at hmem
      exact hbefore name text hmem
    · rw [hbind] at hmem
      obtain hnew | hold := Bindings.mem_put hmem
      · cases hnew
        exact hcommand text (hvalue text rfl)
      · exact hbefore name text hold
  | enter depth h =>
    obtain ⟨-, -, event, rfl⟩ := Machine.trace_of_act (Visit.act_ready h fun _ _ => nofun)
    exact hbefore

end Start

/-! ## Runs -/

/-- A step leads on to texts that are kept from the source. -/
theorem Configuration.KeptFrom.next {c c' : Configuration} (h : c.KeptFrom source)
    (hn : c.next limits = .inl c') : c'.KeptFrom source := by
  have hmachine : c'.machine.KeptFrom source := by
    obtain hsame | ⟨command, rest, hcommands, hadvance⟩ := Configuration.advance_of_next hn
    · rw [hsame]
      exact h.machine
    · refine hadvance.keptFrom (h.commands command ?_) h.machine
      rw [hcommands]
      exact List.mem_cons_self
  obtain ⟨m, commands, stack⟩ := c
  cases commands with
  | cons command rest =>
    obtain ⟨hcommand, hrest⟩ := List.forall_mem_cons.mp h.commands
    unfold Configuration.next at hn
    simp only at hn
    split at hn
    · cases hn
      exact ⟨hrest, h.bodies, h.after, hmachine⟩
    · cases hn
    · rename_i frame body n hs
      have hbody := Visit.keptFrom_of_enter (v := ⟨command, m⟩) hcommand h.machine hs
      unfold enter at hn
      split at hn
      · cases hn
      split at hn
      · cases hn
      cases hn
      exact ⟨List.forall_mem_nil _, List.forall_mem_cons.mpr ⟨hbody, h.bodies⟩,
        List.forall_mem_cons.mpr ⟨hrest, h.after⟩, hmachine⟩
  | nil =>
    cases stack with
    | nil => cases hn
    | cons a outer =>
      obtain ⟨hbody, hbodies⟩ := List.forall_mem_cons.mp h.bodies
      obtain ⟨hrest, hafter⟩ := List.forall_mem_cons.mp h.after
      obtain ⟨frame, body, rounds, after⟩ := a
      cases rounds with
      | zero =>
        cases hn
        exact ⟨hrest, hbodies, hafter, hmachine⟩
      | succ rounds =>
        cases hn
        exact ⟨hbody, List.forall_mem_cons.mpr ⟨hbody, hbodies⟩,
          List.forall_mem_cons.mpr ⟨hrest, hafter⟩, hmachine⟩

theorem keptFrom_start (firstLine : Int) (source : Text) (resolution : Int)
    (comments : List Comment) :
    Configuration.KeptFrom source
      ⟨.start resolution comments, (parse firstLine source).commands, []⟩ where
  commands _ hc _ hkept := .ofSource hc hkept
  bodies := List.forall_mem_nil _
  after := List.forall_mem_nil _
  machine _ _ hmem := absurd hmem List.not_mem_nil

/-- At every point of a run of a source, the texts that may still be read are kept from the source. -/
theorem Leads.keptFrom {firstLine resolution : Int} {comments : List Comment} {c : Configuration}
    (h : Leads limits (.inl ⟨.start resolution comments, (parse firstLine source).commands, []⟩)
      (.inl c)) : c.KeptFrom source :=
  h.invariant (keptFrom_start firstLine source resolution comments) fun _ _ _ hnext hkept =>
    hkept.next hnext

/-- A step fails for a body that cannot be read if the next command reads such a body. -/
theorem Configuration.visit_of_malformedBody {c : Configuration} {message : Text} {line : Int}
    {m : Machine} (h : c.next limits = .inr (.failed (.script (.malformedBody message) line) m)) :
    ∃ v, c.visit? = some v ∧ v.Blames (.malformedBody message) line := by
  unfold next at h
  split at h
  · rename_i command rest hcommands
    refine ⟨⟨command, c.machine⟩, by rw [visit?, hcommands]; rfl, ?_⟩
    split at h
    · cases h
    · rename_i hs
      cases h
      exact (Visit.blames_of_failed (v := ⟨command, c.machine⟩) hs).1
    · unfold enter at h
      split at h
      · cases h
      split at h
      · cases h
      cases h
  · cases h
  · cases h
  · cases h

/-- A script that fails for a body that cannot be read fails with the first diagnostic of a text that is
kept from it. -/
theorem exists_kept_of_failed {firstLine resolution : Int} {comments : List Comment}
    {message : Text} {line : Int} {m : Machine}
    (h : execute limits resolution (parse firstLine source).commands comments =
      .failed (.script (.malformedBody message) line) m) :
    ∃ text, Kept source text ∧ ∃ bodyLine d, (parse bodyLine text).diagnostics.head? = some d ∧
      message = d.message ∧ line = d.line := by
  have hend := leads_runCommands limits (parse firstLine source).commands (.start resolution comments)
  rw [execute_eq_failed_iff.mp h] at hend
  obtain ⟨c, hleads, hlast⟩ := hend.last
  have hkept := hleads.keptFrom
  obtain ⟨v, hvisit, hblames⟩ := c.visit_of_malformedBody hlast
  obtain ⟨command, hhead, rfl⟩ := Option.map_eq_some_iff.mp hvisit
  cases hblames with
  | own plain => exact absurd rfl (plain message)
  | body reads first =>
    have hcommand := hkept.commands command (List.mem_of_head? hhead)
    exact ⟨_, Visit.kept_of_body? hcommand hkept.machine reads, _, _, first, rfl, rfl⟩

end TurtleTrace
