import Mathlib.Algebra.Group.Int.Defs
import TurtleTrace.CommandLine.Run
import TurtleTrace.Proofs.Json.Reader

/-!
# Loading and saving settings

Loading takes one setting after the other into the same settings and checks all of them each time. The
settings stay in their ranges on the way, so a check only ever finds fault with the setting that was
just taken, and each setting comes out as its own entry says, whatever the others are.

Saving writes one setting after the other and breaks off in front of a number that has too many digits.
A file that was written to the end is read as it was meant, and any other cannot be read at all.

* `Field.value`: a setting as a JSON value.
* `Field.accepts`: the values of a setting, by type and range.
* `Field.chosen`: what an entry makes of a setting.
* `Field.line`: a setting as it stands in the file.
* `Settings.numbers`: the settings that may have too many digits.
-/

namespace TurtleTrace

set_option autoImplicit false

namespace Field

/-- A setting as a JSON value. -/
def value (s : Settings) : Field → Json
  | resolution => .int s.resolution
  | indent => .int s.indent
  | circles => .bool s.circles
  | callDepth => .int s.callDepth
  | steps => .int s.steps

/-- Whether a JSON value has the type of a setting and lies in its range. -/
def accepts : Field → Json → Bool
  | resolution, .int n => 1 ≤ n
  | indent, .int n => 0 ≤ n
  | circles, .bool _ => true
  | callDepth, .int n => 1 ≤ n ∧ n ≤ 200
  | steps, .int n => 1 ≤ n
  | _, _ => false

/-- What an entry makes of a setting: itself if it is accepted, and the given value otherwise. -/
def chosen (f : Field) (otherwise : Json) : Option Json → Json
  | some entry => if f.accepts entry then entry else otherwise
  | none => otherwise

theorem mem_all (f : Field) : f ∈ all := by cases f <;> decide

theorem nodup_all : all.Nodup := by decide

end Field

/-! ## One setting -/

theorem Settings.ext_value {s t : Settings} (h : ∀ f : Field, f.value s = f.value t) : s = t := by
  have hresolution := Json.int.inj (h .resolution)
  have hindent := Json.int.inj (h .indent)
  have hcircles := Json.bool.inj (h .circles)
  have hdepth := Json.int.inj (h .callDepth)
  have hsteps := Json.int.inj (h .steps)
  cases s
  cases t
  simp_all

/-- Settings are in their ranges if each of them is. -/
theorem Settings.fault?_eq_none_iff {s : Settings} :
    s.fault? = none ↔ ∀ f : Field, f.accepts (f.value s) := by
  have hfields : (∀ f : Field, f.accepts (f.value s)) ↔
      1 ≤ s.resolution ∧ 0 ≤ s.indent ∧ (1 ≤ s.callDepth ∧ s.callDepth ≤ 200) ∧ 1 ≤ s.steps := by
    constructor
    · exact fun h => ⟨of_decide_eq_true (h .resolution), of_decide_eq_true (h .indent),
        of_decide_eq_true (h .callDepth), of_decide_eq_true (h .steps)⟩
    · rintro ⟨hresolution, hindent, hdepth, hsteps⟩ f
      cases f with
      | resolution => exact decide_eq_true hresolution
      | indent => exact decide_eq_true hindent
      | circles => rfl
      | callDepth => exact decide_eq_true hdepth
      | steps => exact decide_eq_true hsteps
  rw [hfields]
  unfold fault? callDepthLimit
  grind

namespace Field

variable {f : Field} {s s' : Settings} {entry : Json}

/-- Taking a value replaces one setting and leaves the others alone. -/
theorem value_of_set? (h : f.set? s entry = some s') :
    f.value s' = entry ∧ ∀ g ≠ f, g.value s' = g.value s := by
  unfold set? at h
  split at h
  case h_6 => cases h
  all_goals
    cases h
    refine ⟨rfl, fun g hg => ?_⟩
    cases g <;> first | rfl | exact absurd rfl hg

theorem accepts_of_set? (h : f.set? s entry = none) : f.accepts entry = false := by
  unfold accepts
  split
  case h_6 => rfl
  all_goals cases h

/-- As long as the settings are in their ranges, taking an entry leaves them there. It changes nothing
but the one setting, as the entry says, and warns only of an entry that is not accepted. -/
theorem load_spec (f : Field) (members : List (List Nat × Json)) (h : s.fault? = none) :
    (f.load members s).1.fault? = none ∧
    f.value (f.load members s).1 = f.chosen (f.value s) (Json.member? f.key members) ∧
    (∀ g ≠ f, g.value (f.load members s).1 = g.value s) ∧
    (∀ entry, Json.member? f.key members = some entry → f.accepts entry →
      (f.load members s).2 = []) := by
  unfold load
  cases hentry : Json.member? f.key members with
  | none => exact ⟨h, rfl, fun _ _ => rfl, fun _ he => by cases he⟩
  | some entry =>
    dsimp only [chosen]
    cases hset : f.set? s entry with
    | none =>
      have hrefused : ¬ f.accepts entry = true := by
        rw [accepts_of_set? hset]
        exact Bool.false_ne_true
      rw [if_neg hrefused]
      exact ⟨h, rfl, fun _ _ => rfl, fun _ he ha => by cases he; exact absurd ha hrefused⟩
    | some s' =>
      obtain ⟨hvalue, hothers⟩ := value_of_set? hset
      -- The other settings were in their ranges before, so the check is one of this setting.
      have hfault : s'.fault? = none ↔ f.accepts entry := by
        rw [Settings.fault?_eq_none_iff] at h ⊢
        constructor
        · exact fun hall => hvalue ▸ hall f
        · intro haccepts g
          by_cases hg : g = f
          · rw [hg, hvalue]
            exact haccepts
          · rw [hothers g hg]
            exact h g
      dsimp only
      cases hcheck : s'.fault? with
      | none =>
        rw [if_pos (hfault.mp hcheck)]
        exact ⟨hcheck, hvalue, hothers, fun _ _ _ => rfl⟩
      | some fault =>
        have hrefused : ¬ f.accepts entry = true := fun haccepts => by
          rw [hfault.mpr haccepts] at hcheck
          cases hcheck
        rw [if_neg hrefused]
        exact ⟨h, rfl, fun _ _ => rfl, fun _ he ha => by cases he; exact absurd ha hrefused⟩

end Field

/-! ## All settings -/

/-- Each setting of a row that is loaded comes out as its own entry says. -/
theorem loadFields_spec (members : List (List Nat × Json)) {fields : List Field}
    (hnodup : fields.Nodup) {s : Settings} (h : s.fault? = none) :
    (loadFields members fields s).1.fault? = none ∧
    (∀ f ∈ fields, f.value (loadFields members fields s).1 =
      f.chosen (f.value s) (Json.member? f.key members)) ∧
    (∀ f ∉ fields, f.value (loadFields members fields s).1 = f.value s) ∧
    ((∀ f ∈ fields, ∃ entry, Json.member? f.key members = some entry ∧ f.accepts entry) →
      (loadFields members fields s).2 = []) := by
  induction fields generalizing s with
  | nil => exact ⟨h, fun _ hf => absurd hf List.not_mem_nil, fun _ _ => rfl, fun _ => rfl⟩
  | cons f rest ih =>
    obtain ⟨hf, hrest⟩ := List.nodup_cons.mp hnodup
    obtain ⟨hfault, hvalue, hothers, hwarning⟩ := f.load_spec members h
    obtain ⟨hfault', hvalues', hothers', hwarnings'⟩ := ih hrest hfault
    refine ⟨hfault', ?_, ?_, ?_⟩
    · intro g hg
      obtain rfl | hg := List.mem_cons.mp hg
      · exact (hothers' g hf).trans hvalue
      · have hne : g ≠ f := fun he => hf (he ▸ hg)
        rw [← hothers g hne]
        exact hvalues' g hg
    · intro g hg
      rw [List.mem_cons, not_or] at hg
      exact (hothers' g hg.2).trans (hothers g hg.1)
    · intro hentries
      obtain ⟨⟨entry, hentry, haccepts⟩, hentries⟩ := List.forall_mem_cons.mp hentries
      show (f.load members s).2 ++ (loadFields members rest (f.load members s).1).2 = []
      rw [hwarning entry hentry haccepts, hwarnings' hentries]
      rfl

theorem fault?_default : Settings.default.fault? = none := by decide

/-- Loaded settings are in their ranges, and each is what its own entry makes of the default. -/
theorem ofMembers_spec (members : List (List Nat × Json)) :
    (Settings.ofMembers members).1.fault? = none ∧
    ∀ f : Field, f.value (Settings.ofMembers members).1 =
      f.chosen (f.value .default) (Json.member? f.key members) := by
  obtain ⟨hfault, hvalues, -, -⟩ := loadFields_spec members Field.nodup_all fault?_default
  exact ⟨hfault, fun f => hvalues f f.mem_all⟩

/-- Settings in their ranges are loaded from an object that has them as its entries. -/
theorem ofMembers_of_values {s : Settings} (h : s.fault? = none) {members : List (List Nat × Json)}
    (hmembers : ∀ f : Field, Json.member? f.key members = some (f.value s)) :
    Settings.ofMembers members = (s, []) := by
  have haccepts := Settings.fault?_eq_none_iff.mp h
  obtain ⟨-, hvalues, -, hwarnings⟩ := loadFields_spec members Field.nodup_all fault?_default
  refine Prod.ext (Settings.ext_value fun f => ?_) ?_
  · refine (hvalues f f.mem_all).trans ?_
    rw [hmembers]
    exact if_pos (haccepts f)
  · exact hwarnings fun f _ => ⟨f.value s, hmembers f, haccepts f⟩

/-! ## Reading what was saved -/

namespace Field

theorem isLiteral_key (f : Field) : ∀ c ∈ f.key, Json.isLiteral c := by
  cases f <;> exact List.all_eq_true.mp (by decide)

theorem countP_ofInt (n : Int) :
    (Text.ofInt n).countP Char.isDigit = (Text.ofNat n.natAbs).length := by
  have hdigits : ∀ m, (Text.ofNat m).countP Char.isDigit = (Text.ofNat m).length := fun m =>
    List.countP_eq_length.mpr (Text.isDigit_ofNat m)
  cases n with
  | ofNat n => exact hdigits n
  | negSucc n =>
    refine Eq.trans ?_ (hdigits (n + 1))
    exact List.countP_cons_of_neg (by decide)

/-- A setting is a number, shown as one, or a truth value, shown as one. -/
theorem valueText_cases (f : Field) (s : Settings) :
    (∃ n, f.value s = .int n ∧ f.valueText s = Text.ofInt n) ∨
    (∃ b, f.value s = .bool b ∧ f.valueText s = if b then "true".toList else "false".toList) := by
  cases f with
  | circles => exact .inr ⟨s.circles, rfl, rfl⟩
  | _ => exact .inl ⟨_, rfl, rfl⟩

theorem readValue_valueText {f : Field} {s : Settings} (hwritable : f.isWritable s) (bound : Nat)
    {rest : Text} (h : Json.EndsNumber rest) :
    Json.readValue (bound + 1) (f.valueText s ++ rest) = some (f.value s, rest) := by
  rw [isWritable, decide_eq_true_eq] at hwritable
  obtain ⟨n, hvalue, htext⟩ | ⟨b, hvalue, htext⟩ := f.valueText_cases s
  · rw [htext, countP_ofInt] at hwritable
    rw [hvalue, htext, Json.readValue_ofInt bound n h, if_neg (Nat.not_lt.mpr hwritable)]
  · rw [hvalue, htext]
    cases b <;> rfl

theorem skipSpace_front (f : Field) (rest : Text) :
    Json.skipSpace (f.front ++ rest) = '"' :: (f.key ++ '"' :: ':' :: ' ' :: rest) := by
  simp only [front, List.append_assoc]
  rfl

theorem skipSpace_valueText (f : Field) (s : Settings) (rest : Text) :
    Json.skipSpace (' ' :: (f.valueText s ++ rest)) = f.valueText s ++ rest := by
  obtain ⟨n, -, htext⟩ | ⟨b, -, htext⟩ := f.valueText_cases s
  · rw [htext]
    exact Json.skipSpace_ofInt n rest
  · rw [htext]
    cases b <;> rfl

/-- The entry of a setting, put into the members that were read before. -/
def enter (s : Settings) (members : List (List Nat × Json)) (f : Field) : List (List Nat × Json) :=
  Json.put (Json.points f.key) (f.value s) members

theorem readMembers_valueText {f : Field} {s : Settings} {rest : Text} (hwritable : f.isWritable s)
    (h : Json.EndsNumber rest) (bound n : Nat) (before : List (List Nat × Json)) :
    Json.readMembers (Json.readValue (bound + 1)) (n + 1) before (f.front ++ (f.valueText s ++ rest)) =
      match Json.skipSpace rest with
      | '\x7d' :: rest => some (enter s before f, rest)
      | ',' :: rest => Json.readMembers (Json.readValue (bound + 1)) n (enter s before f) rest
      | _ => none := by
  have hcolon : ∀ u, Json.skipSpace (':' :: u) = ':' :: u := fun _ => rfl
  simp only [Json.readMembers, skipSpace_front, Json.readString_append f.isLiteral_key, hcolon,
    skipSpace_valueText, readValue_valueText hwritable bound h]
  rfl

end Field

theorem file_settingParts (s : Settings) (mark : Char) (f : Field) (fields : List Field) :
    (writeParts (settingParts s mark (f :: fields))).file =
      mark :: (f.front ++ (writeParts (f.valueText? s :: settingParts s ',' fields)).file) := rfl

theorem writeParts_valueText? {f : Field} {s : Settings} (h : f.isWritable s)
    (parts : List (Option Text)) :
    writeParts (f.valueText? s :: parts) =
      { writeParts parts with file := f.valueText s ++ (writeParts parts).file } := by
  rw [Field.valueText?, if_pos h]
  rfl

theorem writeParts_valueText?_of_not {f : Field} {s : Settings} (h : ¬ f.isWritable s)
    (parts : List (Option Text)) : writeParts (f.valueText? s :: parts) = ⟨[], false⟩ := by
  rw [Field.valueText?, if_neg h]
  rfl

/-- A file that ends in front of a value cannot be read. -/
theorem readMembers_of_not {f : Field} {s : Settings} (h : ¬ f.isWritable s)
    (parts : List (Option Text)) (bound n : Nat) (before : List (List Nat × Json)) :
    Json.readMembers (Json.readValue (bound + 1)) (n + 1) before
      (f.front ++ (writeParts (f.valueText? s :: parts)).file) = none := by
  have hcolon : ∀ u, Json.skipSpace (':' :: u) = ':' :: u := fun _ => rfl
  simp only [writeParts_valueText?_of_not h, Json.readMembers, Field.skipSpace_front,
    Json.readString_append f.isLiteral_key, hcolon]
  rfl

/-- The members that were written are read in order, unless one of them could not be written. -/
theorem readMembers_written (s : Settings) (bound : Nat) {fields : List Field} (f : Field) {n : Nat}
    (hn : fields.length < n) (before : List (List Nat × Json)) :
    Json.readMembers (Json.readValue (bound + 1)) n before
        (f.front ++ (writeParts (f.valueText? s :: settingParts s ',' fields)).file) =
      if (f :: fields).all (·.isWritable s) then some ((f :: fields).foldl (Field.enter s) before, [])
      else none := by
  induction fields generalizing f n before with
  | nil =>
    obtain ⟨n, rfl⟩ := Nat.exists_eq_succ_of_ne_zero (Nat.ne_zero_of_lt hn)
    by_cases hf : f.isWritable s
    · have hends : Json.EndsNumber "\n\x7d".toList := by
        rintro _ ⟨⟩
        decide
      rw [writeParts_valueText? hf]
      refine (Field.readMembers_valueText hf hends bound n before).trans ?_
      rw [List.all_cons, hf]
      rfl
    · rw [readMembers_of_not hf, List.all_cons, if_neg (by simp [hf])]
  | cons g fields ih =>
    obtain ⟨n, rfl⟩ := Nat.exists_eq_succ_of_ne_zero (Nat.ne_zero_of_lt hn)
    by_cases hf : f.isWritable s
    · let later := g.front ++ (writeParts (g.valueText? s :: settingParts s ',' fields)).file
      have hends : Json.EndsNumber (',' :: later) := by
        rintro _ ⟨⟩
        decide
      rw [writeParts_valueText? hf, file_settingParts]
      refine (Field.readMembers_valueText hf hends bound n before).trans ?_
      rw [List.all_cons, hf, Bool.true_and]
      exact ih g (Nat.lt_of_succ_lt_succ hn) (Field.enter s before f)
    · rw [readMembers_of_not hf, List.all_cons, if_neg (by simp [hf])]

/-- The object that settings are saved as. -/
def savedMembers (s : Settings) : List (List Nat × Json) := Field.all.foldl (Field.enter s) []

theorem member?_savedMembers (s : Settings) (f : Field) :
    Json.member? f.key (savedMembers s) = some (f.value s) := by
  cases f <;> rfl

/-- What was saved is read back as that object, unless a setting could not be written. -/
theorem read?_saved (s : Settings) :
    Json.read? s.saved.file =
      if Field.all.all (·.isWritable s) then some (.object (savedMembers s)) else none := by
  let tail := (writeParts (Field.resolution.valueText? s :: settingParts s ',' Field.all.tail)).file
  have hfile : s.saved.file = '\x7b' :: (Field.resolution.front ++ tail) := rfl
  have hstart := Field.resolution.skipSpace_front tail
  obtain ⟨bound, hbound⟩ : ∃ bound, s.saved.file.length = bound + 1 := by
    rw [hfile]
    exact ⟨_, rfl⟩
  have hfields : Field.all.tail.length < bound + 1 := by
    have hfront : Field.all.tail.length < Field.resolution.front.length := by decide
    rw [← hbound, hfile, List.length_cons, List.length_append]
    omega
  have hmembers : Json.readMembers (Json.readValue (bound + 1)) (bound + 1) []
      (Field.resolution.front ++ tail) =
      if Field.all.all (·.isWritable s) then some (savedMembers s, []) else none :=
    readMembers_written s bound .resolution hfields []
  have hopen : ∀ t, Json.skipSpace ('\x7b' :: t) = '\x7b' :: t := fun _ => rfl
  rw [Json.read?_eq_bind, hbound, hfile, hopen, Json.readValue_object (bound + 1) hstart, hmembers]
  cases Field.all.all (·.isWritable s) <;> rfl

/-! ## The saved file -/

/-- A setting on its line, with the end of the line before it. -/
def Field.line (s : Settings) (f : Field) : Text := f.front ++ f.valueText s

/-- Settings that can be written are written to the end. -/
theorem writeParts_settingParts {s : Settings} {f : Field} {fields : List Field}
    (h : ∀ g ∈ f :: fields, g.isWritable s) (mark : Char) :
    writeParts (settingParts s mark (f :: fields)) =
      ⟨mark :: (Text.join [','] ((f :: fields).map (Field.line s)) ++ "\n\x7d".toList), true⟩ := by
  induction fields generalizing f mark with
  | nil =>
    rw [settingParts, writeParts, writeParts_valueText? (h f List.mem_cons_self)]
    simp [settingParts, writeParts, Text.join, Field.line]
  | cons g fields ih =>
    obtain ⟨hf, hfields⟩ := List.forall_mem_cons.mp h
    rw [settingParts, writeParts, writeParts_valueText? hf, ih hfields]
    simp [Text.join, Field.line]

/-- The first setting that cannot be written ends the file in front of its value. -/
theorem writeParts_settingParts_of_not {s : Settings} {before : List Field}
    (hbefore : ∀ g ∈ before, g.isWritable s) {f : Field} (hf : ¬ f.isWritable s) (after : List Field)
    (mark : Char) :
    writeParts (settingParts s mark (before ++ f :: after)) =
      ⟨mark :: Text.join [','] (before.map (Field.line s) ++ [f.front]), false⟩ := by
  induction before generalizing mark with
  | nil =>
    rw [List.nil_append, settingParts, writeParts, writeParts_valueText?_of_not hf]
    simp [Text.join]
  | cons g before ih =>
    obtain ⟨hg, hbefore⟩ := List.forall_mem_cons.mp hbefore
    rw [List.cons_append, settingParts, writeParts, writeParts_valueText? hg, ih hbefore]
    cases before <;> simp [Text.join, Field.line]

/-- A setting can be written unless it is a number of more than 4300 digits. -/
theorem Field.isWritable_iff (f : Field) (s : Settings) :
    f.isWritable s ↔ ∀ n, f.value s = .int n → n.natAbs < 10 ^ Json.maxIntDigits := by
  unfold isWritable
  obtain ⟨n, hvalue, htext⟩ | ⟨b, hvalue, htext⟩ := f.valueText_cases s
  · rw [hvalue, htext, decide_eq_true_eq, countP_ofInt, Text.length_ofNat_le_iff (by decide)]
    exact ⟨fun h m hm => Json.int.inj hm ▸ h, fun h => h n rfl⟩
  · rw [hvalue, htext]
    exact iff_of_true (by cases b <;> decide) fun _ h => by cases h

theorem Field.isWritable_iff_lt {s : Settings} (h : s.fault? = none) (f : Field) :
    f.isWritable s ↔ ∀ n, f.value s = .int n → n < 10 ^ Json.maxIntDigits := by
  rw [isWritable_iff]
  refine forall₂_congr fun n hn => ?_
  have hnonneg : 0 ≤ n := by
    have haccepts := Settings.fault?_eq_none_iff.mp h f
    rw [hn] at haccepts
    cases f with
    | resolution => exact Int.le_trans (by decide) (of_decide_eq_true haccepts)
    | indent => exact of_decide_eq_true haccepts
    | circles => cases hn
    | callDepth => exact Int.le_trans (by decide) (of_decide_eq_true haccepts).1
    | steps => exact Int.le_trans (by decide) (of_decide_eq_true haccepts)
  have hcast : ((n.natAbs : Nat) : Int) = n := Int.natAbs_of_nonneg hnonneg
  rw [← Int.ofNat_lt, hcast, Int.natCast_pow]
  rfl

/-- The numbers among settings. -/
def Settings.numbers (s : Settings) : List Int := [s.resolution, s.indent, s.callDepth, s.steps]

theorem Settings.mem_numbers_iff {s : Settings} {n : Int} :
    n ∈ s.numbers ↔ ∃ f : Field, f.value s = .int n := by
  simp only [numbers, List.mem_cons, List.not_mem_nil, or_false]
  constructor
  · rintro (rfl | rfl | rfl | rfl)
    · exact ⟨.resolution, rfl⟩
    · exact ⟨.indent, rfl⟩
    · exact ⟨.callDepth, rfl⟩
    · exact ⟨.steps, rfl⟩
  · rintro ⟨f, hf⟩
    cases f <;> cases hf <;> simp

/-- All settings can be written if their numbers have at most 4300 digits. -/
theorem all_isWritable_iff {s : Settings} (h : s.fault? = none) :
    Field.all.all (·.isWritable s) = true ↔ ∀ n ∈ s.numbers, n < 10 ^ Json.maxIntDigits := by
  simp only [List.all_eq_true, Field.isWritable_iff_lt h, Settings.mem_numbers_iff, Field.mem_all,
    true_implies, forall_exists_index]
  exact forall_comm

/-- Settings that cannot all be written have a first that cannot. -/
theorem exists_not_isWritable {s : Settings} (h : ¬ Field.all.all (·.isWritable s) = true) :
    ∃ (before : List Field) (f : Field) (after : List Field), Field.all = before ++ f :: after ∧
      (∀ g ∈ before, g.isWritable s) ∧ ¬ f.isWritable s := by
  have hsome : (Field.all.find? (!·.isWritable s)).isSome := by simpa using h
  obtain ⟨f, hfind⟩ := Option.isSome_iff_exists.mp hsome
  obtain ⟨hf, before, after, hall, hbefore⟩ := List.find?_eq_some_iff_append.mp hfind
  exact ⟨before, f, after, hall, by simpa using hbefore, by simpa using hf⟩

/-! ## Line ends -/

theorem carriageReturn_not_mem_ofInt (n : Int) : '\r' ∉ Text.ofInt n := by
  have hdigits : ∀ m, '\r' ∉ Text.ofNat m := fun m hm =>
    absurd (Text.isDigit_ofNat m _ hm) (by decide)
  cases n with
  | ofNat n => exact hdigits n
  | negSucc n => exact List.not_mem_cons_of_ne_of_not_mem (by decide) (hdigits (n + 1))

theorem carriageReturn_not_mem_valueText (f : Field) (s : Settings) : '\r' ∉ f.valueText s := by
  obtain ⟨n, -, htext⟩ | ⟨b, -, htext⟩ := f.valueText_cases s
  · rw [htext]
    exact carriageReturn_not_mem_ofInt n
  · rw [htext]
    cases b <;> decide

theorem carriageReturn_not_mem_settingParts {s : Settings} {mark : Char} (hmark : '\r' ≠ mark)
    (fields : List Field) : '\r' ∉ (writeParts (settingParts s mark fields)).file := by
  induction fields generalizing mark with
  | nil => exact (by decide : '\r' ∉ "\n\x7d".toList)
  | cons f fields ih =>
    have hfront : '\r' ∉ f.front := by cases f <;> decide
    have hvalue : '\r' ∉ (writeParts (f.valueText? s :: settingParts s ',' fields)).file := by
      by_cases hf : f.isWritable s
      · rw [writeParts_valueText? hf]
        exact fun h => (List.mem_append.mp h).elim (carriageReturn_not_mem_valueText f s)
          (ih (by decide))
      · rw [writeParts_valueText?_of_not hf]
        exact List.not_mem_nil
    rw [file_settingParts]
    exact List.not_mem_cons_of_ne_of_not_mem hmark fun h => (List.mem_append.mp h).elim hfront hvalue

/-- Without a carriage return there is no line end to translate. -/
theorem universalLineEnds_of_not_mem {t : Text} (h : '\r' ∉ t) :
    CommandLine.universalLineEnds t = t := by
  fun_induction CommandLine.universalLineEnds t with
  | case1 => rfl
  | case2 => simp at h
  | case3 => simp at h
  | case4 c rest hpair hsingle ih => rw [ih (List.not_mem_of_not_mem_cons h)]

/-- Settings in their ranges are loaded from their file as they were, or else it cannot be read. -/
theorem load_saved (path : Text) {s : Settings} (h : s.fault? = none) :
    Settings.load path (some (CommandLine.universalLineEnds s.saved.file)) =
      if Field.all.all (·.isWritable s) then (s, []) else (.default, [.unreadable path]) := by
  have hreturn : '\r' ∉ s.saved.file := carriageReturn_not_mem_settingParts (by decide) Field.all
  rw [universalLineEnds_of_not_mem hreturn, Settings.load, Option.bind_some, read?_saved s]
  cases Field.all.all (·.isWritable s) with
  | true => exact ofMembers_of_values h (member?_savedMembers s)
  | false => rfl

/-- Whatever the members of an object, the settings loaded from them are in their ranges, and each
setting is its own entry if that has its type and lies in its range, and the default otherwise. Settings
in their ranges whose numbers have at most 4300 digits are written to the end and loaded again without
a warning. With a longer number the file ends in front of the first such number, and nothing but the
defaults is loaded from it. -/
theorem settings_loaded_and_saved (path : Text) :
    (∀ members, (Settings.ofMembers members).1.fault? = none ∧
      ∀ f : Field, f.value (Settings.ofMembers members).1 =
        f.chosen (f.value .default) (Json.member? f.key members)) ∧
    ∀ s : Settings, s.fault? = none →
      ((∀ n ∈ s.numbers, n < 10 ^ Json.maxIntDigits) →
        s.saved = ⟨'\x7b' :: (Text.join [','] (Field.all.map (Field.line s)) ++ "\n\x7d".toList),
          true⟩ ∧
        Settings.load path (some (CommandLine.universalLineEnds s.saved.file)) = (s, [])) ∧
      ((∃ n ∈ s.numbers, 10 ^ Json.maxIntDigits ≤ n) →
        (∃ before f after n, Field.all = before ++ f :: after ∧
          (∀ g ∈ before, ∀ k, g.value s = .int k → k < 10 ^ Json.maxIntDigits) ∧
          f.value s = .int n ∧ 10 ^ Json.maxIntDigits ≤ n ∧
          s.saved = ⟨'\x7b' :: Text.join [','] (before.map (Field.line s) ++ [f.front]), false⟩) ∧
        Settings.load path (some (CommandLine.universalLineEnds s.saved.file)) =
          (.default, [.unreadable path])) := by
  refine ⟨ofMembers_spec, fun s h => ⟨fun hall => ?_, ?_⟩⟩
  · have hwritable := (all_isWritable_iff h).mpr hall
    refine ⟨writeParts_settingParts (List.all_eq_true.mp hwritable) _, ?_⟩
    rw [load_saved path h, if_pos hwritable]
  · rintro ⟨n, hn, hlong⟩
    have hwritable : ¬ Field.all.all (·.isWritable s) = true := fun hall =>
      Int.not_lt.mpr hlong ((all_isWritable_iff h).mp hall n hn)
    refine ⟨?_, by rw [load_saved path h, if_neg hwritable]⟩
    obtain ⟨before, f, after, hfields, hbefore, hf⟩ := exists_not_isWritable hwritable
    have hsaved := writeParts_settingParts_of_not hbefore hf after '\x7b'
    rw [← hfields] at hsaved
    have hlimit := f.isWritable_iff_lt h
    obtain ⟨k, hk, hlong⟩ : ∃ k, f.value s = .int k ∧ 10 ^ Json.maxIntDigits ≤ k := by
      simpa [hlimit] using hf
    exact ⟨before, f, after, k, hfields, fun g hg => (g.isWritable_iff_lt h).mp (hbefore g hg), hk,
      hlong, hsaved⟩

theorem fault?_of_steps {s : Settings} {n : Int} (h : s.fault? = none) (hn : 0 < n) :
    ({ s with steps := n } : Settings).fault? = none := by
  have hranges := Settings.fault?_eq_none_iff.mp h
  refine Settings.fault?_eq_none_iff.mpr fun f => ?_
  cases f with
  | steps => exact decide_eq_true hn
  | _ => exact hranges _

theorem settings_loaded_and_saved_indent :
    let path := "settings.json".toList
    let s : Settings := { indent := 4, callDepth := 7 }
    let long : Settings := { s with steps := 10 ^ Json.maxIntDigits }
    (s.fault? = none ∧ (∀ n ∈ s.numbers, n < 10 ^ Json.maxIntDigits) ∧
      Settings.load path (some (CommandLine.universalLineEnds s.saved.file)) = (s, [])) ∧
    (long.fault? = none ∧ long.steps ∈ long.numbers ∧
      Settings.load path (some (CommandLine.universalLineEnds long.saved.file)) =
        (.default, [.unreadable path])) := by
  intro path s long
  have hs : s.fault? = none := by decide
  have hshort : ∀ n ∈ s.numbers, n < 10 ^ Json.maxIntDigits := by decide +kernel
  have hlong : long.fault? = none := fault?_of_steps hs (Int.pow_pos (by decide))
  have hmem : long.steps ∈ long.numbers := Settings.mem_numbers_iff.mpr ⟨.steps, rfl⟩
  exact ⟨⟨hs, hshort, (((settings_loaded_and_saved path).2 s hs).1 hshort).2⟩, hlong, hmem,
    (((settings_loaded_and_saved path).2 long hlong).2 ⟨_, hmem, Int.le_refl _⟩).2⟩

/-- A number of steps with 4301 digits is in its range, but saving breaks off in front of it, and the
defaults are loaded instead. -/
theorem settings_with_too_many_digits :
    let path := "settings.json".toList
    let s : Settings := { Settings.default with steps := 10 ^ Json.maxIntDigits }
    s.fault? = none ∧
      s.saved = ⟨("\x7b\n  \"arc_resolution_default\": 40,\n  \"indent_spaces\": 2,\n  " ++
        "\"prefer_circle_primitives\": true,\n  \"max_call_depth\": 100,\n  \"max_steps\": ").toList,
        false⟩ ∧
      Settings.load path (some (CommandLine.universalLineEnds s.saved.file)) =
        (.default, [.unreadable path]) := by
  intro path s
  have hfault : s.fault? = none := fault?_of_steps fault?_default (Int.pow_pos (by decide))
  have hsteps : ¬ Field.steps.isWritable s := fun h =>
    Int.lt_irrefl _ ((Field.steps.isWritable_iff_lt hfault).mp h _ rfl)
  have hbefore : ∀ g ∈ [Field.resolution, .indent, .circles, .callDepth], g.isWritable s :=
    List.all_eq_true.mp (by decide)
  have hall : ¬ Field.all.all (·.isWritable s) = true := fun hall =>
    hsteps (List.all_eq_true.mp hall _ (Field.mem_all _))
  have hsaved := writeParts_settingParts_of_not hbefore hsteps [] '\x7b'
  refine ⟨hfault, hsaved.trans (congrArg (Saved.mk · false) ?_), ?_⟩
  · decide +kernel
  · exact (load_saved path hfault).trans (if_neg hall)

end TurtleTrace
