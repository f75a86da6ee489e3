import TurtleTrace.Expr.Parser
import TurtleTrace.Proofs.Number.Literal

/-!
# The words of expressions

`Word.Spells` says which words stand for a variable, for a function and for a number. The three kinds
exclude each other: a variable starts with a colon and a number with a digit or a point, which are
the same in lower case, while the name of a function starts with a letter.
-/

namespace TurtleTrace

set_option autoImplicit false

namespace Text

theorem lower_cons {c : Char} (rest : Text) (hsigma : c ≠ 'Σ') (hdotted : c ≠ 'İ') :
    lower (c :: rest) = lowerPartner c :: lowerAfter [c] rest := by
  simp only [lower, lowerAfter, lowerChar, hsigma, hdotted, if_false, List.cons_append,
    List.nil_append]

/-- No run of capitals meets the ten digits of a script. -/
theorem capitalRuns_avoid_digits :
    ∀ first ∈ zeros, ∀ run ∈ capitalRuns, run.2.1 < first ∨ first + 10 ≤ run.1 := by
  decide +kernel

theorem lowerPartner_of_isDigit {c : Char} (hc : isDigit c) : lowerPartner c = c := by
  obtain ⟨d, h⟩ := Option.isSome_iff_exists.mp hc
  by_cases hn : c.toNat < 0x80
  · simp only [digitValue?, hn, if_true, Option.ite_none_right_eq_some, Bool.and_eq_true,
      decide_eq_true_eq] at h
    have hcapital : ¬ (0x41 ≤ c.toNat && c.toNat ≤ 0x5A) = true := by
      simp only [Bool.and_eq_true, decide_eq_true_eq]
      omega
    simp only [lowerPartner, hn, if_true, hcapital, Bool.false_eq_true, if_false]
  · simp only [digitValue?, hn, if_false] at h
    obtain ⟨first, hfirst, hd⟩ := List.exists_of_findSome?_eq_some h
    rw [Option.ite_none_right_eq_some] at hd
    simp only [lowerPartner, hn, if_false]
    split
    · rfl
    · rename_i start last stride way hrun
      have havoid : last < first ∨ first + 10 ≤ start :=
        capitalRuns_avoid_digits first hfirst _ (List.mem_of_find?_eq_some hrun)
      have hin := List.find?_some hrun
      simp only [Bool.and_eq_true, decide_eq_true_eq] at hin
      omega

/-- Digits, points and colons keep their place at the front of a word in lower case. -/
theorem head?_lower_of_stays {c : Char} (rest : Text)
    (h : c = ':' ∨ c = '.' ∨ isDigit c) : (lower (c :: rest)).head? = some c := by
  obtain rfl | rfl | hd := h
  · rfl
  · rfl
  · have hsigma : c ≠ 'Σ' := by
      rintro rfl
      revert hd
      decide
    have hdotted : c ≠ 'İ' := by
      rintro rfl
      revert hd
      decide
    rw [lower_cons rest hsigma hdotted, lowerPartner_of_isDigit hd, List.head?_cons]

end Text

theorem Function.known?_eq_some_iff {name : Text} {f : Function} :
    known? name = some f ↔ f ∈ [sqrt, ln, exp, log10] ∧ f.name = name := by
  constructor
  · intro h
    unfold known? at h
    have hname := List.find?_some h
    exact ⟨List.mem_of_find?_eq_some h, of_decide_eq_true hname⟩
  · rintro ⟨hf, rfl⟩
    simp only [List.mem_cons, List.not_mem_nil, or_false] at hf
    obtain rfl | rfl | rfl | rfl := hf <;> decide

/-- The name of a function starts with a letter. -/
theorem Function.head?_name {f : Function} (h : f ∈ [sqrt, ln, exp, log10]) :
    f.name.head? = some 's' ∨ f.name.head? = some 'l' ∨ f.name.head? = some 'e' := by
  simp only [List.mem_cons, List.not_mem_nil, or_false] at h
  obtain rfl | rfl | rfl | rfl := h <;> decide

namespace Expr

/-- The words of the grammar. -/
inductive Word.Spells : Text → Word → Prop where
  | reference {name : Text} (some : name ≠ []) : Spells (':' :: name) (.reference (Text.lower name))
  | function {letters : Text} {f : Function} (known : f ∈ [.sqrt, .ln, .exp, .log10])
      (anyCase : Text.lower letters = f.name) : Spells letters (.function f)
  | literal {letters : Text} {l : Literal} (pattern : Literal.Spells letters l)
      (finite : l.value.isFinite) : Spells letters (.literal l.value)

/-- A word that starts with a colon, a point or a digit is not the name of a function. -/
theorem known?_lower_eq_none {c : Char} (rest : Text)
    (h : c = ':' ∨ c = '.' ∨ isDigit c) :
    Function.known? (Text.lower (c :: rest)) = none := by
  rw [Option.eq_none_iff_forall_ne_some]
  intro f hf
  obtain ⟨hf, hname⟩ := Function.known?_eq_some_iff.mp hf
  have hhead := Text.head?_lower_of_stays rest h
  rw [← hname] at hhead
  have hletter : c = 's' ∨ c = 'l' ∨ c = 'e' := by
    simpa only [hhead, Option.some.injEq] using Function.head?_name hf
  obtain rfl | rfl | rfl := hletter <;> revert h <;> decide

theorem Word.ofText?_of_ne_colon {letters : Text} (h : ∀ name, letters ≠ ':' :: name) :
    ofText? letters =
      match Function.known? (Text.lower letters) with
      | some f => some (.function f)
      | none => (readNumber? letters).map .literal := by
  unfold ofText?
  split
  · exact absurd rfl (h _)
  · rfl

theorem Word.ofText?_eq_some_iff {letters : Text} {w : Word} :
    ofText? letters = some w ↔ Spells letters w := by
  constructor
  · intro h
    by_cases hcolon : ∃ name, letters = ':' :: name
    · obtain ⟨name, rfl⟩ := hcolon
      cases name with
      | nil => cases h
      | cons c name =>
        cases h
        exact .reference (List.cons_ne_nil c name)
    · rw [ofText?_of_ne_colon (fun name hn => hcolon ⟨name, hn⟩)] at h
      cases hf : Function.known? (Text.lower letters) with
      | some f =>
        rw [hf] at h
        cases h
        obtain ⟨known, hname⟩ := Function.known?_eq_some_iff.mp hf
        exact .function known hname.symm
      | none =>
        rw [hf] at h
        obtain ⟨value, hvalue, rfl⟩ := Option.map_eq_some_iff.mp h
        obtain ⟨l, hl, hfinite, rfl⟩ := readNumber?_eq_some_iff.mp hvalue
        exact .literal hl hfinite
  · intro h
    cases h with
    | @reference name some =>
      cases name with
      | nil => exact absurd rfl some
      | cons c name => rfl
    | @function _ f known anyCase =>
      have hf : Function.known? (Text.lower letters) = some f :=
        Function.known?_eq_some_iff.mpr ⟨known, anyCase.symm⟩
      have hcolon : ∀ name, letters ≠ ':' :: name := by
        rintro name rfl
        rw [known?_lower_eq_none name (.inl rfl)] at hf
        cases hf
      rw [ofText?_of_ne_colon hcolon, hf]
    | @literal _ l pattern finite =>
      obtain ⟨c, rest, rfl, hc⟩ := pattern.exists_cons
      have hcolon : ∀ name, c :: rest ≠ ':' :: name := by
        rintro name hn
        cases hn
        revert hc
        decide
      have hvalue : readNumber? (c :: rest) = some l.value :=
        readNumber?_eq_some_iff.mpr ⟨l, pattern, finite, rfl⟩
      rw [ofText?_of_ne_colon hcolon, known?_lower_eq_none rest (.inr hc), hvalue, Option.map_some]

end Expr

end TurtleTrace
