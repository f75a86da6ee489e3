import TurtleTrace.Number.Literal

/-!
# The texts of number literals

`Literal.Spells` is the pattern of literals: digits with an optional point and more digits behind it,
or a point and digits, and then an optional exponent. The reader of literals accepts exactly the texts
of this pattern.
-/

namespace TurtleTrace

set_option autoImplicit false

/-! ## Digits -/

/-- The characters of a text are digits with the given values. -/
def IsDigits (t : Text) (digits : List Nat) : Prop := t.map digitValue? = digits.map some

/-- A text does not go on with a digit. -/
def NoDigit (t : Text) : Prop := ∀ c ∈ t.head?, digitValue? c = none

theorem isDigits_nil : IsDigits [] [] := rfl

theorem IsDigits.cons {c : Char} {d : Nat} {t : Text} {digits : List Nat}
    (hc : digitValue? c = some d) (h : IsDigits t digits) : IsDigits (c :: t) (d :: digits) := by
  rw [IsDigits, List.map_cons, List.map_cons, hc, h]

theorem isDigits_cons {c : Char} {t : Text} {digits : List Nat} (h : IsDigits (c :: t) digits) :
    ∃ d ds, digits = d :: ds ∧ digitValue? c = some d ∧ IsDigits t ds := by
  cases digits with
  | nil => cases h
  | cons d ds =>
    rw [IsDigits, List.map_cons, List.map_cons, List.cons.injEq] at h
    exact ⟨d, ds, rfl, h.1, h.2⟩

theorem isDigits_nil_iff {t : Text} : IsDigits t [] ↔ t = [] := by
  rw [IsDigits, List.map_nil, List.map_eq_nil_iff]

theorem IsDigits.exists_cons {t : Text} {digits : List Nat} (h : IsDigits t digits)
    (hne : digits ≠ []) : ∃ c rest, t = c :: rest ∧ isDigit c := by
  cases t with
  | nil => exact absurd (List.map_eq_nil_iff.mp h.symm) hne
  | cons c t =>
    obtain ⟨d, -, -, hc, -⟩ := isDigits_cons h
    exact ⟨c, t, rfl, Option.isSome_iff_exists.mpr ⟨d, hc⟩⟩

theorem readDigits_append {t rest : Text} {digits : List Nat} (h : IsDigits t digits)
    (hrest : NoDigit rest) : readDigits (t ++ rest) = (digits, rest) := by
  induction t generalizing digits with
  | nil =>
    have hd : digits = [] := List.map_eq_nil_iff.mp h.symm
    subst hd
    cases rest with
    | nil => rfl
    | cons c rest =>
      have hc : digitValue? c = none := hrest c rfl
      simp only [List.nil_append, readDigits, hc]
  | cons c t ih =>
    obtain ⟨d, ds, rfl, hc, ht⟩ := isDigits_cons h
    simp only [List.cons_append, readDigits, hc, ih ht]

theorem readDigits_spec (t : Text) :
    ∃ w, t = w ++ (readDigits t).2 ∧ IsDigits w (readDigits t).1 ∧ NoDigit (readDigits t).2 := by
  induction t with
  | nil => exact ⟨[], rfl, isDigits_nil, fun _ h => (by cases h)⟩
  | cons c t ih =>
    obtain ⟨w, hw, hdigits, hrest⟩ := ih
    cases hc : digitValue? c with
    | none =>
      simp only [readDigits, hc]
      refine ⟨[], rfl, isDigits_nil, ?_⟩
      intro d hd
      cases hd
      exact hc
    | some d =>
      simp only [readDigits, hc]
      exact ⟨c :: w, by rw [List.cons_append, ← hw], hdigits.cons hc, hrest⟩

/-! ## The pattern -/

/-- Nothing, or a mark `e` or `E` and at least one digit. -/
def IsExponent (t : Text) (digits : List Nat) : Prop :=
  t = [] ∧ digits = [] ∨
    ∃ mark w, (mark = 'e' ∨ mark = 'E') ∧ t = mark :: w ∧ IsDigits w digits ∧ digits ≠ []

/-- The texts that write a literal. -/
inductive Literal.Spells : Text → Literal → Prop where
  | whole {w x : Text} {whole exponent : List Nat} (digits : IsDigits w whole) (some : whole ≠ [])
      (exp : IsExponent x exponent) : Spells (w ++ x) ⟨whole, [], exponent⟩
  | point {w f x : Text} {whole fraction exponent : List Nat} (digits : IsDigits w whole)
      (some : whole ≠ []) (places : IsDigits f fraction) (exp : IsExponent x exponent) :
      Spells (w ++ '.' :: (f ++ x)) ⟨whole, fraction, exponent⟩
  | places {f x : Text} {fraction exponent : List Nat} (places : IsDigits f fraction)
      (some : fraction ≠ []) (exp : IsExponent x exponent) :
      Spells ('.' :: (f ++ x)) ⟨[], fraction, exponent⟩

theorem noDigit_point (t : Text) : NoDigit ('.' :: t) := by
  intro c hc
  cases hc
  decide

theorem IsExponent.noDigit {t : Text} {digits : List Nat} (h : IsExponent t digits) : NoDigit t := by
  intro c hc
  obtain ⟨rfl, -⟩ | ⟨mark, w, hmark, rfl, -, -⟩ := h
  · cases hc
  · cases hc
    obtain rfl | rfl := hmark <;> decide

theorem IsExponent.head_ne_point {t : Text} {digits : List Nat} (h : IsExponent t digits) :
    ∀ rest, t ≠ '.' :: rest := by
  intro rest ht
  obtain ⟨rfl, -⟩ | ⟨mark, w, hmark, rfl, -, -⟩ := h
  · cases ht
  · cases ht
    obtain hm | hm := hmark <;> cases hm

theorem Literal.Spells.exists_cons {t : Text} {l : Literal} (h : Spells t l) :
    ∃ c rest, t = c :: rest ∧ (c = '.' ∨ isDigit c) := by
  cases h with
  | whole digits some exp =>
    obtain ⟨c, rest, rfl, hc⟩ := digits.exists_cons some
    exact ⟨c, _, rfl, .inr hc⟩
  | point digits some places exp =>
    obtain ⟨c, rest, rfl, hc⟩ := digits.exists_cons some
    exact ⟨c, _, rfl, .inr hc⟩
  | places places some exp => exact ⟨'.', _, rfl, .inl rfl⟩

/-! ## The reader -/

namespace Literal

theorem readExponent?_eq_some_iff {t : Text} {digits : List Nat} :
    readExponent? t = some digits ↔ IsExponent t digits := by
  cases t with
  | nil =>
    constructor
    · intro h
      cases h
      exact .inl ⟨rfl, rfl⟩
    · rintro (⟨-, rfl⟩ | ⟨mark, w, -, ht, -⟩)
      · rfl
      · cases ht
  | cons mark rest =>
    constructor
    · intro h
      by_cases hmark : mark = 'e' ∨ mark = 'E'
      · obtain ⟨w, hw, hdigits, -⟩ := readDigits_spec rest
        cases hr : readDigits rest with
        | mk found after =>
          simp only [readExponent?, hmark, if_true, hr] at h
          rw [hr] at hw hdigits
          cases found with
          | nil => cases h
          | cons d ds =>
            cases after with
            | cons c after => cases h
            | nil =>
              cases h
              rw [List.append_nil] at hw
              exact .inr ⟨mark, w, hmark, by rw [hw], hdigits, List.cons_ne_nil d ds⟩
      · simp only [readExponent?, hmark, if_false] at h
        cases h
    · rintro (⟨ht, -⟩ | ⟨m, w, hmark, ht, hdigits, hne⟩)
      · cases ht
      · cases ht
        have hr : readDigits (rest ++ []) = (digits, []) :=
          readDigits_append hdigits (fun _ h => (by cases h))
        rw [List.append_nil] at hr
        cases digits with
        | nil => exact absurd rfl hne
        | cons d ds => simp only [readExponent?, hmark, if_true, hr]

theorem spells_of_read? {t : Text} {l : Literal} (h : read? t = some l) : Spells t l := by
  obtain ⟨w, hw, hdigits, -⟩ := readDigits_spec t
  unfold read? at h
  split at h
  case h_1 rest hr =>
    rw [hr] at hw hdigits
    cases isDigits_nil_iff.mp hdigits
    obtain ⟨f, hf, hplaces, -⟩ := readDigits_spec rest
    split at h
    case h_1 => cases h
    case h_2 fraction after hne hr' =>
      rw [hr'] at hf hplaces
      obtain ⟨exponent, hx, rfl⟩ := Option.map_eq_some_iff.mp h
      rw [hw, hf]
      exact .places hplaces hne (readExponent?_eq_some_iff.mp hx)
  case h_2 => cases h
  case h_3 whole rest hne hr =>
    rw [hr] at hw hdigits
    obtain ⟨f, hf, hplaces, -⟩ := readDigits_spec rest
    obtain ⟨exponent, hx, rfl⟩ := Option.map_eq_some_iff.mp h
    have ht : t = w ++ '.' :: (f ++ (readDigits rest).2) := by rw [hw, ← hf]
    rw [ht]
    exact .point hdigits hne hplaces (readExponent?_eq_some_iff.mp hx)
  case h_4 whole rest _ hne _ hr =>
    rw [hr] at hw hdigits
    obtain ⟨exponent, hx, rfl⟩ := Option.map_eq_some_iff.mp h
    rw [hw]
    exact .whole hdigits hne (readExponent?_eq_some_iff.mp hx)

theorem read?_of_spells {t : Text} {l : Literal} (h : Spells t l) : read? t = some l := by
  cases h with
  | @whole w x whole exponent digits some exp =>
    have hr := readDigits_append digits exp.noDigit
    have hx := readExponent?_eq_some_iff.mpr exp
    unfold read?
    rw [hr]
    split
    case h_1 heq => exact absurd (congrArg Prod.fst heq) some
    case h_2 heq => exact absurd (congrArg Prod.fst heq) some
    case h_3 heq => exact absurd (congrArg Prod.snd heq) (exp.head_ne_point _)
    case h_4 heq =>
      cases heq
      rw [hx, Option.map_some]
  | @point w f x whole fraction exponent digits some places exp =>
    have hr := readDigits_append digits (noDigit_point (f ++ x))
    have hf := readDigits_append places exp.noDigit
    have hx := readExponent?_eq_some_iff.mpr exp
    cases whole with
    | nil => exact absurd rfl some
    | cons d ds => simp only [read?, hr, hf, hx, Option.map_some]
  | @places f x fraction exponent places some exp =>
    have hr : readDigits ('.' :: (f ++ x)) = ([], '.' :: (f ++ x)) :=
      readDigits_append isDigits_nil (noDigit_point (f ++ x))
    have hf := readDigits_append places exp.noDigit
    have hx := readExponent?_eq_some_iff.mpr exp
    cases fraction with
    | nil => exact absurd rfl some
    | cons d ds => simp only [read?, hr, hf, hx, Option.map_some]

theorem read?_eq_some_iff {t : Text} {l : Literal} : read? t = some l ↔ Spells t l :=
  ⟨spells_of_read?, read?_of_spells⟩

end Literal

theorem readNumber?_eq_some_iff {t : Text} {value : Float} :
    readNumber? t = some value ↔ ∃ l, Literal.Spells t l ∧ l.value.isFinite ∧ l.value = value := by
  unfold readNumber?
  constructor
  · intro h
    cases hl : Literal.read? t with
    | none =>
      rw [hl] at h
      cases h
    | some l =>
      simp only [hl] at h
      by_cases hfinite : l.value.isFinite
      · rw [if_pos hfinite] at h
        exact ⟨l, Literal.read?_eq_some_iff.mp hl, hfinite, Option.some.inj h⟩
      · rw [if_neg hfinite] at h
        cases h
  · rintro ⟨l, hl, hfinite, rfl⟩
    simp only [Literal.read?_eq_some_iff.mpr hl, hfinite, if_true]

end TurtleTrace
