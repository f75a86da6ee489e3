import TurtleTrace.Proofs.Expr.Written
import TurtleTrace.Proofs.Number.Exact
import TurtleTrace.Proofs.Number.Range

/-!
# The numerals of the generated text

A finite float is written as the nearest multiple of a millionth, by a numeral that has no superfluous
digit and no exponent, and that can be read as a literal or a minus in front of one. So floats have the
same text exactly if they are rounded to the same multiple.

* `Numeral`: the numerals, by sign, whole part and places.
* `stripped`: the numeral with six places without the zeros and the point at its end.
-/

namespace TurtleTrace

set_option autoImplicit false

/-! ## Digits -/

theorem exists_stripRight (c : Char) (t : Text) :
    ∃ k, t = stripRight c t ++ List.replicate k c := by
  refine ⟨(t.reverse.takeWhile (· == c)).length, ?_⟩
  have hsame : t.reverse.takeWhile (· == c) =
      List.replicate (t.reverse.takeWhile (· == c)).length c :=
    List.eq_replicate_iff.mpr
      ⟨rfl, fun d hd => beq_iff_eq.mp (List.all_eq_true.mp List.all_takeWhile d hd)⟩
  rw [stripRight, ← List.reverse_replicate, ← hsame, ← List.reverse_append,
    List.takeWhile_append_dropWhile, List.reverse_reverse]

theorem getLast?_stripRight (c : Char) (t : Text) : (stripRight c t).getLast? ≠ some c := by
  intro h
  have hhead := List.head?_dropWhile_not (· == c) t.reverse
  rw [stripRight, List.getLast?_reverse] at h
  rw [h] at hhead
  simp at hhead

theorem ofDigitChars_append (s t : Text) :
    Nat.ofDigitChars 10 (s ++ t) 0 =
      10 ^ t.length * Nat.ofDigitChars 10 s 0 + Nat.ofDigitChars 10 t 0 := by
  rw [Nat.ofDigitChars_append, Nat.ofDigitChars_eq_ofDigitChars_zero]

namespace Text

theorem ofDigitChars_ofNat (n : Nat) : Nat.ofDigitChars 10 (ofNat n) 0 = n :=
  Nat.ofDigitChars_ten_toDigits

theorem isDigit_padded (width n : Nat) : ∀ c ∈ padded width n, c.isDigit := by
  intro c hc
  obtain hc | hc := List.mem_append.mp hc
  · rw [List.eq_of_mem_replicate hc]
    decide
  · exact isDigit_ofNat n c hc

theorem length_padded {width n : Nat} (hwidth : 0 < width) (hn : n < 10 ^ width) :
    (padded width n).length = width := by
  have hlength := (length_ofNat_le_iff hwidth).mpr hn
  unfold padded
  rw [List.length_append, List.length_replicate]
  omega

theorem ofDigitChars_padded (width n : Nat) : Nat.ofDigitChars 10 (padded width n) 0 = n := by
  unfold padded
  rw [ofDigitChars_append, Nat.ofDigitChars_replicate_zero, Nat.mul_zero, Nat.mul_zero, Nat.zero_add,
    ofDigitChars_ofNat]

end Text

/-- The places of a rest below one, in millionths. -/
def placesOf (rest : Nat) : Text := stripRight '0' (Text.padded decimalPlaces rest)

theorem isDigit_placesOf (rest : Nat) : ∀ c ∈ placesOf rest, c.isDigit := by
  obtain ⟨k, hk⟩ := exists_stripRight '0' (Text.padded decimalPlaces rest)
  exact fun c hc => Text.isDigit_padded decimalPlaces rest c (hk ▸ List.mem_append_left _ hc)

/-- The places are the six digits without some zeros. -/
theorem exists_placesOf {rest : Nat} (h : rest < 10 ^ decimalPlaces) :
    ∃ k, (placesOf rest).length + k = decimalPlaces ∧
      10 ^ k * Nat.ofDigitChars 10 (placesOf rest) 0 = rest := by
  obtain ⟨k, hk⟩ := exists_stripRight '0' (Text.padded decimalPlaces rest)
  refine ⟨k, ?_, ?_⟩
  · have hlength := Text.length_padded (by decide) h
    rwa [hk, List.length_append, List.length_replicate] at hlength
  · have hvalue := Text.ofDigitChars_padded decimalPlaces rest
    rwa [hk, Nat.ofDigitChars_append, Nat.ofDigitChars_replicate_zero] at hvalue

theorem placesOf_eq_nil_iff {rest : Nat} (h : rest < 10 ^ decimalPlaces) :
    placesOf rest = [] ↔ rest = 0 := by
  constructor
  · intro hnil
    obtain ⟨k, -, hvalue⟩ := exists_placesOf h
    rw [hnil] at hvalue
    exact hvalue.symm
  · rintro rfl
    decide

/-! ## Numerals -/

/-- A decimal numeral: digits without a superfluous zero in front, and up to six places without a zero at
their end. -/
structure Numeral where
  negative : Bool
  whole : Text
  places : Text
  wholeDigits : ∀ c ∈ whole, c.isDigit
  placesDigits : ∀ c ∈ places, c.isDigit
  nonempty : whole ≠ []
  leading : whole.head? = some '0' → whole = ['0']
  atMostSix : places.length ≤ 6
  trailing : places.getLast? ≠ some '0'

namespace Numeral

/-- The numeral without its sign. -/
def unsigned (n : Numeral) : Text := n.whole ++ if n.places.isEmpty then [] else '.' :: n.places

def text (n : Numeral) : Text := (if n.negative then ['-'] else []) ++ n.unsigned

/-- All digits of the numeral as one number. -/
def digits (n : Numeral) : Nat := Nat.ofDigitChars 10 (n.whole ++ n.places) 0

/-- The number that the numeral denotes. -/
def value (n : Numeral) : ℚ := signFactor n.negative * (n.digits / 10 ^ n.places.length)

/-- The numeral of a number of millionths. -/
def ofUnits (negative : Bool) (units : Nat) : Numeral where
  negative := negative && units != 0
  whole := Text.ofNat (units / 10 ^ decimalPlaces)
  places := placesOf (units % 10 ^ decimalPlaces)
  wholeDigits := Text.isDigit_ofNat _
  placesDigits := isDigit_placesOf _
  nonempty := Text.ofNat_ne_nil _
  leading := Text.ofNat_of_head?
  atMostSix := by
    obtain ⟨k, hlength, -⟩ := exists_placesOf (Nat.mod_lt units (Nat.pow_pos (by decide)))
    exact Nat.le.intro hlength
  trailing := getLast?_stripRight _ _

theorem text_ofUnits (negative : Bool) (units : Nat) :
    (ofUnits negative units).text = millionths negative units :=
  (List.append_assoc ..).symm

/-- The digits of a numeral with some zeros behind them are the millionths. -/
theorem exists_digits_ofUnits (negative : Bool) (units : Nat) :
    ∃ k, (ofUnits negative units).places.length + k = decimalPlaces ∧
      10 ^ k * (ofUnits negative units).digits = units := by
  obtain ⟨k, hlength, hvalue⟩ := exists_placesOf (Nat.mod_lt units (Nat.pow_pos (by decide)))
  refine ⟨k, hlength, ?_⟩
  show 10 ^ k * Nat.ofDigitChars 10 (Text.ofNat (units / 10 ^ decimalPlaces) ++ placesOf _) 0 = units
  rw [ofDigitChars_append, Text.ofDigitChars_ofNat, Nat.mul_add, hvalue, ← Nat.mul_assoc, ← Nat.pow_add,
    Nat.add_comm k, hlength, Nat.div_add_mod]

theorem value_ofUnits (negative : Bool) (units : Nat) :
    (ofUnits negative units).value = signFactor negative * (units / 10 ^ decimalPlaces) := by
  obtain ⟨k, hlength, hdigits⟩ := exists_digits_ofUnits negative units
  have hscale : ((ofUnits negative units).digits / 10 ^ (ofUnits negative units).places.length : ℚ) =
      units / 10 ^ decimalPlaces := by
    rw [div_eq_div_iff (by positivity) (by positivity), ← hlength, pow_add]
    nth_rewrite 3 [← hdigits]
    push_cast
    ring
  rw [value, hscale]
  show signFactor (negative && units != 0) * _ = _
  by_cases hzero : units = 0
  · rw [hzero, Nat.cast_zero, zero_div, mul_zero, mul_zero]
  · rw [show (units != 0) = true from bne_iff_ne.mpr hzero, Bool.and_true]

/-! ## Texts of numerals -/

theorem exists_unsigned (n : Numeral) : ∃ c rest, n.unsigned = c :: rest ∧ c.isDigit := by
  have hdigits := n.wholeDigits
  unfold unsigned
  cases hwhole : n.whole with
  | nil => exact absurd hwhole n.nonempty
  | cons c rest =>
    rw [hwhole] at hdigits
    exact ⟨c, _, rfl, hdigits c List.mem_cons_self⟩

theorem unsigned_ne_minus (n : Numeral) (rest : Text) : n.unsigned ≠ '-' :: rest := by
  obtain ⟨c, rest', hn, hc⟩ := n.exists_unsigned
  rw [hn]
  intro h
  cases h
  cases hc

theorem takeWhile_unsigned (n : Numeral) : n.unsigned.takeWhile Char.isDigit = n.whole := by
  unfold unsigned
  rw [List.takeWhile_append_of_pos n.wholeDigits]
  split
  · exact List.append_nil _
  · rw [List.takeWhile_cons_of_neg (by decide), List.append_nil]

theorem whole_and_places_of_unsigned {m n : Numeral} (h : m.unsigned = n.unsigned) :
    m.whole = n.whole ∧ m.places = n.places := by
  have hwhole : m.whole = n.whole := by rw [← m.takeWhile_unsigned, h, n.takeWhile_unsigned]
  refine ⟨hwhole, ?_⟩
  unfold unsigned at h
  rw [hwhole] at h
  have htail := List.append_cancel_left h
  cases hm : m.places <;> cases hn : n.places <;> simp_all

/-- A numeral with the same text denotes the same number. -/
theorem value_of_text {m n : Numeral} (h : m.text = n.text) : m.value = n.value := by
  have hsign : m.negative = n.negative ∧ m.unsigned = n.unsigned := by
    unfold text at h
    cases hm : m.negative <;> cases hn : n.negative <;> rw [hm, hn] at h
    · exact ⟨rfl, h⟩
    · exact absurd h (m.unsigned_ne_minus _)
    · exact absurd h.symm (n.unsigned_ne_minus _)
    · exact ⟨rfl, (List.cons.inj h).2⟩
  obtain ⟨hnegative, hunsigned⟩ := hsign
  obtain ⟨hwhole, hplaces⟩ := whole_and_places_of_unsigned hunsigned
  rw [value, value, digits, digits, hnegative, hwhole, hplaces]

/-! ## Reading a numeral -/

/-- The literal that the numeral without its sign is read as. -/
def literal (n : Numeral) : Literal := ⟨n.whole.map asciiValue, n.places.map asciiValue, []⟩

theorem spells_literal (n : Numeral) : Literal.Spells n.unsigned n.literal := by
  have hwhole := isDigits_of_isDigit n.wholeDigits
  have hplaces := isDigits_of_isDigit n.placesDigits
  have hne : n.whole.map asciiValue ≠ [] := mt List.map_eq_nil_iff.mp n.nonempty
  have hexponent : IsExponent [] [] := .inl ⟨rfl, rfl⟩
  unfold unsigned literal
  cases hp : n.places with
  | nil => exact .whole hwhole hne hexponent
  | cons c rest =>
    rw [hp] at hplaces
    have hspells := Literal.Spells.point hwhole hne hplaces hexponent
    rwa [List.append_nil] at hspells

theorem value_literal (n : Numeral) : n.literal.value = ofDecimal n.digits (-n.places.length) := by
  unfold Literal.value literal digits
  dsimp only
  rw [← List.map_append, digitsValue_map, List.length_map]
  congr 1
  exact Int.zero_sub _

/-- A numeral is read as a literal or as a minus in front of one. -/
theorem parse?_text {n : Numeral} (h : (ofDecimal n.digits (-n.places.length)).isFinite) :
    ∃ x, Expr.parse? n.text = some (if n.negative then .negate (.number x) else .number x) := by
  have hword : Expr.Word.Spells n.unsigned (.literal n.literal.value) :=
    .literal n.spells_literal (n.value_literal ▸ h)
  obtain ⟨hne, hplain⟩ := hword.plain_of_literal
  have hscan : Token.scan n.unsigned = [.word n.unsigned] := Token.scan_word hne hplain
  refine ⟨n.literal.value, ?_⟩
  unfold text
  cases n.negative with
  | false =>
    rw [if_neg Bool.false_ne_true, List.nil_append, Expr.parse?, hscan, Expr.ofTokens?_eq_some_iff]
    exact .ofProduct (.ofPower (.ofUnary (.ofAtom (.literal hword))))
  | true =>
    have hminus : Token.scan ('-' :: n.unsigned) = .sign .minus :: Token.scan n.unsigned := rfl
    rw [if_pos rfl, List.singleton_append, Expr.parse?, hminus, hscan, Expr.ofTokens?_eq_some_iff]
    exact .ofProduct (.ofPower (.ofUnary (.negate (.ofAtom (.literal hword)))))

/-! ## Numerals of floats -/

theorem digits_ofUnits_le (negative : Bool) (units : Nat) :
    (ofUnits negative units).digits ≤ units := by
  obtain ⟨k, -, hdigits⟩ := exists_digits_ofUnits negative units
  calc (ofUnits negative units).digits
      ≤ 10 ^ k * (ofUnits negative units).digits := Nat.le_mul_of_pos_left _ (Nat.pow_pos (by decide))
    _ = units := hdigits

/-- A whole number has no places. -/
theorem ofUnits_of_whole (negative : Bool) (m : Nat) :
    (ofUnits negative (10 ^ decimalPlaces * m)).places = [] ∧
      (ofUnits negative (10 ^ decimalPlaces * m)).digits = m := by
  have hplaces : (ofUnits negative (10 ^ decimalPlaces * m)).places = [] :=
    (placesOf_eq_nil_iff (Nat.mod_lt _ (Nat.pow_pos (by decide)))).mpr (Nat.mul_mod_right ..)
  refine ⟨hplaces, ?_⟩
  obtain ⟨k, hlength, hdigits⟩ := exists_digits_ofUnits negative (10 ^ decimalPlaces * m)
  rw [hplaces, List.length_nil, Nat.zero_add] at hlength
  rw [hlength] at hdigits
  exact Nat.eq_of_mul_eq_mul_left (Nat.pow_pos (by decide)) hdigits

/-- Up to its sign, only zero is written as a single zero. -/
theorem units_of_unsigned {negative : Bool} {units : Nat}
    (h : (ofUnits negative units).unsigned = ['0']) : units = 0 := by
  obtain ⟨hwhole, hplaces⟩ := whole_and_places_of_unsigned (n := ofUnits false 0) h
  obtain ⟨k, -, hdigits⟩ := exists_digits_ofUnits negative units
  rw [digits, hwhole, hplaces] at hdigits
  exact hdigits.symm

theorem text_ofUnits_ne (negative : Bool) (units : Nat) :
    (ofUnits negative units).text ≠ ['-', '0'] := by
  intro h
  unfold text at h
  cases hsign : (ofUnits negative units).negative with
  | false =>
    rw [hsign] at h
    exact unsigned_ne_minus _ _ h
  | true =>
    rw [hsign] at h
    have hzero := units_of_unsigned (List.cons.inj h).2
    have hunits : units != 0 := (Bool.and_eq_true_iff.mp hsign).2
    exact bne_iff_ne.mp hunits hzero

/-- The digits are in the range of the reader: a fraction has few, and a whole number has no places. -/
theorem digits_scaled {d : Dyadic} (hmantissa : d.mantissa < 2 ^ 53) (hexponent : d.exponent ≤ 971)
    (negative : Bool) :
    (ofUnits negative (d.scaled decimalPlaces)).digits < 2 ^ 128 ∨
      (ofUnits negative (d.scaled decimalPlaces)).places.length = 0 ∧
        Holds (ofUnits negative (d.scaled decimalPlaces)).digits := by
  obtain hneg | hpos := Int.lt_or_le d.exponent 0
  · left
    have hnumerator : d.numerator = d.mantissa := by
      rw [Dyadic.numerator, Int.toNat_of_nonpos hneg.le]
      exact Nat.one_mul _
    have hbound := (roundHalfEven_bounds (10 ^ decimalPlaces * d.mantissa) d.denominator).2
    have hdiv := Nat.div_le_self (10 ^ decimalPlaces * d.mantissa) d.denominator
    have hunits : d.scaled decimalPlaces ≤ 10 ^ decimalPlaces * d.mantissa + 1 := by
      rw [Dyadic.scaled, hnumerator]
      exact hbound.trans (Nat.succ_le_succ hdiv)
    have hdigits := digits_ofUnits_le negative (d.scaled decimalPlaces)
    have hplaces : decimalPlaces = 6 := rfl
    rw [hplaces] at hunits hdigits ⊢
    omega
  · right
    have hdenominator : d.denominator = 1 := by
      rw [Dyadic.denominator, Int.toNat_of_nonpos (Int.neg_nonpos_of_nonneg hpos)]
    have hunits : d.scaled decimalPlaces = 10 ^ decimalPlaces * d.numerator := by
      have hexact := roundHalfEven_mul (n := 10 ^ decimalPlaces * d.numerator) Nat.one_pos
      rw [Nat.mul_one] at hexact
      rw [Dyadic.scaled, hdenominator]
      exact hexact
    obtain ⟨hplaces, hdigits⟩ := ofUnits_of_whole negative d.numerator
    rw [hunits, hplaces, hdigits]
    exact ⟨rfl, .inr ⟨d.mantissa, d.exponent.toNat, Nat.mul_comm .., hmantissa, by omega⟩⟩

end Numeral

/-! ## Stripping -/

/-- A numeral with a point without the zeros at its end and then without the point. A zero that is left
loses its sign. -/
def stripped (t : Text) : Text :=
  let left := stripRight '.' (stripRight '0' t)
  if left = ['-', '0'] ∨ left = [] then ['0'] else left

theorem stripRight_append (c : Char) (s t : Text) :
    stripRight c (s ++ t) =
      if (stripRight c t).isEmpty then stripRight c s else s ++ stripRight c t := by
  unfold stripRight
  rw [List.reverse_append, List.dropWhile_append, List.isEmpty_reverse]
  split
  · rfl
  · rw [List.reverse_append, List.reverse_reverse]

theorem stripRight_of_getLast? {c : Char} {t : Text} (h : t.getLast? ≠ some c) :
    stripRight c t = t := by
  unfold stripRight
  rw [← List.head?_reverse] at h
  cases hr : t.reverse with
  | nil => exact (List.reverse_eq_nil_iff.mp hr).symm
  | cons d rest =>
    rw [hr] at h
    rw [List.dropWhile_cons_of_neg, ← hr, List.reverse_reverse]
    exact fun heq => h (congrArg some (beq_iff_eq.mp heq))

theorem getLast?_ne_of_isDigit {t : Text} (h : ∀ c ∈ t, c.isDigit) : t.getLast? ≠ some '.' :=
  fun hlast => absurd (h '.' (List.mem_of_getLast? hlast)) (by decide)

theorem stripRight_numeral {s t : Text} (hs : s.getLast? ≠ some '.') (ht : ∀ c ∈ t, c.isDigit) :
    stripRight '.' (stripRight '0' (s ++ '.' :: t)) =
      s ++ if (stripRight '0' t).isEmpty then [] else '.' :: stripRight '0' t := by
  have hdigits : ∀ c ∈ stripRight '0' t, c.isDigit := by
    obtain ⟨k, hk⟩ := exists_stripRight '0' t
    exact fun c hc => ht c (hk ▸ List.mem_append_left _ hc)
  have hzeros : stripRight '0' (s ++ '.' :: t) = (s ++ ['.']) ++ stripRight '0' t := by
    rw [← List.singleton_append, ← List.append_assoc, stripRight_append]
    split
    · rename_i hempty
      rw [List.isEmpty_iff.mp hempty, List.append_nil]
      exact stripRight_of_getLast? (by rw [List.getLast?_concat]; decide)
    · rfl
  rw [hzeros, stripRight_append, stripRight_of_getLast? (getLast?_ne_of_isDigit hdigits)]
  split
  · rw [stripRight_append, List.append_nil]
    exact stripRight_of_getLast? hs
  · rw [List.append_assoc, List.singleton_append]

/-- What is left of the numeral with all places is a numeral, but for the sign of a zero. -/
theorem stripped_of_units (negative : Bool) (units : Nat) :
    stripped ((if negative then ['-'] else []) ++ Text.ofNat (units / 10 ^ decimalPlaces) ++
        '.' :: Text.padded decimalPlaces (units % 10 ^ decimalPlaces)) =
      (Numeral.ofUnits negative units).text := by
  have hlast : ((if negative then ['-'] else []) ++
      Text.ofNat (units / 10 ^ decimalPlaces)).getLast? ≠ some '.' := by
    rw [List.getLast?_append_of_ne_nil _ (Text.ofNat_ne_nil _)]
    exact getLast?_ne_of_isDigit (Text.isDigit_ofNat _)
  have hleft : stripRight '.' (stripRight '0' ((if negative then ['-'] else []) ++
        Text.ofNat (units / 10 ^ decimalPlaces) ++
        '.' :: Text.padded decimalPlaces (units % 10 ^ decimalPlaces))) =
      (if negative then ['-'] else []) ++ (Numeral.ofUnits negative units).unsigned :=
    (stripRight_numeral hlast (Text.isDigit_padded _ _)).trans (List.append_assoc ..)
  obtain ⟨c, rest, hcons, -⟩ := (Numeral.ofUnits negative units).exists_unsigned
  unfold stripped
  dsimp only
  rw [hleft]
  cases negative with
  | false =>
    rw [if_neg Bool.false_ne_true, List.nil_append, if_neg]
    · rfl
    · rintro (hminus | hnil)
      · exact Numeral.unsigned_ne_minus _ _ hminus
      · exact List.cons_ne_nil c rest (hcons.symm.trans hnil)
  | true =>
    by_cases hzero : units = 0
    · rw [hzero]
      decide
    · have hsign : (Numeral.ofUnits true units).negative = true := bne_iff_ne.mpr hzero
      rw [if_pos rfl, List.singleton_append, Numeral.text, hsign, if_pos rfl, if_neg]
      · rfl
      · rintro (hminus | hnil)
        · exact hzero (Numeral.units_of_unsigned (List.cons.inj hminus).2)
        · cases hnil

/-- The numeral is the one with all six places, stripped. -/
theorem decimal_eq_stripped (v : Float) : decimal v = stripped (fixed decimalPlaces v) := by
  unfold decimal fixed
  cases Dyadic.ofFloat? v with
  | none =>
    dsimp only
    unfold notFiniteText
    split
    · decide
    · split <;> decide
  | some d => exact (Numeral.text_ofUnits ..).symm.trans (stripped_of_units ..).symm

/-! ## Floats -/

/-- The numeral of a finite float, and what it can be read as. -/
theorem exists_numeral {v : Float} (h : v.isFinite) :
    ∃ negative units, decimal v = (Numeral.ofUnits negative units).text ∧
      IsNearest (10 ^ decimalPlaces * exactValue v) (if negative then -(units : Int) else units) ∧
      ∃ x, Expr.parse? (decimal v) = some (.number x) ∨
        Expr.parse? (decimal v) = some (.negate (.number x)) := by
  rw [← isSome_ofFloat?] at h
  obtain ⟨d, hd⟩ := Option.isSome_iff_exists.mp h
  have htext : decimal v = (Numeral.ofUnits d.negative (d.scaled decimalPlaces)).text := by
    rw [Numeral.text_ofUnits, decimal, hd]
  obtain ⟨hmantissa, hexponent⟩ := ofFloat?_bounds hd
  refine ⟨d.negative, d.scaled decimalPlaces, htext, ?_, ?_⟩
  · rw [exactValue_eq hd]
    exact d.isNearest_scaled decimalPlaces
  · obtain ⟨x, hx⟩ := Numeral.parse?_text (isFinite_ofDecimal (Numeral.atMostSix _)
      (Numeral.digits_scaled hmantissa hexponent d.negative))
    refine ⟨x, ?_⟩
    rw [htext, hx]
    split
    · exact .inr rfl
    · exact .inl rfl

theorem Numeral.value_ofUnits_eq (negative : Bool) (units : Nat) :
    (ofUnits negative units).value =
      ((if negative then -(units : Int) else units : Int) : ℚ) / 10 ^ decimalPlaces := by
  rw [value_ofUnits]
  cases negative with
  | false =>
    rw [signFactor, if_neg Bool.false_ne_true, if_neg Bool.false_ne_true, one_mul, Int.cast_natCast]
  | true =>
    rw [signFactor, if_pos rfl, if_pos rfl, Int.cast_neg, Int.cast_natCast, neg_one_mul, neg_div]

/-- A signed number of millionths has one text. -/
theorem Numeral.text_ofUnits_of_eq {negative negative' : Bool} {units units' : Nat}
    (h : (if negative then -(units : Int) else units) = if negative' then -(units' : Int) else units') :
    (ofUnits negative units).text = (ofUnits negative' units').text := by
  obtain rfl : units = units' := by split at h <;> split at h <;> omega
  have hsign : (negative && units != 0) = (negative' && units != 0) := by
    by_cases hzero : units = 0
    · rw [hzero, bne_self_eq_false, Bool.and_false, Bool.and_false]
    · have hne : (units : Int) ≠ -units := by omega
      cases negative <;> cases negative'
      · rfl
      · exact absurd h hne
      · exact absurd h.symm hne
      · rfl
  rw [text_ofUnits, text_ofUnits]
  unfold millionths
  rw [hsign]

/-- The text of a finite float is a numeral of the multiple of a millionth that is nearest to it, with
ties to even. It is never a zero with a sign, it is read as a literal or as a minus in front of one, and
two floats have one text exactly if they have the same nearest multiple. It is what is left of the numeral
with six places when its zeros and its point are stripped. -/
theorem decimal_of_finite {v : Float} (h : v.isFinite) :
    (∃ n : Numeral, decimal v = n.text ∧ ∃ k : ℤ, n.value = k / 10 ^ 6 ∧
        ∀ j : ℤ, IsNearest (10 ^ 6 * exactValue v) j ↔ j = k) ∧
      decimal v ≠ ['-', '0'] ∧
      (∃ x, Expr.parse? (decimal v) = some (.number x) ∨
        Expr.parse? (decimal v) = some (.negate (.number x))) ∧
      (∀ w : Float, w.isFinite → (decimal v = decimal w ↔
        ∃ k : ℤ, IsNearest (10 ^ 6 * exactValue v) k ∧ IsNearest (10 ^ 6 * exactValue w) k)) ∧
      decimal v = stripped (fixed 6 v) := by
  obtain ⟨negative, units, htext, hnearest, hparse⟩ := exists_numeral h
  refine ⟨⟨_, htext, _, Numeral.value_ofUnits_eq negative units, fun j => ?_⟩, ?_, hparse, ?_,
    decimal_eq_stripped v⟩
  · exact ⟨fun hj => hj.unique hnearest, fun hj => hj ▸ hnearest⟩
  · rw [htext]
    exact Numeral.text_ofUnits_ne negative units
  · intro w hw
    obtain ⟨negative', units', htext', hnearest', -⟩ := exists_numeral hw
    rw [htext, htext']
    constructor
    · intro heq
      have hvalue := Numeral.value_of_text heq
      rw [Numeral.value_ofUnits_eq, Numeral.value_ofUnits_eq, div_left_inj' (by positivity),
        Int.cast_inj] at hvalue
      exact ⟨_, hnearest, hvalue ▸ hnearest'⟩
    · rintro ⟨k, hk, hk'⟩
      exact Numeral.text_ofUnits_of_eq ((hnearest.unique hk).trans (hk'.unique hnearest'))

/-- A tie between two millionths goes to the even one. -/
theorem decimal_of_tie :
    (0.0078125 : Float).isFinite ∧ (0.007812 : Float).isFinite ∧
      decimal 0.0078125 = "0.007812".toList ∧
      ∃ k : ℤ, IsNearest (10 ^ 6 * exactValue 0.0078125) k ∧
        IsNearest (10 ^ 6 * exactValue 0.007812) k := by
  have hv : (0.0078125 : Float).isFinite := by decide +kernel
  have hw : (0.007812 : Float).isFinite := by decide +kernel
  exact ⟨hv, hw, by decide +kernel, ((decimal_of_finite hv).2.2.2.1 _ hw).mp (by decide +kernel)⟩

end TurtleTrace
