import TurtleTrace.Proofs.Expr.Word

/-!
# The grammar of expressions

`Derives level tokens e` says that the tokens, all of them, write the tree `e` at a level of the
grammar. The reader of expressions accepts exactly the texts whose tokens derive a tree from the
loosest level, and it gives that tree; so no list of tokens has two trees.

Soundness follows the recursion of the readers. Completeness is an induction on derivations: a reader
that meets the tokens of a derivation takes exactly these, whatever stands behind them, unless the
next token goes on with the expression (`Level.absorbs`).
-/

namespace TurtleTrace

set_option autoImplicit false

namespace Expr

/-! ## The grammar -/

/-- The levels of the grammar, loosest first. -/
inductive Level where
  | sum
  | product
  | power
  | unary
  | atom
  deriving DecidableEq, Repr

/-- The tokens write the tree at a level. Sums and products group to the left and powers to the
right, and a minus or a function in front binds tighter than a power. -/
inductive Derives : Level → List Token → Expr → Prop where
  | ofProduct {ts : List Token} {e : Expr} : Derives .product ts e → Derives .sum ts e
  | add {ts us : List Token} {l r : Expr} : Derives .sum ts l → Derives .product us r →
      Derives .sum (ts ++ .sign .plus :: us) (.binary .add l r)
  | sub {ts us : List Token} {l r : Expr} : Derives .sum ts l → Derives .product us r →
      Derives .sum (ts ++ .sign .minus :: us) (.binary .sub l r)
  | ofPower {ts : List Token} {e : Expr} : Derives .power ts e → Derives .product ts e
  | mul {ts us : List Token} {l r : Expr} : Derives .product ts l → Derives .power us r →
      Derives .product (ts ++ .sign .star :: us) (.binary .mul l r)
  | div {ts us : List Token} {l r : Expr} : Derives .product ts l → Derives .power us r →
      Derives .product (ts ++ .sign .slash :: us) (.binary .div l r)
  | ofUnary {ts : List Token} {e : Expr} : Derives .unary ts e → Derives .power ts e
  | pow {ts us : List Token} {l r : Expr} : Derives .unary ts l → Derives .power us r →
      Derives .power (ts ++ .sign .caret :: us) (.binary .pow l r)
  | ofAtom {ts : List Token} {e : Expr} : Derives .atom ts e → Derives .unary ts e
  | negate {ts : List Token} {e : Expr} : Derives .unary ts e →
      Derives .unary (.sign .minus :: ts) (.negate e)
  | parens {ts : List Token} {e : Expr} : Derives .sum ts e →
      Derives .atom (.sign .opening :: (ts ++ [.sign .closing])) e
  | reference {letters name : Text} : Word.Spells letters (.reference name) →
      Derives .atom [.word letters] (.var name)
  | apply {letters : Text} {f : Function} {ts : List Token} {e : Expr} :
      Word.Spells letters (.function f) → Derives .unary ts e →
      Derives .atom (.word letters :: ts) (.apply f e)
  | literal {letters : Text} {value : Float} : Word.Spells letters (.literal value) →
      Derives .atom [.word letters] (.number value)

theorem Derives.length_pos {level : Level} {ts : List Token} {e : Expr} (h : Derives level ts e) :
    0 < ts.length := by
  induction h with
  | ofProduct _ ih | ofPower _ ih | ofUnary _ ih | ofAtom _ ih => exact ih
  | add | sub | mul | div | pow =>
    rw [List.length_append, List.length_cons]
    omega
  | negate | parens | reference | apply | literal => exact Nat.succ_pos _

/-! ## Soundness -/

/-- What a reader takes from the front derives its tree. -/
def Reader.Sound (level : Level) (reader : Reader) : Prop :=
  ∀ ⦃tokens e rest⦄, reader tokens = some (e, rest) →
    ∃ used, tokens = used ++ rest ∧ Derives level used e

section Chain

variable {operand : Reader} {operator? : Token → Option Operator} {inner outer : Level}

theorem chainFrom_sound (hoperand : operand.Sound inner)
    (hjoin : ∀ ⦃token op ts us l r⦄, operator? token = some op → Derives outer ts l →
      Derives inner us r → Derives outer (ts ++ token :: us) (.binary op l r))
    {n : Nat} {before tokens rest : List Token} {left e : Expr} (hleft : Derives outer before left)
    (h : chainFrom operand operator? n left tokens = some (e, rest)) :
    ∃ used, tokens = used ++ rest ∧ Derives outer (before ++ used) e := by
  induction n generalizing before tokens left with
  | zero =>
    cases h
    exact ⟨[], rfl, by rwa [List.append_nil]⟩
  | succ n ih =>
    cases tokens with
    | nil =>
      cases h
      exact ⟨[], rfl, by rwa [List.append_nil]⟩
    | cons token tokens =>
      cases hop : operator? token with
      | none =>
        simp only [chainFrom, hop] at h
        cases h
        exact ⟨[], rfl, by rwa [List.append_nil]⟩
      | some op =>
        cases hr : operand tokens with
        | none =>
          simp only [chainFrom, hop, hr] at h
          cases h
        | some read =>
          obtain ⟨right, after⟩ := read
          simp only [chainFrom, hop, hr] at h
          obtain ⟨us, rfl, hright⟩ := hoperand hr
          obtain ⟨used, rfl, he⟩ := ih (hjoin hop hleft hright) h
          refine ⟨token :: (us ++ used), by rw [List.cons_append, List.append_assoc], ?_⟩
          rwa [List.append_assoc, List.cons_append] at he

theorem chain_sound (hoperand : operand.Sound inner)
    (hstart : ∀ ⦃ts e⦄, Derives inner ts e → Derives outer ts e)
    (hjoin : ∀ ⦃token op ts us l r⦄, operator? token = some op → Derives outer ts l →
      Derives inner us r → Derives outer (ts ++ token :: us) (.binary op l r)) (bound : Nat) :
    Reader.Sound outer (chain operand operator? bound) := by
  intro tokens e rest h
  unfold chain at h
  split at h
  · cases h
  · rename_i left after hr
    obtain ⟨ts, rfl, hleft⟩ := hoperand hr
    obtain ⟨used, rfl, he⟩ := chainFrom_sound hoperand hjoin (hstart hleft) h
    exact ⟨ts ++ used, by rw [List.append_assoc], he⟩

end Chain

theorem power_sound {reader : Reader} (hreader : reader.Sound .unary) (n : Nat) :
    Reader.Sound .power (power reader n) := by
  intro tokens e rest h
  induction n generalizing tokens e rest with
  | zero =>
    obtain ⟨used, rfl, he⟩ := hreader h
    exact ⟨used, rfl, .ofUnary he⟩
  | succ n ih =>
    unfold power at h
    split at h
    · cases h
    · rename_i left after hr
      obtain ⟨ts, rfl, hleft⟩ := hreader hr
      split at h
      · cases h
      · rename_i right after' hr'
        cases h
        obtain ⟨us, rfl, hright⟩ := ih hr'
        exact ⟨ts ++ .sign .caret :: us, by rw [List.append_assoc, List.cons_append],
          .pow hleft hright⟩
    · rename_i left after _ hr
      cases h
      obtain ⟨ts, rfl, hleft⟩ := hreader hr
      exact ⟨ts, rfl, .ofUnary hleft⟩

theorem product_sound {reader : Reader} (hreader : reader.Sound .unary) (bound : Nat) :
    Reader.Sound .product (product reader bound) := by
  refine chain_sound (power_sound hreader bound) (fun _ _ => .ofPower) ?_ bound
  intro token op ts us l r hop hl hr
  unfold productOperator? at hop
  split at hop
  · cases hop
    exact .mul hl hr
  · cases hop
    exact .div hl hr
  · cases hop

theorem sum_sound {reader : Reader} (hreader : reader.Sound .unary) (bound : Nat) :
    Reader.Sound .sum (sum reader bound) := by
  refine chain_sound (product_sound hreader bound) (fun _ _ => .ofProduct) ?_ bound
  intro token op ts us l r hop hl hr
  unfold sumOperator? at hop
  split at hop
  · cases hop
    exact .add hl hr
  · cases hop
    exact .sub hl hr
  · cases hop

theorem unary_sound (bound : Nat) : Reader.Sound .unary (unary bound) := by
  intro tokens e rest h
  induction bound generalizing tokens e rest with
  | zero => cases h
  | succ bound ih =>
    unfold unary at h
    split at h
    · rename_i tokens
      obtain ⟨⟨operand, after⟩, hr, heq⟩ := Option.map_eq_some_iff.mp h
      cases heq
      obtain ⟨used, rfl, he⟩ := ih hr
      exact ⟨.sign .minus :: used, rfl, .negate he⟩
    · rename_i tokens
      split at h
      · rename_i inside after hr
        cases h
        obtain ⟨used, rfl, he⟩ := sum_sound ih bound hr
        refine ⟨.sign .opening :: (used ++ [.sign .closing]), ?_, .ofAtom (.parens he)⟩
        rw [List.cons_append, List.append_assoc, List.singleton_append]
      · cases h
    · rename_i letters tokens
      split at h
      · cases h
      · rename_i name hw
        cases h
        exact ⟨[.word letters], rfl, .ofAtom (.reference (Word.ofText?_eq_some_iff.mp hw))⟩
      · rename_i f hw
        obtain ⟨⟨operand, after⟩, hr, heq⟩ := Option.map_eq_some_iff.mp h
        cases heq
        obtain ⟨used, rfl, he⟩ := ih hr
        exact ⟨.word letters :: used, rfl, .ofAtom (.apply (Word.ofText?_eq_some_iff.mp hw) he)⟩
      · rename_i value hw
        cases h
        exact ⟨[.word letters], rfl, .ofAtom (.literal (Word.ofText?_eq_some_iff.mp hw))⟩
    · cases h

/-! ## Completeness -/

/-- The tokens with which an expression of a level goes on. -/
def Level.absorbs : Level → Token → Bool
  | .sum, token =>
    (sumOperator? token).isSome || (productOperator? token).isSome || token = .sign .caret
  | .product, token => (productOperator? token).isSome || token = .sign .caret
  | .power, token => token = .sign .caret
  | .unary, _ => false
  | .atom, _ => false

/-- An expression of the level ends in front of these tokens. -/
def Level.EndsAt (level : Level) (rest : List Token) : Prop :=
  ∀ token ∈ rest.head?, level.absorbs token = false

theorem Level.endsAt_nil (level : Level) : level.EndsAt [] := fun _ h => (by cases h)

theorem Level.endsAt_cons {level : Level} {token : Token} (rest : List Token)
    (h : level.absorbs token = false) : level.EndsAt (token :: rest) := by
  intro next hnext
  cases hnext
  exact h

theorem Level.EndsAt.product_of_sum {rest : List Token} (h : Level.EndsAt .sum rest) :
    Level.EndsAt .product rest := by
  intro token htoken
  have hsum := h token htoken
  simp only [absorbs, Bool.or_eq_false_iff] at hsum ⊢
  exact ⟨hsum.1.2, hsum.2⟩

theorem Level.EndsAt.power_of_product {rest : List Token} (h : Level.EndsAt .product rest) :
    Level.EndsAt .power rest := by
  intro token htoken
  have hproduct := h token htoken
  simp only [absorbs, Bool.or_eq_false_iff] at hproduct ⊢
  exact hproduct.2

section Chain

variable {operand : Reader} {operator? : Token → Option Operator} {bound : Nat} {inner : Level}

theorem chainFrom_of_none {n : Nat} {e : Expr} {rest : List Token}
    (h : ∀ token ∈ rest.head?, operator? token = none) :
    chainFrom operand operator? n e rest = some (e, rest) := by
  cases n with
  | zero => rfl
  | succ n =>
    cases rest with
    | nil => rfl
    | cons token rest =>
      have hnone : operator? token = none := h token rfl
      simp only [chainFrom, hnone]

/-- Whatever ends the operands may follow: the chain reads the tokens of `e` and goes on from there,
with operators to spare for the tokens that are left. -/
def Joins (operand : Reader) (operator? : Token → Option Operator) (bound : Nat) (inner : Level)
    (ts : List Token) (e : Expr) : Prop :=
  ∀ rest, inner.EndsAt rest → ∃ taken, taken < ts.length ∧
    chain operand operator? bound (ts ++ rest) =
      chainFrom operand operator? (bound - taken) e rest

theorem Joins.start {ts : List Token} {e : Expr} (hpos : 0 < ts.length)
    (h : ∀ rest, inner.EndsAt rest → operand (ts ++ rest) = some (e, rest)) :
    Joins operand operator? bound inner ts e := by
  intro rest hrest
  refine ⟨0, hpos, ?_⟩
  simp only [chain, h rest hrest, Nat.sub_zero]

theorem Joins.next {ts us : List Token} {l r : Expr} {token : Token} {op : Operator}
    (hl : Joins operand operator? bound inner ts l) (hop : operator? token = some op)
    (hends : inner.absorbs token = false) (hbound : ts.length ≤ bound)
    (hr : ∀ rest, inner.EndsAt rest → operand (us ++ rest) = some (r, rest)) :
    Joins operand operator? bound inner (ts ++ token :: us) (.binary op l r) := by
  intro rest hrest
  obtain ⟨taken, htaken, hl⟩ := hl (token :: (us ++ rest)) (Level.endsAt_cons _ hends)
  have hspare : bound - taken = (bound - (taken + 1)) + 1 := by omega
  refine ⟨taken + 1, by rw [List.length_append, List.length_cons]; omega, ?_⟩
  rw [List.append_assoc, List.cons_append, hl, hspare]
  simp only [chainFrom, hop, hr rest hrest]

theorem Joins.finish {ts : List Token} {e : Expr} {rest : List Token}
    (h : Joins operand operator? bound inner ts e) (hinner : inner.EndsAt rest)
    (hnone : ∀ token ∈ rest.head?, operator? token = none) :
    chain operand operator? bound (ts ++ rest) = some (e, rest) := by
  obtain ⟨taken, -, h⟩ := h rest hinner
  rw [h, chainFrom_of_none hnone]

end Chain

/-- The readers of a level take exactly the given tokens and give the tree. The bounds on nesting and
on operators need only cover these tokens. -/
def Complete : Level → List Token → Expr → Prop
  | .sum, ts, e => ∀ bound, ts.length ≤ bound →
      Joins (product (unary bound) bound) sumOperator? bound .product ts e
  | .product, ts, e => ∀ bound, ts.length ≤ bound →
      Joins (power (unary bound) bound) productOperator? bound .power ts e
  | .power, ts, e => ∀ bound n, ts.length ≤ bound → ts.length ≤ n → ∀ rest, Level.EndsAt .power rest →
      power (unary bound) n (ts ++ rest) = some (e, rest)
  | .unary, ts, e | .atom, ts, e => ∀ bound, ts.length ≤ bound → ∀ rest,
      unary bound (ts ++ rest) = some (e, rest)

theorem Complete.product_eq {ts rest : List Token} {e : Expr} {bound : Nat}
    (h : Complete .product ts e) (hbound : ts.length ≤ bound) (hrest : Level.EndsAt .product rest) :
    product (unary bound) bound (ts ++ rest) = some (e, rest) := by
  refine (h bound hbound).finish hrest.power_of_product ?_
  intro token htoken
  have hproduct := hrest token htoken
  simp only [Level.absorbs, Bool.or_eq_false_iff, Option.isSome_eq_false_iff,
    Option.isNone_iff_eq_none] at hproduct
  exact hproduct.1

theorem Complete.sum_eq {ts rest : List Token} {e : Expr} {bound : Nat}
    (h : Complete .sum ts e) (hbound : ts.length ≤ bound) (hrest : Level.EndsAt .sum rest) :
    sum (unary bound) bound (ts ++ rest) = some (e, rest) := by
  refine (h bound hbound).finish hrest.product_of_sum ?_
  intro token htoken
  have hsum := hrest token htoken
  simp only [Level.absorbs, Bool.or_eq_false_iff, Option.isSome_eq_false_iff,
    Option.isNone_iff_eq_none] at hsum
  exact hsum.1.1

theorem Complete.sum_next {ts us : List Token} {l r : Expr} {token : Token} {op : Operator}
    (hl : Complete .sum ts l) (hr : Complete .product us r) (hop : sumOperator? token = some op)
    (hends : Level.absorbs .product token = false) :
    Complete .sum (ts ++ token :: us) (.binary op l r) := by
  intro bound hbound
  rw [List.length_append, List.length_cons] at hbound
  exact (hl bound (by omega)).next hop hends (by omega)
    (fun rest hrest => hr.product_eq (by omega) hrest)

theorem Complete.product_next {ts us : List Token} {l r : Expr} {token : Token} {op : Operator}
    (hl : Complete .product ts l) (hr : Complete .power us r)
    (hop : productOperator? token = some op) (hends : Level.absorbs .power token = false) :
    Complete .product (ts ++ token :: us) (.binary op l r) := by
  intro bound hbound
  rw [List.length_append, List.length_cons] at hbound
  exact (hl bound (by omega)).next hop hends (by omega)
    (fun rest hrest => hr bound bound (by omega) (by omega) rest hrest)

theorem Complete.power_of_unary {ts : List Token} {e : Expr} (h : Complete .unary ts e) :
    Complete .power ts e := by
  intro bound n hbound hn rest hrest
  have hunary := h bound hbound rest
  cases n with
  | zero => exact hunary
  | succ n =>
    unfold power
    rw [hunary]
    split
    case h_1 heq => cases heq
    case h_2 heq =>
      cases heq
      cases hrest _ rfl
    case h_3 heq => exact heq.symm

theorem Complete.pow {ts us : List Token} {l r : Expr} (hl : Complete .unary ts l)
    (hr : Complete .power us r) : Complete .power (ts ++ .sign .caret :: us) (.binary .pow l r) := by
  intro bound n hbound hn rest hrest
  rw [List.length_append, List.length_cons] at hbound hn
  have hleft := hl bound (by omega) (.sign .caret :: (us ++ rest))
  cases n with
  | zero => omega
  | succ n =>
    have hright := hr bound n (by omega) (by omega) rest hrest
    rw [List.append_assoc, List.cons_append]
    simp only [power, hleft, hright]

/-- Each token in front costs one level of nesting. -/
theorem Complete.of_cons {token : Token} {ts : List Token} {e : Expr}
    (h : ∀ bound, ts.length ≤ bound → ∀ rest,
      unary (bound + 1) (token :: (ts ++ rest)) = some (e, rest)) : Complete .unary (token :: ts) e := by
  intro bound hbound rest
  rw [List.length_cons] at hbound
  cases bound with
  | zero => omega
  | succ bound => exact h bound (by omega) rest

theorem Complete.negate {ts : List Token} {e : Expr} (h : Complete .unary ts e) :
    Complete .unary (.sign .minus :: ts) (.negate e) := by
  apply Complete.of_cons
  intro bound hbound rest
  have hoperand := h bound hbound rest
  simp only [unary, hoperand, Option.map_some]

theorem Complete.parens {ts : List Token} {e : Expr} (h : Complete .sum ts e) :
    Complete .atom (.sign .opening :: (ts ++ [.sign .closing])) e := by
  apply Complete.of_cons
  intro bound hbound rest
  rw [List.length_append] at hbound
  have hends : Level.EndsAt .sum (.sign .closing :: rest) := Level.endsAt_cons rest rfl
  have hinside : sum (unary bound) bound (ts ++ .sign .closing :: rest) =
      some (e, .sign .closing :: rest) := h.sum_eq (by omega) hends
  simp only [List.append_assoc, List.cons_append, List.nil_append, unary, hinside]

theorem Complete.apply {letters : Text} {f : Function} {ts : List Token} {e : Expr}
    (hw : Word.Spells letters (.function f)) (h : Complete .unary ts e) :
    Complete .atom (.word letters :: ts) (.apply f e) := by
  apply Complete.of_cons
  intro bound hbound rest
  have hargument := h bound hbound rest
  simp only [unary, Word.ofText?_eq_some_iff.mpr hw, hargument, Option.map_some]

theorem Complete.reference {letters name : Text} (hw : Word.Spells letters (.reference name)) :
    Complete .atom [.word letters] (.var name) := by
  apply Complete.of_cons
  intro bound _ rest
  simp only [List.nil_append, unary, Word.ofText?_eq_some_iff.mpr hw]

theorem Complete.literal {letters : Text} {value : Float} (hw : Word.Spells letters (.literal value)) :
    Complete .atom [.word letters] (.number value) := by
  apply Complete.of_cons
  intro bound _ rest
  simp only [List.nil_append, unary, Word.ofText?_eq_some_iff.mpr hw]

theorem Derives.complete {level : Level} {ts : List Token} {e : Expr} (h : Derives level ts e) :
    Complete level ts e := by
  induction h with
  | ofProduct h ih =>
    intro bound hbound
    exact .start h.length_pos (fun rest hrest => ih.product_eq hbound hrest)
  | add _ _ hl hr => exact hl.sum_next hr rfl rfl
  | sub _ _ hl hr => exact hl.sum_next hr rfl rfl
  | ofPower h ih =>
    intro bound hbound
    exact .start h.length_pos (fun rest hrest => ih bound bound hbound hbound rest hrest)
  | mul _ _ hl hr => exact hl.product_next hr rfl rfl
  | div _ _ hl hr => exact hl.product_next hr rfl rfl
  | ofUnary _ ih => exact ih.power_of_unary
  | pow _ _ hl hr => exact hl.pow hr
  | ofAtom _ ih => exact ih
  | negate _ ih => exact ih.negate
  | parens _ ih => exact ih.parens
  | reference hw => exact .reference hw
  | apply hw _ ih => exact .apply hw ih
  | literal hw => exact .literal hw

theorem ofTokens?_eq_some_iff {tokens : List Token} {e : Expr} :
    ofTokens? tokens = some e ↔ Derives .sum tokens e := by
  constructor
  · intro h
    unfold ofTokens? at h
    split at h
    · rename_i tree hr
      cases h
      obtain ⟨used, rfl, he⟩ := sum_sound (unary_sound _) _ hr
      rwa [List.append_nil]
    · cases h
  · intro h
    have hread := h.complete.sum_eq (Nat.le_refl _) (Level.endsAt_nil .sum)
    rw [List.append_nil] at hread
    simp only [ofTokens?, hread]

end Expr

/-! ## Blanks at the ends of a text -/

theorem Token.scan_trimLeft (t : Text) : scan t.trimLeft = scan t := by
  induction t with
  | nil => rfl
  | cons c t ih =>
    cases hc : isBlank c with
    | false => rw [Text.trimLeft, List.dropWhile_cons_of_neg (by rw [hc]; exact Bool.false_ne_true)]
    | true =>
      have hscan : scan (c :: t) = scan t := by
        simp only [scan, scanFrom, hc, if_true, flush, List.nil_append]
      rw [hscan, ← ih, Text.trimLeft, List.dropWhile_cons_of_pos hc, Text.trimLeft]

theorem Token.scanFrom_blanks (letters : Text) {blanks : Text} (h : ∀ c ∈ blanks, isBlank c) :
    scanFrom letters blanks = flush letters := by
  induction blanks generalizing letters with
  | nil => rfl
  | cons c blanks ih =>
    have hc : isBlank c := h c List.mem_cons_self
    have hrest : scanFrom [] blanks = [] := ih [] (fun d hd => h d (List.mem_cons_of_mem c hd))
    simp only [scanFrom, hc, if_true, hrest, List.append_nil]

theorem Token.scanFrom_append_blanks (letters t : Text) {blanks : Text}
    (h : ∀ c ∈ blanks, isBlank c) : scanFrom letters (t ++ blanks) = scanFrom letters t := by
  induction t generalizing letters with
  | nil => exact scanFrom_blanks letters h
  | cons c t ih => simp only [List.cons_append, scanFrom, ih]

theorem Text.exists_trimRight (t : Text) :
    ∃ blanks : Text, (∀ c ∈ blanks, isBlank c) ∧ t = t.trimRight ++ blanks := by
  refine ⟨(t.reverse.takeWhile isBlank).reverse, fun c hc => ?_, ?_⟩
  · exact List.all_eq_true.mp List.all_takeWhile c (List.mem_reverse.mp hc)
  · rw [trimRight, ← List.reverse_append, List.takeWhile_append_dropWhile, List.reverse_reverse]

theorem Token.scan_trimRight (t : Text) : scan t.trimRight = scan t := by
  obtain ⟨blanks, hblanks, ht⟩ := t.exists_trimRight
  calc scan t.trimRight
      = scan (t.trimRight ++ blanks) := (scanFrom_append_blanks [] _ hblanks).symm
    _ = scan t := by rw [← ht]

theorem Token.scan_trim (t : Text) : scan t.trim = scan t := by
  rw [Text.trim, scan_trimRight, scan_trimLeft]

namespace Expr

/-- The reader of expressions accepts exactly its grammar: it gives a tree for a text if and only if
the tokens of the text without the blanks at its ends derive that tree, it gives none if and only if
they derive no tree, and no list of tokens derives two. -/
theorem parse?_iff_derives (t : Text) :
    (∀ e, parse? t = some e ↔ Derives .sum (Token.scan t.trim) e) ∧
      (parse? t = none ↔ ¬ ∃ e, Derives .sum (Token.scan t.trim) e) ∧
      ∀ tokens e e', Derives .sum tokens e → Derives .sum tokens e' → e = e' := by
  have hsome : ∀ e, parse? t = some e ↔ Derives .sum (Token.scan t.trim) e := by
    intro e
    rw [parse?, Token.scan_trim, ofTokens?_eq_some_iff]
  refine ⟨hsome, ?_, ?_⟩
  · rw [Option.eq_none_iff_forall_ne_some, not_exists]
    exact forall_congr' fun e => not_congr (hsome e)
  · intro tokens e e' h h'
    have hread := ofTokens?_eq_some_iff.mpr h
    rw [ofTokens?_eq_some_iff.mpr h'] at hread
    exact (Option.some.inj hread).symm

/-- A minus in front binds tighter than a power, and both tighter than a product. -/
theorem derives_of_mixed_text :
    Derives .sum (Token.scan (Text.trim " -:A ^ 2*SQRT(9) - .5e1 ".toList))
        (.binary .sub
          (.binary .mul (.binary .pow (.negate (.var ['a'])) (.number 2))
            (.apply .sqrt (.number 9)))
          (.number 5)) ∧
      ¬ ∃ e, Derives .sum (Token.scan (Text.trim "(1 + 2".toList)) e :=
  ⟨((parse?_iff_derives _).1 _).mp (by decide +kernel),
    (parse?_iff_derives _).2.1.mp (by decide +kernel)⟩

end Expr

end TurtleTrace
