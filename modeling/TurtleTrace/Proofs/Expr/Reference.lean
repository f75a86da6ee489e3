import TurtleTrace.Proofs.Expr.Grammar

/-!
# References to variables

A text is read as a reference to a variable only if its tokens are a colon with the name, in any number
of parentheses. Blanks and signs cut words, so no such name has a blank or a sign in it, and neither has
the lower case of one.

* `Token.isLetter`: the characters of words.
-/

namespace TurtleTrace

set_option autoImplicit false

namespace Token

/-- Whether a character goes on with a word. -/
def isLetter (c : Char) : Bool := !isBlank c && (Sign.ofChar? c).isNone

theorem isLetter_iff {c : Char} : isLetter c ↔ isBlank c = false ∧ Sign.ofChar? c = none := by
  simp [isLetter]

/-! ## Words -/

theorem scanFrom_letters {w : Text} (h : ∀ c ∈ w, isLetter c) (letters : Text) :
    scanFrom letters w = flush (w.reverse ++ letters) := by
  induction w generalizing letters with
  | nil => rfl
  | cons c w ih =>
    obtain ⟨hc, hw⟩ := List.forall_mem_cons.mp h
    obtain ⟨hblank, hsign⟩ := isLetter_iff.mp hc
    simp only [scanFrom, hblank, hsign, Bool.false_eq_true, if_false, ih hw, List.reverse_cons,
      List.append_assoc, List.singleton_append]

theorem flush_of_ne_nil {letters : Text} (h : letters ≠ []) :
    flush letters = [.word letters.reverse] := by
  cases letters with
  | nil => exact absurd rfl h
  | cons c letters => rfl

/-- A text of letters is one word. -/
theorem scan_letters {w : Text} (hne : w ≠ []) (h : ∀ c ∈ w, isLetter c) : scan w = [.word w] := by
  rw [scan, scanFrom_letters h, List.append_nil, flush_of_ne_nil (List.reverse_ne_nil_iff.mpr hne),
    List.reverse_reverse]

theorem blank_of_scanFrom {letters t : Text} (h : scanFrom letters t = []) :
    letters = [] ∧ ∀ c ∈ t, isBlank c := by
  induction t generalizing letters with
  | nil =>
    cases letters with
    | nil => exact ⟨rfl, List.forall_mem_nil _⟩
    | cons c letters => cases h
  | cons c t ih =>
    unfold scanFrom at h
    split at h
    case isTrue hc =>
      obtain ⟨hflush, hrest⟩ := List.append_eq_nil_iff.mp h
      refine ⟨?_, List.forall_mem_cons.mpr ⟨hc, (ih hrest).2⟩⟩
      cases letters with
      | nil => rfl
      | cons d letters => cases hflush
    case isFalse =>
      split at h
      · cases (List.append_eq_nil_iff.mp h).2
      · cases (ih h).1

/-- Behind the letters of the only token there is nothing but blanks. -/
theorem split_of_scanFrom {letters t : Text} {token : Token} (hletters : letters ≠ [])
    (h : scanFrom letters t = [token]) :
    ∃ w blanks, t = w ++ blanks ∧ (∀ c ∈ w, isLetter c) ∧ ∀ c ∈ blanks, isBlank c := by
  induction t generalizing letters with
  | nil => exact ⟨[], [], rfl, List.forall_mem_nil _, List.forall_mem_nil _⟩
  | cons c t ih =>
    unfold scanFrom at h
    rw [flush_of_ne_nil hletters] at h
    split at h
    case isTrue hc =>
      have hrest : scanFrom [] t = [] := (List.cons.inj h).2
      exact ⟨[], c :: t, rfl, List.forall_mem_nil _,
        List.forall_mem_cons.mpr ⟨hc, (blank_of_scanFrom hrest).2⟩⟩
    case isFalse hc =>
      split at h
      · cases (List.cons.inj h).2
      · rename_i hsign
        obtain ⟨w, blanks, rfl, hw, hblanks⟩ := ih (List.cons_ne_nil c letters) h
        have hletter : isLetter c := isLetter_iff.mpr ⟨Bool.eq_false_iff.mpr hc, hsign⟩
        exact ⟨c :: w, blanks, rfl, List.forall_mem_cons.mpr ⟨hletter, hw⟩, hblanks⟩

theorem head?_scanFrom {letters : Text} (h : letters ≠ []) (t : Text) :
    ∃ w, (scanFrom letters t).head? = some (.word w) := by
  induction t generalizing letters with
  | nil => exact ⟨letters.reverse, by rw [scanFrom, flush_of_ne_nil h]; rfl⟩
  | cons c t ih =>
    unfold scanFrom
    rw [flush_of_ne_nil h]
    split
    · exact ⟨letters.reverse, rfl⟩
    · split
      · exact ⟨letters.reverse, rfl⟩
      · exact ih (List.cons_ne_nil c letters)

/-- The words of a text are made of letters. -/
theorem letters_of_mem_scanFrom {letters t w : Text} (hletters : ∀ c ∈ letters, isLetter c)
    (h : .word w ∈ scanFrom letters t) : ∀ c ∈ w, isLetter c := by
  have hflush : ∀ {letters : Text}, (∀ c ∈ letters, isLetter c) → .word w ∈ flush letters →
      ∀ c ∈ w, isLetter c := by
    intro letters hletters h
    cases letters with
    | nil => cases h
    | cons d letters =>
      cases List.mem_singleton.mp h
      exact fun c hc => hletters c (List.mem_reverse.mp hc)
  induction t generalizing letters with
  | nil => exact hflush hletters h
  | cons c t ih =>
    unfold scanFrom at h
    split at h
    case isTrue =>
      obtain h | h := List.mem_append.mp h
      · exact hflush hletters h
      · exact ih (List.forall_mem_nil _) h
    case isFalse hc =>
      split at h
      · obtain h | h := List.mem_append.mp h
        · exact hflush hletters h
        · obtain h | h := List.mem_cons.mp h
          · cases h
          · exact ih (List.forall_mem_nil _) h
      · rename_i hsign
        have hletter : isLetter c := isLetter_iff.mpr ⟨Bool.eq_false_iff.mpr hc, hsign⟩
        exact ih (List.forall_mem_cons.mpr ⟨hletter, hletters⟩) h

end Token

theorem Text.trimRight_of_letters {w blanks : Text} (hw : ∀ c ∈ w, Token.isLetter c)
    (hblanks : ∀ c ∈ blanks, isBlank c) : trimRight (w ++ blanks) = w := by
  have hback : ∀ c ∈ blanks.reverse, isBlank c := fun c hc => hblanks c (List.mem_reverse.mp hc)
  rw [trimRight, List.reverse_append, List.dropWhile_append_of_pos hback]
  cases hr : w.reverse with
  | nil => rw [List.reverse_eq_nil_iff.mp hr]; rfl
  | cons c rest =>
    have hc : c ∈ w := List.mem_reverse.mp (hr ▸ List.mem_cons_self)
    have hblank := (Token.isLetter_iff.mp (hw c hc)).1
    rw [List.dropWhile_cons_of_neg (by simp [hblank]), ← hr, List.reverse_reverse]

/-! ## References -/

namespace Expr

/-- A variable is derived from its own word alone, or inside parentheses. -/
theorem Derives.word_of_var {level : Level} {tokens : List Token} {v : Text}
    (h : Derives level tokens (.var v)) :
    ∃ letters, Word.Spells letters (.reference v) ∧ .word letters ∈ tokens ∧
      (tokens = [.word letters] ∨ tokens.head? = some (.sign .opening)) := by
  generalize he : Expr.var v = e at h
  induction h with
  | ofProduct _ ih | ofPower _ ih | ofUnary _ ih | ofAtom _ ih => exact ih he
  | add | sub | mul | div | pow | negate | apply | literal => cases he
  | parens _ ih =>
    obtain ⟨letters, hspells, hmem, -⟩ := ih he
    exact ⟨letters, hspells, List.mem_cons_of_mem _ (List.mem_append_left _ hmem), .inr rfl⟩
  | reference hspells =>
    cases he
    exact ⟨_, hspells, List.mem_singleton_self _, .inl rfl⟩

/-- A colon and a name are a reference exactly if the name is a word, up to blanks behind it. -/
theorem parse?_colon_iff {name v : Text} :
    parse? (':' :: name) = some (.var v) ↔
      (∀ c ∈ name.trimRight, Token.isLetter c) ∧ name.trimRight ≠ [] ∧
        v = Text.lower name.trimRight := by
  have hword : ∀ {w blanks : Text}, (∀ c ∈ w, Token.isLetter c) → (∀ c ∈ blanks, isBlank c) →
      Token.scan (':' :: (w ++ blanks)) = [.word (':' :: w)] := by
    intro w blanks hw hblanks
    have hcolon : ∀ c ∈ ':' :: w, Token.isLetter c := List.forall_mem_cons.mpr ⟨by decide, hw⟩
    rw [← List.cons_append, Token.scan, Token.scanFrom_append_blanks [] _ hblanks]
    exact Token.scan_letters (List.cons_ne_nil _ _) hcolon
  rw [parse?, ofTokens?_eq_some_iff]
  constructor
  · intro h
    obtain ⟨letters, hspells, -, hscan | hscan⟩ := h.word_of_var
    · obtain ⟨w, blanks, rfl, hw, hblanks⟩ :=
        Token.split_of_scanFrom (List.cons_ne_nil ':' []) hscan
      rw [hword hw hblanks] at hscan
      cases hscan
      rw [Text.trimRight_of_letters hw hblanks]
      cases hspells with
      | reference hne => exact ⟨hw, hne, rfl⟩
    · obtain ⟨w, hhead⟩ := Token.head?_scanFrom (List.cons_ne_nil ':' []) name
      cases hhead.symm.trans hscan
  · rintro ⟨hletters, hne, rfl⟩
    obtain ⟨blanks, hblanks, hname⟩ := name.exists_trimRight
    rw [hname, hword hletters hblanks, Text.trimRight_of_letters hletters hblanks]
    exact .ofProduct (.ofPower (.ofUnary (.ofAtom (.reference (.reference hne)))))

end Expr

/-! ## Names with signs -/

theorem Sign.toNat_of_ofChar? {s : Char} (h : (ofChar? s).isSome) :
    0x28 ≤ s.toNat ∧ s.toNat ≤ 0x5E := by
  unfold ofChar? at h
  split at h
  case h_8 => cases h
  all_goals decide

namespace Text

/-- The lower case partners of capitals come behind the signs. -/
theorem capitalRuns_behind_signs : ∀ run ∈ capitalRuns, 0x60 < run.1 + run.2.2.2 := by
  decide +kernel

theorem ofNat_ne_of_sign {s : Char} (hs : (Sign.ofChar? s).isSome) {n : Nat} (hn : 0x60 < n) :
    Char.ofNat n ≠ s := by
  rintro rfl
  have hrange := Sign.toNat_of_ofChar? hs
  by_cases hvalid : n.isValidChar
  · rw [Char.ofNat, dif_pos hvalid] at hrange
    exact absurd hrange.2 (Nat.not_le.mpr (Nat.lt_trans (by decide) hn))
  · rw [Char.ofNat, dif_neg hvalid] at hrange
    exact absurd hrange.1 (by decide)

theorem eq_of_lowerPartner {c s : Char} (hs : (Sign.ofChar? s).isSome) (h : s = lowerPartner c) :
    s = c := by
  unfold lowerPartner at h
  simp only at h
  split at h
  · split at h
    case isTrue hcapital =>
      have hn : 0x60 < c.toNat + 32 := by
        simp only [Bool.and_eq_true, decide_eq_true_eq] at hcapital
        omega
      exact absurd h.symm (ofNat_ne_of_sign hs hn)
    case isFalse => exact h
  · split at h
    · exact h
    · rename_i first last stride way hrun
      have hin := List.find?_some hrun
      have hway : 0x60 < first + way := capitalRuns_behind_signs _ (List.mem_of_find?_eq_some hrun)
      simp only [Bool.and_eq_true, decide_eq_true_eq] at hin
      have hn : 0x60 < (c.toNat + way).toNat := by omega
      exact absurd h.symm (ofNat_ne_of_sign hs hn)

/-- A sign is the lower case of nothing but itself. -/
theorem mem_of_mem_lowerAfter {before t : Text} {s : Char} (hs : (Sign.ofChar? s).isSome)
    (h : s ∈ lowerAfter before t) : s ∈ t := by
  induction t generalizing before with
  | nil => exact h
  | cons c t ih =>
    obtain h | h := List.mem_append.mp h
    · unfold lowerChar at h
      split at h
      · split at h <;> cases List.mem_singleton.mp h <;> cases hs
      · split at h
        · obtain rfl | h := List.mem_cons.mp h
          · cases hs
          · cases List.mem_singleton.mp h
            cases hs
        · exact eq_of_lowerPartner hs (List.mem_singleton.mp h) ▸ List.mem_cons_self
    · exact List.mem_cons_of_mem c (ih h)

end Text

/-- A name with a sign in it is out of reach: no text is a reference to it. -/
theorem Expr.parse?_ne_var {v : Text} {s : Char} (hs : (Sign.ofChar? s).isSome) (h : s ∈ v)
    (t : Text) : parse? t ≠ some (.var v) := by
  intro hparse
  rw [parse?, ofTokens?_eq_some_iff] at hparse
  obtain ⟨letters, hspells, hmem, -⟩ := hparse.word_of_var
  have hletters := Token.letters_of_mem_scanFrom (List.forall_mem_nil _) hmem
  cases hspells with
  | reference hne =>
    have hletter := hletters s (List.mem_cons_of_mem _ (Text.mem_of_mem_lowerAfter hs h))
    rw [(Token.isLetter_iff.mp hletter).2] at hs
    cases hs

end TurtleTrace
