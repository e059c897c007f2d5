import ProofHarness.Lexical.Token

/-!
# Characters that end tokens

A comma, a bracket, an equals sign or a space goes on with no word, and is in none of the words
that are looked for, so that what is found at the beginning of a text is found there as well when
the text goes on with one of them.  The readers of tokens have this property one by one: each has a
lemma that says so (`_append`), and one that what it finds lies inside the text (`_le`).
-/

set_option autoImplicit false

namespace ProofHarness.Lexical

open Text

/-- Whether a character ends every token in front of it that is not a comment. -/
def isStop (c : Char) : Bool := [',', '(', ')', ']', '=', ' '].contains c

variable {c : Char} {s b : List Char}

/-- The characters at which words and numbers end. -/
theorem isStop_iff : isStop c = true ↔
    c = ',' ∨ c = '(' ∨ c = ')' ∨ c = ']' ∨ c = '=' ∨ c = ' ' := by
  simp [isStop]

/-! ## Runs of characters -/

/-- A run ends before a character that does not belong to it, whatever comes later. -/
theorem takeWhile_append_cons {p : Char → Bool} (hc : p c = false) (s b : List Char) :
    (s ++ c :: b).takeWhile p = s.takeWhile p := by
  induction s with
  | nil => simp [hc]
  | cons d ds ih => simp [List.takeWhile_cons, ih]

/-- What is left after the run goes on as the text does. -/
theorem dropWhile_append_cons {p : Char → Bool} (hc : p c = false) (s b : List Char) :
    (s ++ c :: b).dropWhile p = s.dropWhile p ++ c :: b := by
  induction s with
  | nil => simp [hc]
  | cons d ds ih =>
    simp only [List.cons_append, List.dropWhile_cons, ih]
    split <;> rfl

/-- A word does not reach over a character that it does not have. -/
theorem isPrefixOf_append_cons {p : List Char} (hc : c ∉ p) (s b : List Char) :
    p.isPrefixOf (s ++ c :: b) = p.isPrefixOf s := by
  induction s generalizing p with
  | nil =>
    cases p with
    | nil => rfl
    | cons d ds =>
      have hd : (d == c) = false := by
        rw [beq_eq_false_iff_ne]
        rintro rfl
        exact hc List.mem_cons_self
      simp [List.isPrefixOf, hd]
  | cons e es ih =>
    cases p with
    | nil => rfl
    | cons d ds =>
      have hds : c ∉ ds := fun h => hc (List.mem_cons_of_mem d h)
      simp [List.isPrefixOf, ih hds]

/-! ## Words -/

/-- No character of an identifier ends a token. -/
theorem isIdentContinue_of_isStop (hc : isStop c = true) : isIdentContinue c = false := by
  rcases isStop_iff.1 hc with rfl | rfl | rfl | rfl | rfl | rfl <;> decide

/-- Nor does the start of one. -/
theorem isIdentStart_of_isStop (hc : isStop c = true) : isIdentStart c = false := by
  rw [Bool.eq_false_iff]
  intro h
  have hcontinue := isIdentContinue_of_isIdentStart h
  rw [isIdentContinue_of_isStop hc] at hcontinue
  cases hcontinue

/-- An identifier ends before such a character. -/
theorem identLength_append (hc : isStop c = true) (s b : List Char) :
    identLength (s ++ c :: b) = identLength s := by
  cases s with
  | nil => simp [identLength, isIdentStart_of_isStop hc]
  | cons d ds =>
    rw [List.cons_append, identLength, identLength,
      takeWhile_append_cons (isIdentContinue_of_isStop hc)]

/-- It lies within the text. -/
theorem identLength_le {n : Nat} (h : identLength s = some n) : n ≤ s.length := by
  cases s with
  | nil => cases h
  | cons d ds =>
    rw [identLength] at h
    split at h
    · rw [Option.some.injEq] at h
      rw [← h, List.length_cons]
      exact Nat.succ_le_succ (List.takeWhile_prefix _).length_le
    · cases h

/-- The suffix of a literal lies inside the text. -/
theorem add_suffix_le {n : Nat} (hn : n ≤ s.length) :
    n + (identLength (s.drop n)).getD 0 ≤ s.length := by
  cases hm : identLength (s.drop n) with
  | none => simpa using hn
  | some m =>
    have hm := identLength_le hm
    rw [List.length_drop] at hm
    simp only [Option.getD_some]
    omega

/-- So does a word, raw or not, end there. -/
theorem wordLength?_append (hc : isStop c = true) (s b : List Char) :
    wordLength? (s ++ c :: b) = wordLength? s := by
  have hr : c ≠ 'r' := by
    rintro rfl
    exact absurd hc (by decide)
  have hhash : c ≠ '#' := by
    rintro rfl
    exact absurd hc (by decide)
  unfold wordLength?
  split
  · next cs h =>
    match s with
    | [] => exact absurd (List.cons.inj h).1 hr
    | [d] =>
      rw [List.singleton_append, List.cons.injEq, List.cons.injEq] at h
      exact absurd h.2.1 hhash
    | d :: e :: ds =>
      obtain ⟨rfl, rfl, rfl⟩ : d = 'r' ∧ e = '#' ∧ ds ++ c :: b = cs := by simpa using h
      simp only
      rw [identLength_append hc]
      cases hn : identLength ds with
      | none => rfl
      | some n => simp only [Option.bind_some, List.take_append_of_le_length (identLength_le hn)]
  · next h =>
    split
    · next cs => exact absurd rfl (h (cs ++ c :: b))
    · exact identLength_append hc s b

/-- It lies within the text. -/
theorem wordLength?_le {n : Nat} (h : wordLength? s = some n) : n ≤ s.length := by
  unfold wordLength? at h
  split at h
  · obtain ⟨m, hm, h⟩ := Option.bind_eq_some_iff.1 h
    have hle := identLength_le hm
    split at h
    · cases h
    · rw [Option.some.injEq] at h
      simp only [List.length_cons]
      omega
  · exact identLength_le h

end ProofHarness.Lexical
