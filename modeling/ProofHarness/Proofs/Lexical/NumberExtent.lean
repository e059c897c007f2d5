import ProofHarness.Proofs.Lexical.Stop

/-!
# Extents of numbers

A number at the beginning of a text stays the same when the text goes on with a character that ends
tokens, and so does the lack of one.
-/

set_option autoImplicit false

namespace ProofHarness.Lexical

open Text

variable {c : Char} {s b : List Char}

/-! ## Numbers -/

/-- No digit ends a token. -/
theorem isDigit_of_isStop (hc : isStop c = true) : c.isDigit = false := by
  rcases isStop_iff.1 hc with rfl | rfl | rfl | rfl | rfl | rfl <;> decide

/-- Nor does an underscore. -/
theorem isDigitOrUnderscore_of_isStop (hc : isStop c = true) : isDigitOrUnderscore c = false := by
  rcases isStop_iff.1 hc with rfl | rfl | rfl | rfl | rfl | rfl <;> decide

/-- Nor does a hexadecimal digit. -/
theorem hexDigit?_of_isStop (hc : isStop c = true) : hexDigit? c = none := by
  rcases isStop_iff.1 hc with rfl | rfl | rfl | rfl | rfl | rfl <;> decide

/-- An exponent ends before such a character, whatever comes after it. -/
theorem exponentLength_append (hc : isStop c = true) (signed valued : Bool) (s b : List Char) :
    exponentLength signed valued (s ++ c :: b) = exponentLength signed valued s := by
  induction s generalizing signed valued with
  | nil =>
    have hother : c ≠ '+' ∧ c ≠ '-' ∧ c ≠ '_' := by
      rcases isStop_iff.1 hc with rfl | rfl | rfl | rfl | rfl | rfl <;> decide
    simp [exponentLength, hother, isDigit_of_isStop hc]
  | cons d ds ih =>
    rw [List.cons_append, exponentLength, exponentLength]
    simp only [ih]

/-- So does the part after the dot. -/
theorem floatTail_append (hc : isStop c = true) (whole : Nat) (s b : List Char) :
    floatTail whole (s ++ c :: b) = floatTail whole s := by
  have hdigit := isDigitOrUnderscore_of_isStop hc
  have hexponent : c ≠ 'e' ∧ c ≠ 'E' := by
    rcases isStop_iff.1 hc with rfl | rfl | rfl | rfl | rfl | rfl <;> decide
  match s with
  | [] =>
    have hpoint : c ≠ '.' := by
      rintro rfl
      exact absurd hc (by decide)
    rw [List.nil_append, floatTail]
    · simp [floatTail, hexponent]
    · simpa using hpoint
  | d :: ds =>
    by_cases hd : d = '.'
    · subst hd
      -- The character after a point decides, and a stop there is as good as the end.
      have hhead : ((ds ++ c :: b).head?.any fun c => c == '.' || isIdentStart c) =
          ds.head?.any fun c => c == '.' || isIdentStart c := by
        cases ds with
        | nil =>
          have hpoint : c ≠ '.' := by
            rintro rfl
            exact absurd hc (by decide)
          simp [hpoint, isIdentStart_of_isStop hc]
        | cons e es => rfl
      rw [List.cons_append, floatTail, floatTail, hhead, takeWhile_append_cons hdigit,
        dropWhile_append_cons hdigit]
      cases ds.dropWhile isDigitOrUnderscore with
      | nil => simp [hexponent]
      | cons e rest => simp only [List.cons_append, exponentLength_append hc]
    · rw [List.cons_append, floatTail, floatTail, exponentLength_append hc]
      · simpa using hd
      · simpa using hd

/-- So do the digits of a number with a fraction. -/
theorem floatDigits_append (hc : isStop c = true) (s b : List Char) :
    floatDigits (s ++ c :: b) = floatDigits s := by
  have hdigit := isDigitOrUnderscore_of_isStop hc
  cases s with
  | nil => simp [floatDigits, isDigit_of_isStop hc]
  | cons d ds =>
    rw [List.cons_append, floatDigits, floatDigits, takeWhile_append_cons hdigit,
      dropWhile_append_cons hdigit, floatTail_append hc]

/-- So do the digits of a base. -/
theorem digitsFrom_append (hc : isStop c = true) (base : Nat) (empty : Bool) (s b : List Char) :
    digitsFrom base empty (s ++ c :: b) = digitsFrom base empty s := by
  induction s generalizing empty with
  | nil =>
    have hunderscore : c ≠ '_' := by
      rintro rfl
      exact absurd hc (by decide)
    simp [digitsFrom, hunderscore, hexDigit?_of_isStop hc]
  | cons d ds ih =>
    rw [List.cons_append, digitsFrom, digitsFrom]
    simp only [ih]

/-- So do the digits of an integer. -/
theorem intDigits_append (hc : isStop c = true) (s b : List Char) :
    intDigits (s ++ c :: b) = intDigits s := by
  have hbase : c ≠ '0' ∧ c ≠ 'x' ∧ c ≠ 'o' ∧ c ≠ 'b' := by
    rcases isStop_iff.1 hc with rfl | rfl | rfl | rfl | rfl | rfl <;> decide
  match s with
  | [] =>
    rw [List.nil_append, intDigits, intDigits, ← digitsFrom_append hc 10 true [] b, List.nil_append]
    all_goals simp [hbase]
  | [d] =>
    rw [List.singleton_append, intDigits, intDigits, ← digitsFrom_append hc 10 true [d] b,
      List.singleton_append]
    all_goals simp [hbase]
  | d :: e :: ds =>
    by_cases hd : d = '0' ∧ (e = 'x' ∨ e = 'o' ∨ e = 'b')
    · obtain ⟨rfl, rfl | rfl | rfl⟩ := hd <;> simp [intDigits, digitsFrom_append hc]
    · rw [List.cons_append, List.cons_append, intDigits, intDigits,
        ← digitsFrom_append hc 10 true (d :: e :: ds) b, List.cons_append, List.cons_append]
      all_goals
        intro cs h
        simp only [List.cons.injEq] at h
        exact hd (by simp [h])

/-- So does a number with its suffix. -/
theorem withSuffix_append (hc : isStop c = true) {digits : List Char → Option Nat}
    (happend : digits (s ++ c :: b) = digits s) (hle : ∀ n, digits s = some n → n ≤ s.length) :
    withSuffix digits (s ++ c :: b) = withSuffix digits s := by
  rw [withSuffix, withSuffix, happend]
  cases hn : digits s with
  | none => rfl
  | some n =>
    have hhead : ∀ t : List Char, (t ++ c :: b).head?.any isIdentContinue =
        t.head?.any isIdentContinue := by
      intro t
      cases t with
      | nil => simp [isIdentContinue_of_isStop hc]
      | cons d ds => rfl
    have hn := hle n hn
    simp only [Option.bind_some]
    rw [List.drop_append_of_le_length hn, identLength_append hc,
      List.drop_append_of_le_length (add_suffix_le hn), hhead]

/-- A number with its suffix lies within the text if its digits do. -/
theorem withSuffix_le {digits : List Char → Option Nat} {n : Nat}
    (hle : ∀ n, digits s = some n → n ≤ s.length) (h : withSuffix digits s = some n) :
    n ≤ s.length := by
  obtain ⟨m, hm, h⟩ := Option.bind_eq_some_iff.1 h
  simp only at h
  split at h
  · cases h
  · rw [← Option.some.inj h]
    exact add_suffix_le (hle m hm)

/-- An exponent lies within the text. -/
theorem exponentLength_le {signed valued : Bool} {n : Nat}
    (h : exponentLength signed valued s = some n) : n ≤ s.length := by
  fun_induction exponentLength signed valued s generalizing n <;> grind [Option.map_eq_some_iff]

/-- So do the digits of a base. -/
theorem digitsFrom_le {base : Nat} {empty : Bool} {n : Nat}
    (h : digitsFrom base empty s = some n) : n ≤ s.length := by
  fun_induction digitsFrom base empty s generalizing n <;> grind [Option.map_eq_some_iff]

/-- So do the digits of an integer. -/
theorem intDigits_le {n : Nat} (h : intDigits s = some n) : n ≤ s.length := by
  unfold intDigits at h
  split at h
  case h_4 => exact digitsFrom_le h
  all_goals
    obtain ⟨m, hm, rfl⟩ := Option.map_eq_some_iff.1 h
    have hm := digitsFrom_le hm
    simp only [List.length_cons]
    omega

/-- A run and what comes after it make up the text. -/
theorem length_takeWhile_add_dropWhile (p : Char → Bool) (s : List Char) :
    (s.takeWhile p).length + (s.dropWhile p).length = s.length := by
  rw [← List.length_append, List.takeWhile_append_dropWhile]

/-- The part after the dot lies within the text. -/
theorem floatTail_le {whole n : Nat} (h : floatTail whole s = some n) :
    n ≤ whole + s.length := by
  unfold floatTail at h
  split at h
  · next cs =>
    have hsplit := length_takeWhile_add_dropWhile isDigitOrUnderscore cs
    rw [List.length_cons]
    split at h
    · cases h
    · simp only at h
      split at h
      · next e rest hdrop =>
        rw [hdrop, List.length_cons] at hsplit
        split at h
        · split at h
          · next m hm =>
            have hm := exponentLength_le hm
            rw [Option.some.injEq] at h
            omega
          · rw [Option.some.injEq] at h
            omega
        · rw [Option.some.injEq] at h
          omega
      · rw [Option.some.injEq] at h
        omega
  · split at h
    · obtain ⟨m, hm, rfl⟩ := Option.map_eq_some_iff.1 h
      have hm := exponentLength_le hm
      rw [List.length_cons]
      omega
    · cases h
  · cases h

/-- So do the digits of a number with a fraction. -/
theorem floatDigits_le {n : Nat} (h : floatDigits s = some n) : n ≤ s.length := by
  cases s with
  | nil => cases h
  | cons d ds =>
    rw [floatDigits] at h
    split at h
    · have hle := floatTail_le h
      have hsplit := length_takeWhile_add_dropWhile isDigitOrUnderscore ds
      rw [List.length_cons]
      omega
    · cases h

/-- A number has the same extent before a character at which tokens end as at the end of a text. -/
theorem numberLength?_append (hc : isStop c = true) (s b : List Char) :
    numberLength? (s ++ c :: b) = numberLength? s := by
  rw [numberLength?, numberLength?,
    withSuffix_append hc (floatDigits_append hc s b) fun _ => floatDigits_le,
    withSuffix_append hc (intDigits_append hc s b) fun _ => intDigits_le]

/-- A number lies within the text. -/
theorem numberLength?_le {n : Nat} (h : numberLength? s = some n) : n ≤ s.length := by
  rw [numberLength?] at h
  cases hf : withSuffix floatDigits s with
  | none =>
    rw [hf] at h
    exact withSuffix_le (fun _ => intDigits_le) h
  | some m =>
    rw [hf] at h
    rw [← Option.some.inj h]
    exact withSuffix_le (fun _ => floatDigits_le) hf

end ProofHarness.Lexical
