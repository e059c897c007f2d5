import ProofHarness.Text.Numeral

/-!
# Reading numerals

A run of characters is read as the number that its digits denote if all of them are ASCII digits
and the number fits into 32 bits, and is no number otherwise (`readWord_eq_some_iff`).  The numeral
of a number denotes it.
-/

set_option autoImplicit false

namespace ProofHarness.Text

/-- Digits are read as the number that they denote. -/
theorem readDigits_eq_ofDigitChars {s : List Char} (h : ∀ c ∈ s, c.isDigit = true) (acc : Nat) :
    readDigits acc s = some (Nat.ofDigitChars 10 s acc) := by
  induction s generalizing acc with
  | nil => rfl
  | cons c cs ih =>
    obtain ⟨hc, hcs⟩ := List.forall_mem_cons.1 h
    rw [readDigits, if_pos hc, ih hcs, Nat.ofDigitChars_cons, Nat.mul_comm 10 acc]
    rfl

/-- Only digits are read as a number. -/
theorem isDigit_of_readDigits {s : List Char} {acc n : Nat} (h : readDigits acc s = some n) :
    ∀ c ∈ s, c.isDigit = true := by
  induction s generalizing acc with
  | nil => simp
  | cons c cs ih =>
    rw [readDigits] at h
    split at h
    · next hc => exact List.forall_mem_cons.2 ⟨hc, ih h⟩
    · cases h

/-- What is read as a number are ASCII digits that denote one of 32 bits. -/
theorem readWord_eq_some_iff {s : List Char} {n : Nat} :
    readWord s = some n ↔ s ≠ [] ∧ (∀ c ∈ s, c.isDigit = true) ∧
      Nat.ofDigitChars 10 s 0 = n ∧ n ≤ 4294967295 := by
  rw [readWord]
  constructor
  · intro h
    split at h
    · cases h
    · next hne =>
      obtain ⟨m, hm, h⟩ := Option.bind_eq_some_iff.1 h
      have hdigits := isDigit_of_readDigits hm
      rw [readDigits_eq_ofDigitChars hdigits] at hm
      split at h
      · next hlt =>
        rw [← Option.some.inj h]
        exact ⟨by simpa using hne, hdigits, Option.some.inj hm, Nat.le_of_lt_succ hlt⟩
      · cases h
  · rintro ⟨hne, hdigits, rfl, hle⟩
    rw [if_neg (by simpa using hne), readDigits_eq_ofDigitChars hdigits, Option.bind_some,
      if_pos (Nat.lt_succ_of_le hle)]

/-- The characters of a numeral. -/
theorem toList_numeral (n : Nat) : (numeral n).toList = Nat.toDigits 10 n := by
  rw [numeral, String.toList_ofList]

/-- They are digits. -/
theorem isDigit_of_mem_numeral {n : Nat} {c : Char} (hc : c ∈ (numeral n).toList) :
    c.isDigit = true := by
  rw [toList_numeral] at hc
  exact Nat.isDigit_of_mem_toDigits (by decide) (by decide) hc

/-- There is at least one. -/
theorem numeral_ne_nil (n : Nat) : (numeral n).toList ≠ [] := by
  rw [toList_numeral]
  exact Nat.toDigits_ne_nil

/-- The numeral of a number is read as the number, if that fits into 32 bits. -/
theorem readWord_numeral (n : Nat) :
    readWord (numeral n).toList = if n < UInt32.size then some n else none := by
  have hdigits : ∀ c ∈ (numeral n).toList, c.isDigit = true := fun c => isDigit_of_mem_numeral
  have hvalue : readDigits 0 (numeral n).toList = some n := by
    rw [readDigits_eq_ofDigitChars hdigits, toList_numeral,
      Nat.ofDigitChars_toDigits (by decide) (by decide)]
  rw [readWord, if_neg (by simpa using numeral_ne_nil n), hvalue]
  rfl

/-- A numeral has no sign, so that it is read as without one. -/
theorem readSignedWord_numeral (n : Nat) :
    readSignedWord (numeral n).toList = if n < UInt32.size then some n else none := by
  rw [← readWord_numeral]
  unfold readSignedWord
  split
  · next cs hs =>
    have hplus : '+' ∈ (numeral n).toList := by
      rw [hs]
      exact List.mem_cons_self
    exact absurd (isDigit_of_mem_numeral hplus) (by decide)
  · rfl

end ProofHarness.Text
