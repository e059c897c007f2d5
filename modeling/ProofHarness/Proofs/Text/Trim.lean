import Mathlib.Data.List.DropRight
import ProofHarness.Proofs.Text.Row

/-!
# Trimming composed texts

Trimming stops at the first character that is not blank, so that what stands on the far side of
such a character is kept as it is.  Trimming twice, at one end or at both, is trimming once.
-/

set_option autoImplicit false

namespace ProofHarness.Text

/-- Blanks are trimmed off the end of a text only as far as its last character that is no blank. -/
theorem trimEnd_append_cons {c : Char} (hc : isBlank c = false) (a b : List Char) :
    trimEnd (a ++ c :: b) = a ++ c :: trimEnd b := by
  unfold trimEnd
  rw [List.reverse_append, List.reverse_cons, List.append_assoc, List.dropWhile_append]
  split
  · next h =>
    rw [List.isEmpty_iff.1 h]
    simp [hc]
  · simp

/-- Blanks are trimmed off the beginning of a text only up to its first character that is no
blank. -/
theorem trimStart_append_cons {c : Char} (hc : isBlank c = false) (a b : List Char) :
    trimStart (a ++ c :: b) = trimStart a ++ c :: b := by
  unfold trimStart
  rw [List.dropWhile_append]
  split
  · next h =>
    rw [List.isEmpty_iff.1 h, List.dropWhile_cons_of_neg (by simp [hc]), List.nil_append]
  · rfl

/-- Nothing is cut off before another character. -/
theorem trimStart_cons_of_not_isBlank {c : Char} (hc : isBlank c = false) (s : List Char) :
    trimStart (c :: s) = c :: s := by
  rw [trimStart, List.dropWhile_cons_of_neg (by simp [hc])]

/-- A text that starts with a character that is not blank keeps what stands in front of the next
such character. -/
theorem trim_cons_append_cons {c d : Char} (hc : isBlank c = false) (hd : isBlank d = false)
    (a b : List Char) : trim (c :: (a ++ d :: b)) = c :: (a ++ d :: trimEnd b) := by
  rw [trim, trimStart_cons_of_not_isBlank hc, ← List.cons_append, trimEnd_append_cons hd,
    List.cons_append]

/-- A blank in front is cut off. -/
theorem trim_cons_of_isBlank {c : Char} (hc : isBlank c = true) (s : List Char) :
    trim (c :: s) = trim s := by
  rw [trim, trim, trimStart, trimStart, List.dropWhile_cons_of_pos hc]

/-- Among blanks there is no other character. -/
theorem not_mem_of_forall_isBlank {blanks : List Char} (h : ∀ c ∈ blanks, isBlank c = true)
    {c : Char} (hc : isBlank c = false) : c ∉ blanks := by
  intro hmem
  rw [h c hmem] at hc
  cases hc

/-- Blanks in front are cut off. -/
theorem trimStart_blanks_append {blanks : List Char} (h : ∀ c ∈ blanks, isBlank c = true)
    (s : List Char) : trimStart (blanks ++ s) = trimStart s :=
  List.dropWhile_append_of_pos h

/-- Blanks around a text do not matter to what is left of it. -/
theorem trim_between_blanks {before after : List Char} (hbefore : ∀ c ∈ before, isBlank c = true)
    (hafter : ∀ c ∈ after, isBlank c = true) (s : List Char) :
    trim (before ++ (s ++ after)) = trim s := by
  rw [trim, trimStart_blanks_append hbefore, ← trim, trim_append_blanks hafter]

/-- A text without blanks is trimmed already. -/
theorem trim_eq_self_of_all {s : List Char} (h : ∀ c ∈ s, isBlank c = false) : trim s = s := by
  have hkeep : ∀ t : List Char, (∀ c ∈ t, isBlank c = false) → t.dropWhile isBlank = t := by
    intro t ht
    cases t with
    | nil => rfl
    | cons c cs => exact trimStart_cons_of_not_isBlank (ht c List.mem_cons_self) cs
  rw [trim, trimStart, hkeep s h, trimEnd, hkeep s.reverse (by simpa using h), List.reverse_reverse]

/-- Digits are no blanks. -/
theorem isBlank_of_isDigit {c : Char} (h : c.isDigit = true) : isBlank c = false := by
  have hrange : 48 ≤ c.toNat ∧ c.toNat ≤ 57 := by
    simpa [Char.isDigit, UInt32.le_iff_toNat_le] using h
  simp only [isBlank, Bool.or_eq_false_iff, Bool.and_eq_false_iff, decide_eq_false_iff_not,
    beq_eq_false_iff_ne]
  omega

/-- What trimming takes off the end of a text are blanks. -/
theorem exists_trimEnd_append (s : List Char) :
    ∃ blanks, (∀ c ∈ blanks, isBlank c = true) ∧ trimEnd s ++ blanks = s := by
  refine ⟨(s.reverse.takeWhile isBlank).reverse, ?_, ?_⟩
  · intro c hc
    exact List.mem_takeWhile_imp (List.mem_reverse.1 hc)
  · rw [trimEnd, ← List.reverse_append, List.takeWhile_append_dropWhile, List.reverse_reverse]

/-- What trimming takes off the two ends of a text are blanks. -/
theorem exists_trim_append (s : List Char) :
    ∃ front back, (∀ c ∈ front, isBlank c = true) ∧ (∀ c ∈ back, isBlank c = true) ∧
      front ++ (trim s ++ back) = s := by
  obtain ⟨back, hback, hs⟩ := exists_trimEnd_append (trimStart s)
  refine ⟨s.takeWhile isBlank, back, fun c hc => List.mem_takeWhile_imp hc, hback, ?_⟩
  rw [trim, hs, trimStart, List.takeWhile_append_dropWhile]

/-- What is left after trimming the end of a text begins with what the text begins with. -/
theorem head?_trimEnd_ne {c : Char} {s : List Char} (h : s.head? ≠ some c) :
    (trimEnd s).head? ≠ some c := by
  obtain ⟨blanks, -, hs⟩ := exists_trimEnd_append s
  intro hc
  rw [← hs, List.head?_append, hc] at h
  exact h rfl

/-- Cutting at the end first makes no difference. -/
theorem trim_trimEnd (s : List Char) : trim (trimEnd s) = trim s := by
  obtain ⟨blanks, hblanks, hs⟩ := exists_trimEnd_append s
  rw [← trim_append_blanks hblanks, hs]

/-- Cutting in front first makes no difference. -/
theorem trim_trimStart (s : List Char) : trim (trimStart s) = trim s := by
  have hstart : trimStart (trimStart s) = trimStart s := by
    unfold trimStart
    exact List.dropWhile_idempotent isBlank s
  rw [trim, hstart, trim]

/-- Cutting twice makes no difference. -/
theorem trim_trim (s : List Char) : trim (trim s) = trim s :=
  calc trim (trim s) = trim (trimStart s) := trim_trimEnd (trimStart s)
    _ = trim s := trim_trimStart s

/-- So it does not for strings. -/
theorem trimmed_trim (s : List Char) :
    trimmed (String.ofList (trim s)) = trimmed (String.ofList s) := by
  rw [trimmed, trimmed, String.toList_ofList, String.toList_ofList, trim_trim]

/-- One more copy of a character around a text is trimmed off with the others. -/
theorem trimMatches_cons_append_singleton (c : Char) (s : List Char) :
    trimMatches c (c :: (s ++ [c])) = trimMatches c s := by
  unfold trimMatches
  rw [List.dropWhile_cons_of_pos (by simp), List.dropWhile_append]
  split
  · next h =>
    rw [List.isEmpty_iff.1 h]
    simp
  · rw [List.reverse_append, List.reverse_singleton, List.singleton_append,
      List.dropWhile_cons_of_pos (by simp)]

/-- Nothing is dropped exactly if the first character is another one. -/
theorem dropWhile_beq_eq_self_iff {c : Char} {s : List Char} :
    s.dropWhile (· == c) = s ↔ s.head? ≠ some c := by
  cases s with
  | nil => simp
  | cons d ds =>
    rw [List.head?_cons, Ne, Option.some.injEq]
    by_cases h : d = c
    · rw [List.dropWhile_cons_of_pos (by simpa using h)]
      refine iff_of_false (fun heq => ?_) (not_not_intro h)
      have hlength := (List.dropWhile_sublist (p := (· == c)) (l := ds)).length_le
      rw [heq, List.length_cons] at hlength
      omega
    · rw [List.dropWhile_cons_of_neg (by simpa using h)]
      exact iff_of_true rfl h

/-- A text that has no copies of a character at its ends is left alone, and no other is. -/
theorem trimMatches_eq_self_iff {c : Char} {s : List Char} :
    trimMatches c s = s ↔ s.head? ≠ some c ∧ s.getLast? ≠ some c := by
  constructor
  · intro h
    have hlength := congrArg List.length h
    have hfront : (s.dropWhile (· == c)).length ≤ s.length := (List.dropWhile_sublist _).length_le
    have hback : ((s.dropWhile (· == c)).reverse.dropWhile (· == c)).length ≤
        (s.dropWhile (· == c)).reverse.length := (List.dropWhile_sublist _).length_le
    rw [trimMatches, List.length_reverse] at hlength
    rw [List.length_reverse] at hback
    have hstart : s.dropWhile (· == c) = s :=
      (List.dropWhile_sublist _).eq_of_length (by omega)
    have hend : s.reverse.dropWhile (· == c) = s.reverse := by
      rw [trimMatches, hstart] at h
      rw [← List.reverse_inj, h, List.reverse_reverse]
    rw [dropWhile_beq_eq_self_iff] at hstart hend
    rw [List.head?_reverse] at hend
    exact ⟨hstart, hend⟩
  · rintro ⟨hfirst, hlast⟩
    rw [trimMatches, dropWhile_beq_eq_self_iff.2 hfirst,
      dropWhile_beq_eq_self_iff.2 (by rwa [List.head?_reverse]), List.reverse_reverse]

end ProofHarness.Text
