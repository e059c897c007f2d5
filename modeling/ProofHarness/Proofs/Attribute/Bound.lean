import ProofHarness.Attribute.Directive
import ProofHarness.Proofs.Attribute.Leftmost
import ProofHarness.Proofs.Attribute.Spacing
import ProofHarness.Proofs.Text.Numeral

/-!
# Bounds

The bound that a text gives is the number that the first digits in the leftmost payload of `unwind`
denote, if all of them are ASCII digits and it fits into 32 bits (`unwindBound_exact`).  Leading
zeros do not matter, and a number that does not fit is no bound.
-/

set_option autoImplicit false

namespace ProofHarness.Attribute

open Text

/-- The first longest run of decimal digits in a text. -/
def IsFirstDecimals (run s : List Char) : Prop :=
  ∃ before after, s = before ++ (run ++ after) ∧ run ≠ [] ∧
    (∀ c ∈ before, isDecimal c = false) ∧ (∀ c ∈ run, isDecimal c = true) ∧
      ∀ c, after.head? = some c → isDecimal c = false

/-- A text asks for a bound: the first digits in the leftmost payload of `unwind` are ASCII digits
that denote it, and it fits into 32 bits. -/
def AsksForBound (text : String) (n : Nat) : Prop :=
  ∃ payload run, IsLeftmostPayload "unwind".toList payload text.toList ∧
    IsFirstDecimals run payload ∧ (∀ c ∈ run, c.isDigit = true) ∧
      Nat.ofDigitChars 10 run 0 = n ∧ n ≤ 4294967295

variable {run s : List Char} {text : String} {n : Nat}

/-! ## The first digits -/

/-- A run of decimals between other characters is the first one if none comes before it. -/
theorem firstDecimals_append {before after : List Char}
    (hbefore : ∀ c ∈ before, isDecimal c = false)
    (hrun : ∀ c ∈ run, isDecimal c = true) (hne : run ≠ [])
    (hafter : ∀ c, after.head? = some c → isDecimal c = false) :
    firstDecimals (before ++ (run ++ after)) = run := by
  have hstop : after.takeWhile isDecimal = [] := by
    cases after with
    | nil => rfl
    | cons c cs => exact List.takeWhile_cons_of_neg (by simp [hafter c rfl])
  have hdrop : (run ++ after).dropWhile (fun c => !isDecimal c) = run ++ after := by
    cases run with
    | nil => exact absurd rfl hne
    | cons c cs => exact List.dropWhile_cons_of_neg (by simp [hrun c List.mem_cons_self])
  rw [firstDecimals, List.dropWhile_append_of_pos (by simpa using hbefore), hdrop,
    List.takeWhile_append_of_pos hrun, hstop, List.append_nil]

/-- The digits that are read are the first ones. -/
theorem isFirstDecimals_iff : IsFirstDecimals run s ↔ firstDecimals s = run ∧ run ≠ [] := by
  constructor
  · rintro ⟨before, after, rfl, hne, hbefore, hrun, hafter⟩
    exact ⟨firstDecimals_append hbefore hrun hne hafter, hne⟩
  · rintro ⟨rfl, hne⟩
    refine ⟨s.takeWhile fun c => !isDecimal c, afterDecimals s, ?_, hne, ?_, ?_, ?_⟩
    · rw [firstDecimals, afterDecimals, List.takeWhile_append_dropWhile,
        List.takeWhile_append_dropWhile]
    · intro c hc
      simpa using List.mem_takeWhile_imp hc
    · exact fun c hc => List.mem_takeWhile_imp hc
    · intro c hc
      have hhead := List.head?_dropWhile_not isDecimal (s.dropWhile fun c => !isDecimal c)
      rw [afterDecimals] at hc
      rw [hc] at hhead
      simpa using hhead

/-- The ASCII digits are decimal digits. -/
theorem isDecimal_of_isDigit {c : Char} (h : c.isDigit = true) : isDecimal c = true := by
  have hrange : 48 ≤ c.toNat ∧ c.toNat ≤ 57 := by
    simpa [Char.isDigit, UInt32.le_iff_toNat_le] using h
  rw [isDecimal, List.any_eq_true]
  exact ⟨0x30, by decide, by simpa using hrange⟩

/-! ## The bound -/

/-- The number that is read off a text, if there is one. -/
def boundNumber? (text : String) : Option Nat :=
  (payload? "unwind".toList text.toList).bind fun p => readWord (firstDecimals p)

/-- The bound of a text is the number that is read off it. -/
theorem unwindBound_eq (text : String) :
    unwindBound text = (boundNumber? text).elim .unspecified .bounded := by
  rw [unwindBound, boundNumber?]
  split
  · next h => rw [h]; rfl
  · next h => rw [h]; rfl

/-- A number is read off a text exactly if the text asks for it. -/
theorem boundNumber?_eq_some_iff : boundNumber? text = some n ↔ AsksForBound text n := by
  rw [boundNumber?, Option.bind_eq_some_iff, AsksForBound]
  constructor
  · rintro ⟨payload, hpayload, hword⟩
    obtain ⟨hne, hdigits, hvalue, hle⟩ := readWord_eq_some_iff.1 hword
    exact ⟨payload, firstDecimals payload, payload?_eq_some_iff.1 hpayload,
      isFirstDecimals_iff.2 ⟨rfl, hne⟩, hdigits, hvalue, hle⟩
  · rintro ⟨payload, run, hpayload, hrun, hdigits, hvalue, hle⟩
    obtain ⟨rfl, hne⟩ := isFirstDecimals_iff.1 hrun
    exact ⟨payload, payload?_eq_some_iff.2 hpayload,
      readWord_eq_some_iff.2 ⟨hne, hdigits, hvalue, hle⟩⟩

/-- A text in which the number is the first payload of `unwind`, with blanks around it. -/
def boundText (before : List Char) (w₁ w₂ w₃ : Gap) (after : List Char) (n : Nat) : String :=
  String.ofList (before ++ ("unwind".toList ++
    (w₁.text ++ '(' :: (w₂.text ++ ((numeral n).toList ++ (w₃.text ++ ')' :: after))))))

/-- Such a number is read if it fits into 32 bits. -/
theorem boundNumber?_boundText {before : List Char}
    (hbefore : contains "unwind".toList before = false)
    (w₁ w₂ w₃ : Gap) (after : List Char) (n : Nat) :
    boundNumber? (boundText before w₁ w₂ w₃ after n) =
      if n < UInt32.size then some n else none := by
  have hclosing : ')' ∉ w₂.text ++ ((numeral n).toList ++ w₃.text) := by
    rw [List.mem_append, List.mem_append, not_or, not_or]
    refine ⟨w₂.not_mem_text (by decide), ?_, w₃.not_mem_text (by decide)⟩
    exact fun hmem => absurd (isDigit_of_mem_numeral hmem) (by decide)
  have hpayload : payload? "unwind".toList (boundText before w₁ w₂ w₃ after n).toList =
      some (w₂.text ++ ((numeral n).toList ++ w₃.text)) := by
    have htext : (boundText before w₁ w₂ w₃ after n).toList = before ++ ("unwind".toList ++
        (w₁.text ++ '(' :: ((w₂.text ++ ((numeral n).toList ++ w₃.text)) ++ ')' :: after))) := by
      rw [boundText, String.toList_ofList, List.append_assoc w₂.text, List.append_assoc]
    have hfresh : 'u' ∉ "nwind".toList := by decide
    rw [htext]
    exact payload?_append hfresh (by decide) hbefore w₁.blank hclosing
  have hrun : firstDecimals (w₂.text ++ ((numeral n).toList ++ w₃.text)) =
      (numeral n).toList := by
    apply firstDecimals_append
    · exact fun c hc => isDecimal_of_isBlank (w₂.blank c hc)
    · exact fun c hc => isDecimal_of_isDigit (isDigit_of_mem_numeral hc)
    · exact numeral_ne_nil n
    · exact fun c hc => isDecimal_of_isBlank (w₃.blank c (List.mem_of_head? hc))
  rw [boundNumber?, hpayload, Option.bind_some, hrun, readWord_numeral]

/-- The bound that a text gives is the one for which it asks, and none if it asks for none.

A number that is written as the first payload of `unwind`, with blanks around it and after the word,
is the bound if it is less than 2^32; otherwise there is none. -/
theorem unwindBound_exact :
    (∀ text : String,
      (∀ n, unwindBound text = .bounded n ↔ AsksForBound text n) ∧
        (unwindBound text = .unspecified ↔ ∀ n, ¬AsksForBound text n)) ∧
      ∀ before : List Char, contains "unwind".toList before = false →
        ∀ (w₁ w₂ w₃ : Gap) (after : List Char) (n : Nat),
          unwindBound (boundText before w₁ w₂ w₃ after n) =
            if n < 4294967296 then .bounded n else .unspecified := by
  constructor
  · intro text
    simp only [← boundNumber?_eq_some_iff, unwindBound_eq]
    cases boundNumber? text with
    | none => simp
    | some m => simp
  · intro before hbefore w₁ w₂ w₃ after n
    rw [unwindBound_eq, boundNumber?_boundText hbefore]
    split <;> rfl

/-- The largest number that fits is a bound, and its successor is none. -/
theorem unwindBound_exact_limit :
    unwindBound (boundText "#[kani::".toList .space .space .empty [']'] 4294967295) =
        .bounded 4294967295 ∧
      unwindBound (boundText "#[kani::".toList .space .space .empty [']'] 4294967296) =
        .unspecified :=
  have hspaced := unwindBound_exact.2 "#[kani::".toList (by decide) .space .space .empty [']']
  ⟨hspaced 4294967295, hspaced 4294967296⟩

end ProofHarness.Attribute
