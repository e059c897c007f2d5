import ProofHarness.Proofs.Lexical.Stop

/-!
# Extents of quoted literals

A quoted literal that is closed inside a text stays the same when the text goes on.
-/

set_option autoImplicit false

namespace ProofHarness.Lexical

open Text

variable {c : Char} {s b : List Char}

/-! ## Quoted literals -/

/-- The digits of an escape end with their bracket, whatever comes after it. -/
theorem unicodeDigits_append {value count : Nat} {r : Char × Nat}
    (h : unicodeDigits value count s = some r) (t : List Char) :
    unicodeDigits value count (s ++ t) = some r := by
  induction s generalizing value count r with
  | nil => cases h
  | cons d ds ih =>
    rw [unicodeDigits] at h
    rw [List.cons_append, unicodeDigits]
    split at h <;> grind [Option.map_eq_some_iff]

/-- They lie within the text. -/
theorem unicodeDigits_le {value count : Nat} {r : Char × Nat}
    (h : unicodeDigits value count s = some r) : r.2 ≤ s.length := by
  induction s generalizing value count r with
  | nil => cases h
  | cons d ds ih =>
    rw [unicodeDigits] at h
    split at h <;> grind [Option.map_eq_some_iff]

/-- An escape is the same with more text after it. -/
theorem charEscape?_append {flavour : Flavour} {r : Char × Nat}
    (h : charEscape? flavour s = some r) (t : List Char) :
    charEscape? flavour (s ++ t) = some r := by
  unfold charEscape? at h
  split at h
  · exact h
  · next cs =>
    rw [List.cons_append, List.cons_append, charEscape?]
    split at h
    · cases h
    · next hbytes =>
      obtain ⟨u, hu, h⟩ := Option.bind_eq_some_iff.1 h
      rw [if_neg hbytes, unicodeDigits_append hu, Option.bind_some, h]
  · next d ds hx hu =>
    -- A letter that could begin a longer escape is no escape of its own.
    have hd : d ≠ 'x' ∧ d ≠ 'u' := by
      constructor <;>
      · rintro rfl
        cases h
    rw [List.cons_append, charEscape?]
    · exact h
    · simp [hd]
    · simp [hd]
  · cases h

/-- It lies within the text. -/
theorem charEscape?_le {flavour : Flavour} {r : Char × Nat}
    (h : charEscape? flavour s = some r) : r.2 ≤ s.length := by
  unfold charEscape? at h
  split at h
  · obtain ⟨e, -, rfl⟩ := Option.map_eq_some_iff.1 h
    simp
  · split at h
    · cases h
    · obtain ⟨u, hu, h⟩ := Option.bind_eq_some_iff.1 h
      have hu := unicodeDigits_le hu
      split at h
      · rw [← Option.some.inj h]
        simp only [List.length_cons]
        omega
      · cases h
  · obtain ⟨e, -, h⟩ := Option.bind_eq_some_iff.1 h
    split at h
    · rw [← Option.some.inj h]
      simp
    · cases h
  · cases h

/-- The closing quote is the same with more text after it. -/
theorem closingQuote_append {n : Nat} (h : closingQuote s = some n) (t : List Char) :
    closingQuote (s ++ t) = some n := by
  fun_induction closingQuote s generalizing n with
  | case1 => cases h
  | case2 d hd => cases t <;> simpa [closingQuote, hd] using h
  | case3 => cases h
  | case4 d e ds hd => simpa [closingQuote, hd] using h
  | case5 d e ds hd hescape ih =>
    obtain ⟨m, hm, rfl⟩ := Option.map_eq_some_iff.1 h
    simp [closingQuote, hd, hescape, ih hm]
  | case6 d e ds hd hescape ih =>
    obtain ⟨m, hm, rfl⟩ := Option.map_eq_some_iff.1 h
    have ih := ih hm
    rw [List.cons_append] at ih
    simp [closingQuote, hd, hescape, ih]

/-- It lies within the text. -/
theorem closingQuote_lt {n : Nat} (h : closingQuote s = some n) : n < s.length := by
  fun_induction closingQuote s generalizing n <;> grind [Option.map_eq_some_iff]

/-- The end of a raw string is the same with more text after it. -/
theorem closingRaw_append (hc : isStop c = true) {hashes n : Nat}
    (h : closingRaw hashes s = some n) (b : List Char) :
    closingRaw hashes (s ++ c :: b) = some n := by
  induction s generalizing n with
  | nil => cases h
  | cons d ds ih =>
    have hhash : c ∉ List.replicate hashes '#' := by
      intro hmem
      rw [List.eq_of_mem_replicate hmem] at hc
      exact absurd hc (by decide)
    rw [closingRaw] at h
    rw [List.cons_append, closingRaw, isPrefixOf_append_cons hhash]
    split at h
    · next hd => rw [if_pos hd, h]
    · next hd =>
      obtain ⟨m, hm, rfl⟩ := Option.map_eq_some_iff.1 h
      rw [if_neg hd, ih hm, Option.map_some]

/-- The closing quote lies within the text, and so do the signs after it. -/
theorem closingRaw_le {hashes n : Nat} (h : closingRaw hashes s = some n) :
    n + 1 + hashes ≤ s.length := by
  induction s generalizing n with
  | nil => cases h
  | cons d ds ih =>
    rw [closingRaw] at h
    split at h
    · next hd =>
      rw [Bool.and_eq_true, List.isPrefixOf_iff_prefix] at hd
      have hle := hd.2.length_le
      rw [List.length_replicate] at hle
      rw [← Option.some.inj h, List.length_cons]
      omega
    · obtain ⟨m, hm, rfl⟩ := Option.map_eq_some_iff.1 h
      have hm := ih hm
      rw [List.length_cons]
      omega

/-- A string with escapes is the same with more text after it. -/
theorem cooked?_append {flavour : Flavour} {opened : Nat} {q : Quoted}
    (h : cooked? flavour opened s = some q) (t : List Char) :
    cooked? flavour opened (s ++ t) = some q := by
  obtain ⟨n, hn, rfl⟩ := Option.map_eq_some_iff.1 h
  have hle : n ≤ s.length := Nat.le_of_lt (closingQuote_lt hn)
  rw [cooked?, closingQuote_append hn, Option.map_some, List.take_append_of_le_length hle]

/-- So is a raw string. -/
theorem raw?_append (hc : isStop c = true) {flavour : Flavour} {opened : Nat} {q : Quoted}
    (h : raw? flavour opened s = some q) (b : List Char) :
    raw? flavour opened (s ++ c :: b) = some q := by
  have hhash : (c == '#') = false := by
    rcases isStop_iff.1 hc with rfl | rfl | rfl | rfl | rfl | rfl <;> decide
  have hle : (s.takeWhile (· == '#')).length ≤ s.length := (List.takeWhile_prefix _).length_le
  rw [raw?] at h
  rw [raw?, takeWhile_append_cons (p := (· == '#')) hhash, List.drop_append_of_le_length hle]
  split at h
  · next inner hinner =>
    rw [hinner, List.cons_append]
    simp only
    split at h
    · cases h
    · next hfew =>
      obtain ⟨n, hn, rfl⟩ := Option.map_eq_some_iff.1 h
      have hn' := closingRaw_le hn
      rw [if_neg hfew, closingRaw_append hc hn, Option.map_some,
        List.take_append_of_le_length (by omega)]
  · cases h

/-- So is a string of either kind. -/
theorem quoted?_append (hc : isStop c = true) {q : Quoted} (h : quoted? s = some q)
    (b : List Char) : quoted? (s ++ c :: b) = some q := by
  unfold quoted? at h
  split at h
  · exact cooked?_append h _
  · exact raw?_append hc h b
  · exact cooked?_append h _
  · exact raw?_append hc h b
  · exact cooked?_append h _
  · exact raw?_append hc h b
  · cases h

/-- A string is not empty and lies within the text. -/
theorem quoted?_le {q : Quoted} (h : quoted? s = some q) : 1 ≤ q.length ∧ q.length ≤ s.length := by
  have hcooked : ∀ (flavour : Flavour) (opened : Nat) (t : List Char),
      cooked? flavour opened t = some q → 1 ≤ q.length ∧ q.length ≤ opened + t.length := by
    intro flavour opened t h
    obtain ⟨n, hn, rfl⟩ := Option.map_eq_some_iff.1 h
    have hn := closingQuote_lt hn
    dsimp only
    omega
  have hraw : ∀ (flavour : Flavour) (opened : Nat) (t : List Char),
      raw? flavour opened t = some q → 1 ≤ q.length ∧ q.length ≤ opened + t.length := by
    intro flavour opened t h
    rw [raw?] at h
    split at h
    · next inner hinner =>
      have hlength := congrArg List.length hinner
      rw [List.length_drop, List.length_cons] at hlength
      split at h
      · cases h
      · obtain ⟨n, hn, rfl⟩ := Option.map_eq_some_iff.1 h
        have hn := closingRaw_le hn
        dsimp only
        omega
    · cases h
  -- All ways to open a literal end in one of the two readers; the last case opens none.
  unfold quoted? at h
  split at h
  case h_7 => cases h
  all_goals
    have hle := by first | exact hcooked _ _ _ h | exact hraw _ _ _ h
    simp only [List.length_cons]
    omega

/-- What is between the quotes of a character is the same with more text after it. -/
theorem charBody?_append {flavour : Flavour} {n : Nat} (h : charBody? flavour s = some n)
    (t : List Char) : charBody? flavour (s ++ t) = some n := by
  unfold charBody? at h
  split at h
  · next cs =>
    obtain ⟨r, hr, h⟩ := Option.bind_eq_some_iff.1 h
    rw [List.cons_append, charBody?, charEscape?_append hr, Option.bind_some,
      List.drop_append_of_le_length (charEscape?_le hr)]
    split at h
    · next hquote =>
      have hhead : (cs.drop r.2 ++ t).head? = (cs.drop r.2).head? := by
        rw [List.head?_append, beq_iff_eq.1 hquote]
        rfl
      rw [hhead, if_pos hquote, h]
    · cases h
  · next d ds hd =>
    rw [List.cons_append, List.cons_append, charBody?]
    · exact h
    · simpa using hd
  · cases h

/-- It lies within the text. -/
theorem charBody?_le {flavour : Flavour} {n : Nat} (h : charBody? flavour s = some n) :
    n ≤ s.length := by
  unfold charBody? at h
  split at h
  · next cs =>
    obtain ⟨r, hr, h⟩ := Option.bind_eq_some_iff.1 h
    have hr := charEscape?_le hr
    split at h
    · next hquote =>
      have hne : (cs.drop r.2) ≠ [] := by
        intro hnil
        rw [hnil] at hquote
        exact absurd hquote (by decide)
      have hlt := List.length_pos_iff.2 hne
      rw [List.length_drop] at hlt
      rw [← Option.some.inj h, List.length_cons]
      omega
    · cases h
  · split at h
    · rw [← Option.some.inj h]
      simp
    · cases h
  · cases h

/-- A character literal is the same with more text after it. -/
theorem charLength?_append {n : Nat} (h : charLength? s = some n) (t : List Char) :
    charLength? (s ++ t) = some n := by
  unfold charLength? at h
  split at h
  · obtain ⟨m, hm, rfl⟩ := Option.map_eq_some_iff.1 h
    rw [List.cons_append, charLength?, charBody?_append hm, Option.map_some]
  · obtain ⟨m, hm, rfl⟩ := Option.map_eq_some_iff.1 h
    rw [List.cons_append, List.cons_append, charLength?, charBody?_append hm, Option.map_some]
  · cases h

/-- It is not empty and lies within the text. -/
theorem charLength?_le {n : Nat} (h : charLength? s = some n) : 1 ≤ n ∧ n ≤ s.length := by
  unfold charLength? at h
  split at h
  · obtain ⟨m, hm, rfl⟩ := Option.map_eq_some_iff.1 h
    have hm := charBody?_le hm
    simp only [List.length_cons]
    omega
  · obtain ⟨m, hm, rfl⟩ := Option.map_eq_some_iff.1 h
    have hm := charBody?_le hm
    simp only [List.length_cons]
    omega
  · cases h

end ProofHarness.Lexical
