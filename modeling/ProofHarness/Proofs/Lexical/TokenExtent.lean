import ProofHarness.Proofs.Lexical.NumberExtent
import ProofHarness.Proofs.Lexical.QuotedExtent

/-!
# Extents of tokens

The token that a text starts with stays the same when the text goes on with a character that ends
tokens (`shape?_append`), unless it is a comment that the end of the text cut short.
-/

set_option autoImplicit false

namespace ProofHarness.Lexical

open Text

variable {c : Char} {s b : List Char}

/-! ## Comments -/

/-- A line that ends does so also with more text after it. -/
theorem untilLineEnd_append (hc : isStop c = true) (h : untilLineEnd s < s.length) :
    untilLineEnd (s ++ c :: b) = untilLineEnd s := by
  have hnewline : c ≠ '\n' := by
    rintro rfl
    exact absurd hc (by decide)
  induction s with
  | nil => cases h
  | cons d ds ih =>
    have hhead : (d == '\r' && (ds ++ c :: b).head? == some '\n') =
        (d == '\r' && ds.head? == some '\n') := by
      cases ds with
      | nil => simp [hnewline]
      | cons e es => rfl
    rw [untilLineEnd] at h
    rw [List.cons_append, untilLineEnd, untilLineEnd, hhead]
    split
    · rfl
    · next hgo =>
      rw [if_neg hgo, List.length_cons, Nat.add_lt_add_iff_right] at h
      rw [ih h]

/-- The rest of the line lies within the text. -/
theorem untilLineEnd_le (s : List Char) : untilLineEnd s ≤ s.length := by
  induction s with
  | nil => exact Nat.le_refl 0
  | cons d ds ih =>
    rw [untilLineEnd, List.length_cons]
    split <;> omega

/-- A comment that ends does so also with more text after it. -/
theorem untilCommentEnd_append {depth n : Nat} (h : untilCommentEnd depth s = some n)
    (t : List Char) : untilCommentEnd depth (s ++ t) = some n := by
  fun_induction untilCommentEnd depth s generalizing n with
  | case1 depth cs ih =>
    obtain ⟨m, hm, rfl⟩ := Option.map_eq_some_iff.1 h
    simp [untilCommentEnd, ih hm]
  | case2 depth cs hdepth => simpa [untilCommentEnd, hdepth] using h
  | case3 depth cs hdepth ih =>
    obtain ⟨m, hm, rfl⟩ := Option.map_eq_some_iff.1 h
    simp [untilCommentEnd, hdepth, ih hm]
  | case4 depth d ds hopen hclose ih =>
    obtain ⟨m, hm, rfl⟩ := Option.map_eq_some_iff.1 h
    cases ds with
    | nil => simp [untilCommentEnd] at hm
    | cons e es =>
      rw [List.cons_append, untilCommentEnd, ih hm, Option.map_some]
      · simpa using hopen
      · simpa using hclose
  | case5 => cases h

/-- Its end lies within the text. -/
theorem untilCommentEnd_le {depth n : Nat} (h : untilCommentEnd depth s = some n) :
    n ≤ s.length := by
  fun_induction untilCommentEnd depth s generalizing n with
  | case1 depth cs ih =>
    obtain ⟨m, hm, rfl⟩ := Option.map_eq_some_iff.1 h
    have := ih hm
    simp only [List.length_cons]
    omega
  | case2 depth cs hdepth =>
    rw [Option.some.injEq] at h
    simp only [List.length_cons]
    omega
  | case3 depth cs hdepth ih =>
    obtain ⟨m, hm, rfl⟩ := Option.map_eq_some_iff.1 h
    have := ih hm
    simp only [List.length_cons]
    omega
  | case4 depth d ds hopen hclose ih =>
    obtain ⟨m, hm, rfl⟩ := Option.map_eq_some_iff.1 h
    have := ih hm
    simp only [List.length_cons]
    omega
  | case5 => cases h

/-! ## Literals -/

/-- Strings start with a quote or with one of three letters. -/
theorem quoted?_cons_eq_none {d : Char} (hd : d ∉ ['\x22', 'r', 'b', 'c']) (ds : List Char) :
    quoted? (d :: ds) = none := by
  simp only [List.mem_cons, List.not_mem_nil, or_false, not_or] at hd
  unfold quoted?
  split <;> first | rfl | simp_all

/-- Characters start with a quote or with a letter. -/
theorem charLength?_cons_eq_none {d : Char} (hd : d ∉ ['\x27', 'b']) (ds : List Char) :
    charLength? (d :: ds) = none := by
  simp only [List.mem_cons, List.not_mem_nil, or_false, not_or] at hd
  unfold charLength?
  split <;> first | rfl | simp_all

/-- A number starts with a digit. -/
theorem numberLength?_cons_eq_none {d : Char} (hd : d.isDigit = false) (ds : List Char) :
    numberLength? (d :: ds) = none := by
  have hfloat : floatDigits (d :: ds) = none := by simp [floatDigits, hd]
  have hdigits : digitsFrom 10 true (d :: ds) = none := by
    rw [digitsFrom]
    split
    · rfl
    · cases hx : hexDigit? d with
      | none => rfl
      | some x =>
        have hlarge : ¬ x < 10 := by
          intro hx10
          rw [hexDigit?, if_neg (by simp [hd])] at hx
          grind
        simp [hlarge, hd]
  have hint : intDigits (d :: ds) = none := by
    have hzero : d ≠ '0' := by
      rintro rfl
      cases hd
    rw [intDigits]
    · exact hdigits
    all_goals simp [hzero]
  simp [numberLength?, withSuffix, hfloat, hint]

/-- A raw string goes on with a quote or with a sign, after which comes a quote or another sign. -/
theorem exists_of_raw? {flavour : Flavour} {opened : Nat} {q : Quoted}
    (h : raw? flavour opened s = some q) :
    ∃ rest, s = '\x22' :: rest ∨ s = '#' :: '\x22' :: rest ∨ s = '#' :: '#' :: rest := by
  rw [raw?] at h
  split at h
  · next inner hinner =>
    cases s with
    | nil => simp at hinner
    | cons d ds =>
      by_cases hd : d = '#'
      · subst hd
        cases ds with
        | nil => simp at hinner
        | cons e es =>
          by_cases he : e = '#'
          · exact ⟨es, .inr (.inr (by rw [he]))⟩
          · exact ⟨es, .inr (.inl (by simp_all))⟩
      · exact ⟨ds, .inl (by simp_all)⟩
  · cases h

/-- The beginning of a string literal that does not start with its quote. -/
theorem any_literalStarts_of_quoted? {q : Quoted} (h : quoted? s = some q)
    (hquote : s.head? ≠ some '\x22') : literalStarts.any (·.isPrefixOf s) = true := by
  unfold quoted? at h
  split at h
  · exact absurd rfl hquote
  case h_7 => cases h
  case h_3 => simp [literalStarts, List.isPrefixOf]
  case h_5 => simp [literalStarts, List.isPrefixOf]
  all_goals
    obtain ⟨rest, rfl | rfl | rfl⟩ := exists_of_raw? h <;> simp [literalStarts, List.isPrefixOf]

/-- A text that begins like no literal is none, if its first character is no quote and no digit. -/
theorem literalShape?_eq_none {d : Char} {ds : List Char}
    (hstart : literalStarts.any (·.isPrefixOf (d :: ds)) = false)
    (hquote : d ≠ '\x22' ∧ d ≠ '\x27') (hdigit : d.isDigit = false) :
    literalShape? (d :: ds) = none := by
  have hquoted : quoted? (d :: ds) = none := by
    cases hq : quoted? (d :: ds) with
    | none => rfl
    | some q =>
      rw [any_literalStarts_of_quoted? hq (by simpa using hquote.1)] at hstart
      cases hstart
  have hchar : charLength? (d :: ds) = none := by
    unfold charLength?
    split
    · next h => exact absurd (List.cons.inj h).1 hquote.2
    · next h =>
      rw [h] at hstart
      simp [literalStarts, List.isPrefixOf] at hstart
    · rfl
  rw [literalShape?, hquoted, hchar, numberLength?_cons_eq_none hdigit]
  rfl

/-- A literal is the same before a character at which tokens end. -/
theorem literalShape?_append (hc : isStop c = true) {shape : Shape}
    (h : literalShape? s = some shape) (b : List Char) :
    literalShape? (s ++ c :: b) = some shape := by
  rw [literalShape?] at h
  split at h
  · next q hq =>
    rw [literalShape?, quoted?_append hc hq]
    simp only
    rw [List.drop_append_of_le_length (quoted?_le hq).2, identLength_append hc, h]
  · next hquoted =>
    split at h
    · next n hn =>
      -- A character in quotes starts like no other quoted literal, whatever comes behind.
      have hnone : quoted? (s ++ c :: b) = none := by
        unfold charLength? at hn
        split at hn
        · exact quoted?_cons_eq_none (by decide) _
        · rfl
        · cases hn
      rw [literalShape?, hnone, charLength?_append hn]
      simp only
      rw [List.drop_append_of_le_length (charLength?_le hn).2, identLength_append hc, h]
    · next hchar =>
      obtain ⟨n, hn, -⟩ := Option.map_eq_some_iff.1 h
      cases s with
      | nil => cases hn
      | cons d ds =>
        -- Neither quoted nor a character: the literal is a number, and starts with a digit.
        have hd : d.isDigit = true := by
          cases hd : d.isDigit with
          | true => rfl
          | false => rw [numberLength?_cons_eq_none hd] at hn; cases hn
        have hquote : d ∉ ['\x22', 'r', 'b', 'c'] ∧ d ∉ ['\x27', 'b'] := by
          constructor <;>
          · intro hmem
            simp only [List.mem_cons, List.not_mem_nil, or_false] at hmem
            rcases hmem with rfl | rfl | rfl | rfl <;> cases hd
        rw [List.cons_append, literalShape?, quoted?_cons_eq_none hquote.1,
          charLength?_cons_eq_none hquote.2, ← List.cons_append, numberLength?_append hc]
        exact h

/-- A literal lies within the text. -/
theorem literalShape?_le {shape : Shape} (h : literalShape? s = some shape) (hs : s ≠ []) :
    shape.more + 1 ≤ s.length := by
  have hpos := List.length_pos_iff.2 hs
  rw [literalShape?] at h
  split at h
  · next q hq =>
    have hle := add_suffix_le (quoted?_le hq).2
    rw [← Option.some.inj h]
    dsimp only
    omega
  · split at h
    · next n hn =>
      have hle := add_suffix_le (charLength?_le hn).2
      rw [← Option.some.inj h]
      dsimp only
      omega
    · obtain ⟨n, hn, rfl⟩ := Option.map_eq_some_iff.1 h
      have hle := numberLength?_le hn
      dsimp only
      omega

/-! ## Tokens -/

/-- A lifetime is the same before a character at which tokens end. -/
theorem lifetimeLength?_append (hc : isStop c = true) {n : Nat} (h : lifetimeLength? s = some n)
    (b : List Char) : lifetimeLength? (s ++ c :: b) = some n := by
  obtain ⟨m, hm, h⟩ := Option.bind_eq_some_iff.1 h
  have hle := wordLength?_le hm
  have hother : c ≠ '\x27' ∧ c ≠ '#' ∧ c ∉ "r#".toList := by
    rcases isStop_iff.1 hc with rfl | rfl | rfl | rfl | rfl | rfl <;> decide
  rw [lifetimeLength?, wordLength?_append hc, hm, Option.bind_some,
    List.drop_append_of_le_length hle, isPrefixOf_append_cons hother.2.2]
  cases hrest : s.drop m with
  | nil =>
    rw [hrest] at h
    rw [List.nil_append, List.head?_cons]
    split
    · next hhead => exact absurd (Option.some.inj hhead) hother.1
    · next hhead => exact absurd (Option.some.inj hhead) hother.2.1
    · exact h
  | cons d ds =>
    rw [hrest] at h
    exact h

/-- A lifetime lies within the text. -/
theorem lifetimeLength?_le {n : Nat} (h : lifetimeLength? s = some n) : n ≤ s.length := by
  obtain ⟨m, hm, h⟩ := Option.bind_eq_some_iff.1 h
  have hle := wordLength?_le hm
  split at h
  · cases h
  · split at h
    · rwa [← Option.some.inj h]
    · cases h
  · rwa [← Option.some.inj h]

/-- Whether a literal starts is settled before such a character. -/
theorem any_literalStarts_append (hc : isStop c = true) (s b : List Char) :
    literalStarts.any (·.isPrefixOf (s ++ c :: b)) = literalStarts.any (·.isPrefixOf s) := by
  have hother : ∀ p ∈ literalStarts, c ∉ p := by
    rcases isStop_iff.1 hc with rfl | rfl | rfl | rfl | rfl | rfl <;> decide
  have hsame : ∀ p ∈ literalStarts, p.isPrefixOf (s ++ c :: b) = p.isPrefixOf s := fun p hp =>
    isPrefixOf_append_cons (hother p hp) s b
  rw [Bool.eq_iff_iff, List.any_eq_true, List.any_eq_true]
  constructor
  · rintro ⟨p, hp, h⟩
    exact ⟨p, hp, by rwa [hsame p hp] at h⟩
  · rintro ⟨p, hp, h⟩
    exact ⟨p, hp, by rwa [hsame p hp]⟩

/-- Literals start with a digit, a quote, or one of three letters. -/
theorem literalShape?_cons_eq_none {d : Char} (hquoted : d ∉ ['\x22', 'r', 'b', 'c'])
    (hchar : d ∉ ['\x27', 'b']) (hdigit : d.isDigit = false) (ds : List Char) :
    literalShape? (d :: ds) = none := by
  rw [literalShape?, quoted?_cons_eq_none hquoted, charLength?_cons_eq_none hchar,
    numberLength?_cons_eq_none hdigit]
  rfl

/-- Words start as identifiers do. -/
theorem isIdentStart_of_wordLength? {d : Char} {ds : List Char} {n : Nat}
    (h : wordLength? (d :: ds) = some n) : isIdentStart d = true := by
  unfold wordLength? at h
  split at h
  · next heq =>
    rw [(List.cons.inj heq).1]
    decide
  · rw [identLength] at h
    split at h
    · assumption
    · cases h

/-- A word between quotes is a character only if the second quote is there already. -/
theorem charBody?_append_eq_none (hc : isStop c = true) {n : Nat} (hword : wordLength? s = some n)
    (h : charBody? .text s = none) (b : List Char) : charBody? .text (s ++ c :: b) = none := by
  have hquote : c ≠ '\x27' := by
    rintro rfl
    exact absurd hc (by decide)
  match s with
  | [] => cases hword
  | d :: ds =>
    have hescape : d ≠ '\x5c' := by
      rintro rfl
      exact absurd (isIdentStart_of_wordLength? hword) (by decide)
    match ds with
    | [] => simp [charBody?, hescape, hquote]
    | e :: es =>
      by_cases he : e = '\x27'
      · simp [charBody?, he, Flavour.allows] at h
      · simp [charBody?, hescape, he]

/-- Identifiers do not start with digits. -/
theorem isDigit_of_isIdentStart {d : Char} (h : isIdentStart d = true) : d.isDigit = false := by
  rw [Bool.eq_false_iff]
  intro hdigit
  have hrange : 48 ≤ d.toNat ∧ d.toNat ≤ 57 := by
    simpa [Char.isDigit, UInt32.le_iff_toNat_le] using hdigit
  have halpha : d.isAlpha = false := by
    delta Char.isAlpha Char.isUpper Char.isLower
    simp only [UInt32.le_iff_toNat_le, ge_iff_le, Bool.or_eq_false_iff, Bool.and_eq_false_iff,
      decide_eq_false_iff_not]
    have hval : d.val.toNat = d.toNat := rfl
    simp [hval]
    omega
  have hunderscore : (d == '_') = false := by
    rw [beq_eq_false_iff_ne]
    rintro rfl
    exact absurd hdigit (by decide)
  have hascii : ¬ 0x80 ≤ d.toNat := by omega
  simp [isIdentStart, halpha, hunderscore, hascii] at h

/-- No literal starts with a mark. -/
theorem literalShape?_cons_of_mark {d : Char} (hmark : marks.contains d = true) (ds : List Char) :
    literalShape? (d :: ds) = none := by
  have hother : marks.all (fun e => decide
      (e ∉ ['\x22', 'r', 'b', 'c'] ∧ e ∉ ['\x27', 'b'] ∧ e.isDigit = false)) = true := by
    decide
  obtain ⟨hquoted, hchar, hdigit⟩ :=
    of_decide_eq_true (List.all_eq_true.1 hother d (by simpa using hmark))
  exact literalShape?_cons_eq_none hquoted hchar hdigit ds

/-- The quote of a lifetime does not become that of a character. -/
theorem literalShape?_quote_append (hc : isStop c = true) {n : Nat} (hword : wordLength? s = some n)
    (h : literalShape? ('\x27' :: s) = none) (b : List Char) :
    literalShape? ('\x27' :: (s ++ c :: b)) = none := by
  have hchar : charBody? .text s = none := by
    cases hbody : charBody? .text s with
    | none => rfl
    | some k => simp [literalShape?, quoted?, charLength?, hbody] at h
  rw [literalShape?, quoted?_cons_eq_none (by decide), charLength?,
    charBody?_append_eq_none hc hword hchar, numberLength?_cons_eq_none (by decide)]
  rfl

/-- A word that does not begin like a literal does not become one. -/
theorem literalShape?_word_append (hc : isStop c = true) {d : Char} {n : Nat}
    (hword : wordLength? (d :: s) = some n)
    (hstart : literalStarts.any (·.isPrefixOf (d :: s)) = false) (b : List Char) :
    literalShape? (d :: (s ++ c :: b)) = none := by
  have hd := isIdentStart_of_wordLength? hword
  have hquote : d ≠ '\x22' ∧ d ≠ '\x27' := by
    constructor <;> (rintro rfl; exact absurd hd (by decide))
  rw [← any_literalStarts_append hc (d :: s) b] at hstart
  exact literalShape?_eq_none hstart hquote (isDigit_of_isIdentStart hd)

/-- The token that a text starts with, if it is not a comment that is still open at the end, stays
the same when the text goes on. -/
theorem shape?_append (hc : isStop c = true) {d : Char} {shape : Shape}
    (h : shape? d s = some shape) (hopen : shape.kind = .lineComment → shape.more < s.length)
    (b : List Char) : shape? d (s ++ c :: b) = some shape := by
  have hhead : ∀ e, c ≠ e → ((s ++ c :: b).head? == some e) = (s.head? == some e) := by
    intro e he
    cases s with
    | nil => simp [he]
    | cons f fs => rfl
  have hslash : c ≠ '/' := by
    rintro rfl
    exact absurd hc (by decide)
  have hstar : c ≠ '*' := by
    rintro rfl
    exact absurd hc (by decide)
  -- The reader looks one character ahead, and for none that is a stop.
  rw [shape?] at h
  rw [shape?, hhead _ hslash, hhead _ hstar]
  split at h
  · next hspacing => rw [if_pos hspacing, h]
  next hspacing =>
  rw [if_neg hspacing]
  split at h
  · next hline =>
    rw [← Option.some.inj h] at hopen
    rw [if_pos hline, untilLineEnd_append hc (hopen rfl), h]
  next hline =>
  rw [if_neg hline]
  split at h
  · next hblock =>
    obtain ⟨n, hn, rfl⟩ := Option.map_eq_some_iff.1 h
    have hs : 1 ≤ s.length := by
      cases s with
      | nil => simp at hblock
      | cons e es => simp
    rw [if_pos hblock, List.drop_append_of_le_length hs, untilCommentEnd_append hn, Option.map_some]
  next hblock =>
  rw [if_neg hblock]
  cases hopened : Delimiter.opened? d with
  | some _ => rwa [hopened] at h
  | none =>
  cases hclosed : Delimiter.closed? d with
  | some _ => rwa [hopened, hclosed] at h
  | none =>
  cases hliteral : literalShape? (d :: s) with
  | some _ =>
    -- The literal ends where it did before, for a stop goes on with none.
    have hsame := literalShape?_append hc hliteral b
    rw [List.cons_append] at hsame
    rw [hopened, hclosed, hliteral] at h
    rwa [hsame]
  | none =>
  rw [hopened, hclosed, hliteral] at h
  simp only at h ⊢
  split at h
  · next hmark =>
    rw [literalShape?_cons_of_mark hmark]
    simp only
    rw [if_pos hmark, h]
  next hmark =>
  split at h
  · next hquote =>
    obtain ⟨n, hn, rfl⟩ := Option.map_eq_some_iff.1 h
    obtain ⟨m, hm, -⟩ := Option.bind_eq_some_iff.1 hn
    rw [beq_iff_eq] at hquote
    subst hquote
    rw [literalShape?_quote_append hc hm hliteral]
    simp only
    rw [if_neg hmark, if_pos (beq_self_eq_true _), lifetimeLength?_append hc hn, Option.map_some]
  next hquote =>
  split at h
  · cases h
  next hstart =>
  obtain ⟨n, hn, rfl⟩ := Option.map_eq_some_iff.1 h
  rw [Bool.not_eq_true] at hstart
  have hstart' := any_literalStarts_append hc (d :: s) b
  rw [List.cons_append, hstart] at hstart'
  rw [literalShape?_word_append hc hn hstart]
  simp only
  rw [if_neg hmark, if_neg hquote, if_neg (by simp [hstart']), ← List.cons_append,
    wordLength?_append hc, hn, Option.map_some]

/-- Every token lies within the text. -/
theorem shape?_le {d : Char} {shape : Shape} (h : shape? d s = some shape) :
    shape.more ≤ s.length := by
  rw [shape?] at h
  split at h
  · rw [← Option.some.inj h]
    exact Nat.zero_le _
  split at h
  · rw [← Option.some.inj h]
    exact untilLineEnd_le s
  split at h
  · next hblock =>
    obtain ⟨n, hn, rfl⟩ := Option.map_eq_some_iff.1 h
    have hle := untilCommentEnd_le hn
    have hs : 1 ≤ s.length := by
      cases s with
      | nil => simp at hblock
      | cons e es => simp
    rw [List.length_drop] at hle
    dsimp only
    omega
  split at h
  · rw [← Option.some.inj h]
    exact Nat.zero_le _
  split at h
  · rw [← Option.some.inj h]
    exact Nat.zero_le _
  split at h
  · next hliteral =>
    rw [← Option.some.inj h]
    exact Nat.le_of_succ_le_succ (literalShape?_le hliteral (List.cons_ne_nil d s))
  split at h
  · rw [← Option.some.inj h]
    exact Nat.zero_le _
  split at h
  · obtain ⟨n, hn, rfl⟩ := Option.map_eq_some_iff.1 h
    exact lifetimeLength?_le hn
  split at h
  · cases h
  · obtain ⟨n, hn, rfl⟩ := Option.map_eq_some_iff.1 h
    have hle := wordLength?_le hn
    rw [List.length_cons] at hle
    dsimp only
    omega

end ProofHarness.Lexical
