import ProofHarness.Proofs.Lexical.Grouping
import ProofHarness.Proofs.Text.Blank

/-!
# Spellings of words and strings

An identifier is one token in front of everything that cannot go on with it (`shape?_identText`),
and so is a string without escapes (`shape?_stringText`), which means what stands between its quotes
(`stringValue?_stringText`).  A string that is not closed is no token.
-/

set_option autoImplicit false

namespace ProofHarness.Lexical

open Text

variable {c : Char} {cs b v w : List Char}

/-! ## What starts a word starts nothing else -/

/-- The start of an identifier is no character that starts none. -/
theorem ne_of_isIdentStart {d : Char} (hc : isIdentStart c = true) (hd : isIdentStart d = false) :
    c ≠ d := by
  rintro rfl
  rw [hc] at hd
  cases hd

/-- It is no blank. -/
theorem isSpacing_of_isIdentStart (hc : isIdentStart c = true) : isSpacing c = false := by
  have hdirections : ∀ n ∈ [0x200E, 0x200F], c.toNat ≠ n := by
    intro n hn heq
    have hd : c = Char.ofNat n := by rw [← heq, Char.ofNat_toNat]
    simp only [List.mem_cons, List.not_mem_nil, or_false] at hn
    rcases hn with rfl | rfl <;> exact ne_of_isIdentStart hc (by decide +kernel) hd
  simp [isSpacing, isBlank_of_isIdentContinue (isIdentContinue_of_isIdentStart hc), hdirections]

/-- It opens no group. -/
theorem opened?_of_isIdentStart (hc : isIdentStart c = true) : Delimiter.opened? c = none := by
  have hne : ∀ d : Delimiter, d.opening ≠ c := by
    intro d
    cases d <;> exact (ne_of_isIdentStart hc (by decide)).symm
  simp [Delimiter.opened?, hne]

/-- It closes no group. -/
theorem closed?_of_isIdentStart (hc : isIdentStart c = true) : Delimiter.closed? c = none := by
  have hne : ∀ d : Delimiter, d.closing ≠ c := by
    intro d
    cases d <;> exact (ne_of_isIdentStart hc (by decide)).symm
  simp [Delimiter.closed?, hne]

/-- It is no mark. -/
theorem contains_marks_of_isIdentStart (hc : isIdentStart c = true) :
    marks.contains c = false := by
  have hmarks : marks.all (fun d => !isIdentStart d) = true := by decide
  rw [List.contains_eq_mem, decide_eq_false_iff_not]
  intro hmem
  exact ne_of_isIdentStart hc (by simpa using List.all_eq_true.1 hmarks c hmem) rfl

/-! ## Words -/

/-- The text of an identifier or keyword, which may be raw. -/
inductive IsIdentText : List Char → Prop
  | plain {c : Char} {cs : List Char} (start : isIdentStart c = true)
      (more : ∀ d ∈ cs, isIdentContinue d = true) : IsIdentText (c :: cs)
  | raw {c : Char} {cs : List Char} (start : isIdentStart c = true)
      (more : ∀ d ∈ cs, isIdentContinue d = true) (allowed : c :: cs ∉ neverRaw) :
      IsIdentText ('r' :: '#' :: c :: cs)

/-- A text does not go on with a word, and does not make one the beginning of a literal. -/
def StopsWord (b : List Char) : Prop :=
  ∀ c, b.head? = some c → isIdentContinue c = false ∧ c ∉ ['\x22', '\x27', '#']

/-- A word ends at the end of a text. -/
theorem stopsWord_nil : StopsWord [] := by
  intro c hc
  cases hc

/-- An identifier ends where a text stops it. -/
theorem takeWhile_append_of_stopsWord (hcs : ∀ d ∈ cs, isIdentContinue d = true)
    (hb : StopsWord b) : (cs ++ b).takeWhile isIdentContinue = cs := by
  have hnil : b.takeWhile isIdentContinue = [] := by
    cases b with
    | nil => rfl
    | cons d ds => exact List.takeWhile_cons_of_neg (by simp [(hb d rfl).1])
  rw [List.takeWhile_append_of_pos hcs, hnil, List.append_nil]

/-- So it is read with its own length. -/
theorem identLength_append_of_stopsWord (hc : isIdentStart c = true)
    (hcs : ∀ d ∈ cs, isIdentContinue d = true) (hb : StopsWord b) :
    identLength (c :: (cs ++ b)) = some (cs.length + 1) := by
  rw [identLength, if_pos hc, takeWhile_append_of_stopsWord hcs hb]

/-- What is read as a word, and starts no literal, is a word. -/
theorem shape?_of_wordLength? {n : Nat} (hword : wordLength? (c :: cs) = some n)
    (hstart : literalStarts.any (·.isPrefixOf (c :: cs)) = false) :
    shape? c cs = some ⟨.word, n - 1, true⟩ := by
  have hc := isIdentStart_of_wordLength? hword
  have hslash : c ≠ '/' := ne_of_isIdentStart hc (by decide)
  have hquote : c ≠ '\x22' ∧ c ≠ '\x27' :=
    ⟨ne_of_isIdentStart hc (by decide), ne_of_isIdentStart hc (by decide)⟩
  rw [shape?, isSpacing_of_isIdentStart hc, opened?_of_isIdentStart hc,
    closed?_of_isIdentStart hc, literalShape?_eq_none hstart hquote (isDigit_of_isIdentStart hc),
    contains_marks_of_isIdentStart hc, hstart, hword]
  simp [hslash, hquote.2]

/-- No literal starts with a word that is stopped: its prefix would reach over the end. -/
theorem any_literalStarts_word (hw : ∀ d ∈ w, isIdentContinue d = true) (hb : StopsWord b) :
    literalStarts.any (·.isPrefixOf (w ++ b)) = false := by
  have hstarts : literalStarts.all (fun p =>
      p.all (fun d => isIdentContinue d || ['\x22', '\x27', '#'].contains d) &&
        p.any fun d => !isIdentContinue d) = true := by decide
  rw [List.any_eq_false]
  intro p hp
  have hp := List.all_eq_true.1 hstarts p hp
  rw [Bool.and_eq_true, List.all_eq_true, List.any_eq_true] at hp
  obtain ⟨hchars, d, hd, hstop⟩ := hp
  -- The beginning does not reach past the word, since what comes next is none of its characters;
  -- and it does not lie in the word because of its quote or number sign.
  have hsame : p.isPrefixOf (w ++ b) = p.isPrefixOf w := by
    cases b with
    | nil => rw [List.append_nil]
    | cons e es =>
      apply isPrefixOf_append_cons
      intro he
      obtain ⟨hcontinue, hquote⟩ := hb e rfl
      have hchar := hchars e he
      rw [hcontinue, Bool.false_or, List.contains_iff_mem] at hchar
      exact hquote hchar
  rw [hsame, List.isPrefixOf_iff_prefix]
  intro hprefix
  rw [hw d (List.IsPrefix.subset hprefix hd)] at hstop
  cases hstop

/-- An identifier is one token. -/
theorem shape?_identText (h : IsIdentText (c :: cs)) (hb : StopsWord b) :
    shape? c (cs ++ b) = some ⟨.word, cs.length, true⟩ := by
  cases h with
  | plain start more =>
    have hall : ∀ d ∈ c :: cs, isIdentContinue d = true :=
      List.forall_mem_cons.2 ⟨isIdentContinue_of_isIdentStart start, more⟩
    have hword : wordLength? (c :: (cs ++ b)) = some (cs.length + 1) := by
      unfold wordLength?
      split
      · next rest heq =>
        -- A number sign neither goes on with the word nor may stand after it.
        have hnext := (List.cons.inj heq).2
        cases cs with
        | nil =>
          rw [List.nil_append] at hnext
          rw [hnext] at hb
          exact absurd (hb '#' rfl).2 (by decide)
        | cons d ds =>
          rw [(List.cons.inj hnext).1] at more
          exact absurd (more '#' List.mem_cons_self) (by decide)
      · exact identLength_append_of_stopsWord start more hb
    exact shape?_of_wordLength? hword (any_literalStarts_word hall hb)
  | @raw d ds start more allowed =>
    have hword : wordLength? ('r' :: '#' :: (d :: ds ++ b)) = some (ds.length + 3) := by
      have htake : (d :: ds ++ b).take (ds.length + 1) = d :: ds := List.take_left' rfl
      rw [wordLength?, List.cons_append, identLength_append_of_stopsWord start more hb,
        Option.bind_some, ← List.cons_append, htake, if_neg (by simpa using allowed)]
    have hstart : literalStarts.any (·.isPrefixOf ('r' :: '#' :: (d :: ds ++ b))) = false := by
      have hquote : d ≠ '\x22' ∧ d ≠ '#' := by
        constructor <;> (rintro rfl; exact absurd start (by decide))
      simp [literalStarts, List.isPrefixOf, hquote.1.symm, hquote.2.symm]
    exact shape?_of_wordLength? hword hstart

/-- An identifier is read as one word. -/
theorem Groups.read_identText (g : Groups) (h : IsIdentText w) (hb : StopsWord b) :
    g.read (w ++ b) = (g.push (.word w)).read b := by
  cases w with
  | nil => cases h
  | cons c cs =>
    have hstep : ∀ joint, g.step
        (Shape.token ⟨.word, cs.length, true⟩ (c :: (cs ++ b).take cs.length)) joint =
          some (g.push (.word (c :: cs))) := by
      intro joint
      rw [List.take_left]
      rfl
    rw [List.cons_append, g.read_cons (shape?_identText h hb) hstep, List.drop_left]

/-- A number sign apart, the characters of an identifier may go on with one. -/
theorem isIdentContinue_of_mem_identText (h : IsIdentText w) (hc : c ∈ w) :
    isIdentContinue c = true ∨ c = '#' := by
  have hall : ∀ {d ds}, isIdentStart d = true → (∀ e ∈ ds, isIdentContinue e = true) →
      c ∈ d :: ds → isIdentContinue c = true := by
    intro d ds start more
    have hcontinue : ∀ e ∈ d :: ds, isIdentContinue e = true :=
      List.forall_mem_cons.2 ⟨isIdentContinue_of_isIdentStart start, more⟩
    exact hcontinue c
  cases h with
  | plain start more => exact .inl (hall start more hc)
  | raw start more _ =>
    rw [List.mem_cons, List.mem_cons] at hc
    rcases hc with rfl | rfl | hc
    · exact .inl (by decide)
    · exact .inr rfl
    · exact .inl (hall start more hc)

/-- Identifiers have no blanks. -/
theorem isBlank_of_mem_identText (h : IsIdentText w) (hc : c ∈ w) : isBlank c = false := by
  rcases isIdentContinue_of_mem_identText h hc with hcontinue | rfl
  · exact isBlank_of_isIdentContinue hcontinue
  · decide

/-! ## Strings -/

/-- A string that is written without escapes. -/
def stringText (v : List Char) : List Char := '\x22' :: (v ++ ['\x22'])

/-- Characters that stand for themselves in a string. -/
structure IsPlain (v : List Char) : Prop where
  quote : '\x22' ∉ v
  backslash : '\x5c' ∉ v
  /-- A carriage return is left out in front of a line feed and refused elsewhere. -/
  carriage : '\r' ∉ v

/-- Plain texts consist of plain characters. -/
theorem IsPlain.cons_iff : IsPlain (c :: v) ↔
    (c ≠ '\x22' ∧ c ≠ '\x5c' ∧ c ≠ '\r') ∧ IsPlain v := by
  constructor
  · rintro ⟨hquote, hbackslash, hreturn⟩
    obtain ⟨hc₁, h₁⟩ := List.ne_and_not_mem_of_not_mem_cons hquote
    obtain ⟨hc₂, h₂⟩ := List.ne_and_not_mem_of_not_mem_cons hbackslash
    obtain ⟨hc₃, h₃⟩ := List.ne_and_not_mem_of_not_mem_cons hreturn
    exact ⟨⟨hc₁.symm, hc₂.symm, hc₃.symm⟩, h₁, h₂, h₃⟩
  · rintro ⟨⟨hc₁, hc₂, hc₃⟩, h₁, h₂, h₃⟩
    exact ⟨List.not_mem_cons_of_ne_of_not_mem hc₁.symm h₁,
      List.not_mem_cons_of_ne_of_not_mem hc₂.symm h₂,
      List.not_mem_cons_of_ne_of_not_mem hc₃.symm h₃⟩

/-- Characters of a plain text make a plain text. -/
theorem IsPlain.of_subset (h : IsPlain v) (hw : w ⊆ v) : IsPlain w :=
  ⟨fun hc => h.quote (hw hc), fun hc => h.backslash (hw hc), fun hc => h.carriage (hw hc)⟩

/-- The closing quote comes after any other plain character. -/
theorem closingQuote_cons (hc : c ≠ '\x22' ∧ c ≠ '\x5c') (cs : List Char) :
    closingQuote (c :: cs) = (closingQuote cs).map (· + 1) := by
  cases cs with
  | nil => simp [closingQuote, hc]
  | cons d ds => simp [closingQuote, hc]

/-- It is the first quote after a plain text. -/
theorem closingQuote_append_cons (hv : IsPlain v) (b : List Char) :
    closingQuote (v ++ '\x22' :: b) = some v.length := by
  induction v with
  | nil => cases b <;> rfl
  | cons c cs ih =>
    obtain ⟨hc, hcs⟩ := IsPlain.cons_iff.1 hv
    rw [List.cons_append, closingQuote_cons ⟨hc.1, hc.2.1⟩, ih hcs]
    rfl

/-- A plain text has none. -/
theorem closingQuote_eq_none (hv : IsPlain v) : closingQuote v = none := by
  induction v with
  | nil => rfl
  | cons c cs ih =>
    obtain ⟨hc, hcs⟩ := IsPlain.cons_iff.1 hv
    rw [closingQuote_cons ⟨hc.1, hc.2.1⟩, ih hcs]
    rfl

/-- A plain text stands for itself. -/
theorem cookedFrom_text (hv : IsPlain v) : cookedFrom .text 0 v = some v := by
  induction v with
  | nil => rfl
  | cons c cs ih =>
    obtain ⟨hc, hcs⟩ := IsPlain.cons_iff.1 hv
    rw [cookedFrom, if_neg (by simpa using hc.2.1), if_neg (by simpa using hc.2.2), ih hcs]
    rfl

/-- A plain text in quotes is read as this text. -/
theorem quoted?_stringText (hv : IsPlain v) :
    quoted? (stringText v) = some ⟨.text, false, v, v.length + 2⟩ := by
  rw [stringText, quoted?, cooked?, closingQuote_append_cons hv, Option.map_some, List.take_left,
    Nat.add_comm 1]

/-- A string without escapes means what stands between its quotes. -/
theorem stringValue?_stringText (hv : IsPlain v) : stringValue? (stringText v) = some v := by
  rw [stringValue?, quoted?_stringText hv, Option.bind_some]
  exact cookedFrom_text hv

/-- Nothing but a literal starts with a quotation mark. -/
theorem shape?_quote (cs : List Char) : shape? '\x22' cs = literalShape? ('\x22' :: cs) := by
  unfold shape?
  cases literalShape? ('\x22' :: cs) <;> rfl

/-- It is one literal. -/
theorem shape?_stringText (hv : IsPlain v) :
    shape? '\x22' (v ++ ['\x22']) = some ⟨.literal, v.length + 1, true⟩ := by
  have hdrop : (stringText v).drop (v.length + 2) = [] :=
    List.drop_eq_nil_of_le (by simp [stringText])
  rw [shape?_quote, ← stringText, literalShape?, quoted?_stringText hv]
  simp [hdrop, identLength, Quoted.value?, cookedFrom_text hv]

/-- It is read as one literal. -/
theorem reads_stringText (hv : IsPlain v) : Reads (stringText v) [.literal (stringText v)] := by
  have htake : (v ++ ['\x22']).take (v.length + 1) = v ++ ['\x22'] :=
    List.take_of_length_le (by simp)
  have hdrop : (v ++ ['\x22']).drop (v.length + 1) = [] := List.drop_eq_nil_of_le (by simp)
  have htokens : bareTokens (stringText v) =
      some [Shape.token ⟨.literal, v.length + 1, true⟩ (stringText v)] := by
    rw [stringText, bareTokens_cons, shape?_stringText hv, Option.bind_some, htake, hdrop]
    rfl
  refine ⟨_, htokens, ?_, rfl⟩
  intro t ht
  rw [List.getLast?_singleton, Option.some.injEq] at ht
  rw [← ht]
  exact TokenKind.noConfusion

/-- A string that is not closed is no token. -/
theorem Groups.read_unclosed (g : Groups) (hv : IsPlain v) : g.read ('\x22' :: v) = none := by
  have hquoted : quoted? ('\x22' :: v) = none := by
    rw [quoted?, cooked?, closingQuote_eq_none hv]
    rfl
  rw [Groups.read, bareTokens_cons, shape?_quote, literalShape?, hquoted,
    charLength?_cons_eq_none (by decide), numberLength?_cons_eq_none (by decide)]
  rfl

end ProofHarness.Lexical
