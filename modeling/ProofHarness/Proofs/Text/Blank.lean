import ProofHarness.Proofs.Text.Trim
import ProofHarness.Text.Identifier
import ProofHarness.Text.Numeral

/-!
# Blanks

No blank may stand in an identifier, and none is a digit.  Squeezing the blanks out of a text goes
character by character, so that what no blank takes part in is the same before and after it.
-/

set_option autoImplicit false

namespace ProofHarness.Text

/-! ## The blanks -/

/-- The blanks. -/
def blanks : List Char :=
  ['\t', '\n', '\x0b', '\x0c', '\r', ' ', '\x85', '\xa0', '\u1680', '\u2000', '\u2001', '\u2002',
    '\u2003', '\u2004', '\u2005', '\u2006', '\u2007', '\u2008', '\u2009', '\u200a', '\u2028',
    '\u2029', '\u202f', '\u205f', '\u3000']

/-- The blanks are on the list. -/
theorem mem_blanks_of_isBlank {c : Char} (h : isBlank c = true) : c ∈ blanks := by
  have hnat : c.toNat ∈ blanks.map Char.toNat := by
    simp only [isBlank, Bool.or_eq_true, Bool.and_eq_true, decide_eq_true_eq, beq_iff_eq] at h
    simp only [blanks, List.map_cons, List.map_nil, Char.reduceToNat, List.mem_cons,
      List.not_mem_nil, or_false]
    omega
  obtain ⟨d, hd, heq⟩ := List.mem_map.1 hnat
  rwa [← Char.toNat_inj.1 heq]

/-- Blanks are no part of identifiers. -/
theorem isIdentContinue_of_isBlank {c : Char} (h : isBlank c = true) :
    isIdentContinue c = false := by
  have hblanks : blanks.all (fun d => !isIdentContinue d) = true := by decide +kernel
  simpa using List.all_eq_true.1 hblanks c (mem_blanks_of_isBlank h)

/-- Parts of identifiers are no blanks. -/
theorem isBlank_of_isIdentContinue {c : Char} (h : isIdentContinue c = true) :
    isBlank c = false := by
  rw [Bool.eq_false_iff]
  intro hblank
  rw [isIdentContinue_of_isBlank hblank] at h
  cases h

/-- Blanks are no decimals. -/
theorem isDecimal_of_isBlank {c : Char} (h : isBlank c = true) : isDecimal c = false := by
  have hblanks : blanks.all (fun d => !isDecimal d) = true := by decide
  simpa using List.all_eq_true.1 hblanks c (mem_blanks_of_isBlank h)

/-- White space, which may be empty. -/
structure Gap where
  text : List Char
  blank : ∀ c ∈ text, isBlank c = true

namespace Gap

/-- No blanks at all. -/
def empty : Gap := ⟨[], by simp⟩

/-- One space. -/
def space : Gap := ⟨[' '], List.forall_mem_singleton.2 (by decide)⟩

/-- Gaps around a text are cut off. -/
theorem trim_between (before after : Gap) (s : List Char) :
    trim (before.text ++ (s ++ after.text)) = trim s :=
  trim_between_blanks before.blank after.blank s

/-- Gaps have nothing but blanks. -/
theorem not_mem_text (gap : Gap) {c : Char} (hc : isBlank c = false) : c ∉ gap.text :=
  not_mem_of_forall_isBlank gap.blank hc

end Gap

/-! ## Without blanks -/

/-- A blank is left out. -/
theorem compact_cons_of_isBlank {c : Char} (h : isBlank c = true) (cs : List Char) :
    compact (c :: cs) = compact cs :=
  List.filter_cons_of_neg (by simp [h])

/-- Any other character stays. -/
theorem compact_cons_of_not_isBlank {c : Char} (h : isBlank c = false) (cs : List Char) :
    compact (c :: cs) = c :: compact cs :=
  List.filter_cons_of_pos (by simp [h])

/-- Blanks in front are left out anyway. -/
theorem compact_dropWhile (s : List Char) : compact (s.dropWhile isBlank) = compact s := by
  induction s with
  | nil => rfl
  | cons c cs ih =>
    rw [List.dropWhile_cons]
    split
    · next hc => rw [ih, compact_cons_of_isBlank hc]
    · rfl

/-- The first character that stays is the first one that is no blank. -/
theorem head?_compact (s : List Char) : (compact s).head? = (s.dropWhile isBlank).head? := by
  induction s with
  | nil => rfl
  | cons c cs ih =>
    rw [List.dropWhile_cons]
    split
    · next hc => rw [compact_cons_of_isBlank hc, ih]
    · next hc => rw [compact_cons_of_not_isBlank (by simpa using hc)]; rfl

/-- A text without blanks stays as it is. -/
theorem compact_eq_self_of_all {s : List Char} (h : ∀ c ∈ s, isBlank c = false) : compact s = s :=
  List.filter_eq_self.2 fun c hc => by simp [h c hc]

/-- Of blanks nothing stays. -/
theorem compact_eq_nil_of_all {s : List Char} (h : ∀ c ∈ s, isBlank c = true) : compact s = [] :=
  List.filter_eq_nil_iff.2 fun c hc => by simp [h c hc]

/-- Blanks at the ends are left out anyway. -/
theorem compact_trim (s : List Char) : compact (trim s) = compact s := by
  obtain ⟨blanks, hblanks, hs⟩ := exists_trimEnd_append (trimStart s)
  have hstart : compact (trimStart s) = compact s := compact_dropWhile s
  rw [← hstart, ← hs, compact_append, compact_eq_nil_of_all hblanks, List.append_nil, trim]

/-- Nothing is left to cut off. -/
theorem trim_compact (s : List Char) : trim (compact s) = compact s := by
  apply trim_eq_self_of_all
  intro c hc
  simpa using (List.mem_filter.1 hc).2

/-- What a test that no blank passes says of the beginning of a text does not depend on blanks. -/
theorem dropWhile_not_compact {p : Char → Bool} (hp : ∀ c, isBlank c = true → p c = false)
    (s : List Char) :
    (compact s).dropWhile (fun c => !p c) = compact (s.dropWhile fun c => !p c) := by
  induction s with
  | nil => rfl
  | cons c cs ih =>
    cases hc : isBlank c with
    | true =>
      rw [compact_cons_of_isBlank hc, ih, List.dropWhile_cons_of_pos (by simp [hp c hc])]
    | false =>
      rw [compact_cons_of_not_isBlank hc, List.dropWhile_cons, List.dropWhile_cons]
      split
      · exact ih
      · rw [compact_cons_of_not_isBlank hc]

/-- A run that may go over blanks is the run from before, without its blanks. -/
theorem takeWhile_compact {p : Char → Bool} (hp : ∀ c, isBlank c = true → p c = true)
    (s : List Char) : (compact s).takeWhile p = compact (s.takeWhile p) := by
  induction s with
  | nil => rfl
  | cons c cs ih =>
    cases hc : isBlank c with
    | true =>
      rw [compact_cons_of_isBlank hc, ih, List.takeWhile_cons_of_pos (hp c hc),
        compact_cons_of_isBlank hc]
    | false =>
      rw [compact_cons_of_not_isBlank hc, List.takeWhile_cons, List.takeWhile_cons]
      split
      · rw [compact_cons_of_not_isBlank hc, ih]
      · rfl

/-- Nothing is left to cut off in front. -/
theorem trimStart_compact (s : List Char) : trimStart (compact s) = compact s := by
  cases hs : compact s with
  | nil => rfl
  | cons c cs =>
    have hc : c ∈ compact s := by
      rw [hs]
      exact List.mem_cons_self
    exact trimStart_cons_of_not_isBlank (by simpa using (List.mem_filter.1 hc).2) cs

end ProofHarness.Text
