import ProofHarness.Proofs.Text.Lines
import ProofHarness.Proofs.Text.Occurrence
import ProofHarness.Proofs.Text.Trim
import ProofHarness.Report.Output

/-!
# Lines and paragraphs of verifier output

How the output of the verifier falls apart when it is put together from lines.  Plain line ends
take one carriage return from each line (`plainLines_append_newline`).  What is written on one line
stays with the paragraph around it (`paragraphs_append_of_not_mem`), a blank line ends a paragraph
(`paragraphs_newline_newline`), and a paragraph that follows other text begins inside the last
paragraph of that text (`exists_paragraphs_eq_append`).  Neither change of line ends matters to the
lines of a text once the blanks around them are gone.
-/

set_option autoImplicit false

namespace ProofHarness.Text

/-- A text does not begin with two characters if the second does not follow the first. -/
theorem isPrefixOf_pair_eq_false {x y c : Char} {s : List Char}
    (h : c = x → s.head? ≠ some y) : [x, y].isPrefixOf (c :: s) = false := by
  rw [Bool.eq_false_iff]
  intro hp
  obtain ⟨t, ht⟩ := List.isPrefixOf_iff_prefix.1 hp
  rw [List.cons_append, List.cons_append, List.cons.injEq] at ht
  obtain ⟨rfl, rfl⟩ := ht
  exact h rfl rfl

end ProofHarness.Text

namespace ProofHarness.Report

open Text

/-! ## Plain line ends -/

/-- The carriage return of a line end is dropped. -/
theorem plainLines_return_newline (s : List Char) :
    plainLines ('\r' :: '\n' :: s) = '\n' :: plainLines s := rfl

/-- Any other character stays. -/
theorem plainLines_cons {c : Char} {s : List Char} (h : c = '\r' → s.head? ≠ some '\n') :
    plainLines (c :: s) = c :: plainLines s := by
  show replaceFrom _ _ 0 (c :: s) = _
  rw [replaceFrom, isPrefixOf_pair_eq_false h]
  rfl

/-- A line feed stays. -/
theorem plainLines_newline (s : List Char) : plainLines ('\n' :: s) = '\n' :: plainLines s :=
  plainLines_cons (by simp)

/-- Induction over a text of which the ends of lines are made plain. -/
theorem plainInduction {motive : List Char → Prop} (nil : motive [])
    (ended : ∀ s, motive ('\n' :: s) → motive ('\r' :: '\n' :: s))
    (cons : ∀ c s, (c = '\r' → s.head? ≠ some '\n') → motive s → motive (c :: s))
    (s : List Char) : motive s := by
  induction s with
  | nil => exact nil
  | cons c s ih =>
    by_cases h : c = '\r' ∧ s.head? = some '\n'
    · obtain ⟨rfl, hs⟩ := h
      cases s with
      | nil => cases hs
      | cons d ds =>
        rw [List.head?_cons, Option.some.injEq] at hs
        subst hs
        exact ended ds ih
    · exact cons c s (fun hc hs => h ⟨hc, hs⟩) ih

/-- Line ends are made plain part by part, unless a carriage return is parted from its line
feed. -/
theorem plainLines_append_of_head {a b : List Char}
    (h : a.getLast? = some '\r' → b.head? ≠ some '\n') :
    plainLines (a ++ b) = plainLines a ++ plainLines b := by
  induction a using plainInduction with
  | nil => rfl
  | ended s ih =>
    have hs := ih (by simpa [List.getLast?_cons_cons] using h)
    rw [List.cons_append, plainLines_newline, plainLines_newline] at hs
    rw [List.cons_append, List.cons_append, plainLines_return_newline, plainLines_return_newline]
    exact hs
  | cons c s hc ih =>
    cases s with
    | nil =>
      have hplain : plainLines (c :: b) = c :: plainLines b :=
        plainLines_cons fun hr => h (by simp [hr])
      rw [List.singleton_append, hplain, plainLines_cons hc]
      rfl
    | cons d ds =>
      have hs := ih (by simpa [List.getLast?_cons_cons] using h)
      rw [List.cons_append, plainLines_cons (by simpa using hc), hs, plainLines_cons hc]
      rfl

/-- Two texts are treated apart if no line end is torn between them. -/
theorem plainLines_append {a : List Char} (ha : a.getLast? ≠ some '\r') (b : List Char) :
    plainLines (a ++ b) = plainLines a ++ plainLines b :=
  plainLines_append_of_head fun h => absurd h ha

/-- The end of one line is made plain. -/
theorem plainLines_append_newline {l : List Char} (hl : '\n' ∉ l) (s : List Char) :
    plainLines (l ++ '\n' :: s) = dropReturn l ++ '\n' :: plainLines s := by
  induction l with
  | nil => exact plainLines_newline s
  | cons c l ih =>
    obtain ⟨-, hl'⟩ := List.ne_and_not_mem_of_not_mem_cons hl
    cases l with
    | nil =>
      by_cases hc : c = '\r'
      · subst hc
        exact plainLines_return_newline s
      · have hdrop : dropReturn [c] = [c] := by
          unfold dropReturn
          split
          · next h => simp at h; exact absurd h hc
          · rfl
        rw [List.cons_append, plainLines_cons (fun hr => absurd hr hc), hdrop, List.nil_append,
          plainLines_newline]
        rfl
    | cons d ds =>
      have hd : d ≠ '\n' := by
        rintro rfl
        exact hl' List.mem_cons_self
      rw [List.cons_append, plainLines_cons (by simp [hd]), ih hl', dropReturn_cons_cons]
      rfl

/-- A text on one line has no line ends that could be made plain. -/
theorem plainLines_of_not_mem {l : List Char} (hl : '\n' ∉ l) : plainLines l = l := by
  induction l with
  | nil => rfl
  | cons c l ih =>
    obtain ⟨-, hl'⟩ := List.ne_and_not_mem_of_not_mem_cons hl
    rw [plainLines_cons, ih hl']
    intro _ hs
    exact hl' (List.mem_of_mem_head? hs)

/-! ## Lines -/

/-- Plain line ends do not matter to the lines of a text without the blanks around them. -/
theorem map_trim_lines_plainLines (s : List Char) :
    (lines (plainLines s)).map trim = (lines s).map trim := by
  induction s using lineInduction with
  | last l hl => rw [plainLines_of_not_mem hl]
  | line l s hl ih =>
    have hdrop : '\n' ∉ dropReturn l := fun h => hl ((dropReturn_isPrefix l).subset h)
    rw [plainLines_append_newline hl, lines_append_newline hdrop, lines_append_newline hl,
      List.map_cons, List.map_cons, ih, trim_dropReturn]

/-- A word on one line occurs in a text if it occurs there with plain line ends. -/
theorem contains_plainLines_eq_false {p : List Char} (hp : '\n' ∉ p) {s : List Char}
    (h : contains p s = false) : contains p (plainLines s) = false := by
  induction s using lineInduction with
  | last l hl => rwa [plainLines_of_not_mem hl]
  | line l s hl ih =>
    rw [contains_append_cons hp, Bool.or_eq_false_iff] at h
    rw [plainLines_append_newline hl, contains_append_cons hp, ih h.2,
      contains_eq_false_of_isInfix (dropReturn_isPrefix l).isInfix h.1]
    rfl

/-- The end of the last line of a text is still there when it is made plain. -/
theorem getLast?_plainLines {s : List Char} (h : s.getLast? = some '\n') :
    (plainLines s).getLast? = some '\n' := by
  induction s using plainInduction with
  | nil => cases h
  | ended s ih =>
    rw [plainLines_return_newline, ← plainLines_newline]
    exact ih (by simpa [List.getLast?_cons_cons] using h)
  | cons c s hc ih =>
    rw [plainLines_cons hc]
    cases s with
    | nil => exact h
    | cons d ds =>
      rw [List.getLast?_cons_cons] at h
      rw [List.getLast?_cons, ih h]
      rfl

/-- The filled lines of a text that starts with a whole line. -/
theorem filledLines_append_newline {l : List Char} (hl : '\n' ∉ l) (s : List Char) :
    filledLines (l ++ '\n' :: s) = [trim l].filter (fun t => !t.isEmpty) ++ filledLines s := by
  rw [filledLines, lines_append_newline hl, List.map_cons, List.filter_cons, trim_dropReturn]
  cases h : (trim l).isEmpty <;> simp [h, filledLines]

/-- One line is filled unless it is blank. -/
theorem filledLines_of_not_mem {l : List Char} (hl : '\n' ∉ l) :
    filledLines l = [trim l].filter fun t => !t.isEmpty := by
  rw [filledLines, lines, linesFrom_of_not_mem hl]
  cases l with
  | nil => rfl
  | cons c l => rfl

/-- The filled lines of a text that is put together from lines. -/
theorem filledLines_join {ls : List (List Char)} (h : ∀ l ∈ ls, '\n' ∉ l) :
    filledLines (join ['\n'] ls) = (ls.map trim).filter fun t => !t.isEmpty := by
  induction ls with
  | nil => rfl
  | cons l ls ih =>
    obtain ⟨hl, hls⟩ := List.forall_mem_cons.1 h
    cases ls with
    | nil => exact filledLines_of_not_mem hl
    | cons m ms =>
      rw [join, List.append_assoc, List.singleton_append, filledLines_append_newline hl, ih hls,
        ← List.filter_append]
      rfl

/-! ## Paragraphs -/

/-- The stretches of a text between blank lines. -/
def paragraphs (s : List Char) : List (List Char) := splitOn ['\n', '\n'] s

/-- Two line feeds end a paragraph. -/
theorem paragraphs_newline_newline (s : List Char) :
    paragraphs ('\n' :: '\n' :: s) = [] :: paragraphs s := rfl

/-- Any other character belongs to the first paragraph. -/
theorem paragraphs_cons {c : Char} {s : List Char} (h : c = '\n' → s.head? ≠ some '\n') :
    paragraphs (c :: s) = extendFirst c (paragraphs s) := by
  show splitFrom _ 0 (c :: s) = _
  rw [splitFrom, isPrefixOf_pair_eq_false h]
  rfl

/-- What stands on one line belongs to one paragraph with what comes after it. -/
theorem paragraphs_append_of_not_mem {l s first : List Char} {later : List (List Char)}
    (hl : '\n' ∉ l) (hs : paragraphs s = first :: later) :
    paragraphs (l ++ s) = (l ++ first) :: later := by
  induction l with
  | nil => exact hs
  | cons c l ih =>
    obtain ⟨hc, hl'⟩ := List.ne_and_not_mem_of_not_mem_cons hl
    rw [List.cons_append, paragraphs_cons (fun h => absurd h.symm hc), ih hl']
    rfl

/-- Induction over a text that is cut at its blank lines. -/
theorem breakInduction {motive : List Char → Prop} (nil : motive [])
    (broken : ∀ s, motive s → motive ('\n' :: '\n' :: s))
    (cons : ∀ c s, (c = '\n' → s.head? ≠ some '\n') → motive s → motive (c :: s))
    (s : List Char) : motive s := by
  match s with
  | [] => exact nil
  | [c] => exact cons c [] (by simp) nil
  | c :: d :: s =>
    by_cases h : c = '\n' ∧ d = '\n'
    · rw [h.1, h.2]
      exact broken s (breakInduction nil broken cons s)
    · refine cons c (d :: s) ?_ (breakInduction nil broken cons (d :: s))
      intro hc hd
      exact h ⟨hc, by simpa using hd⟩

/-- A text ends in a last paragraph, with which another text goes on if that does not begin with a
line feed. -/
theorem exists_paragraphs_eq_append (a : List Char) :
    ∃ earlier last, paragraphs a = earlier ++ [last] ∧
      a = earlier.flatMap (· ++ ['\n', '\n']) ++ last ∧
      ∀ b first later, b.head? ≠ some '\n' → paragraphs b = first :: later →
        paragraphs (a ++ b) = earlier ++ (last ++ first) :: later := by
  -- Only the last paragraph goes on with `b`, whatever that is.
  induction a using breakInduction with
  | nil => exact ⟨[], [], rfl, rfl, fun b first later _ hb => hb⟩
  | broken s ih =>
    obtain ⟨earlier, last, hs, hjoin, hgo⟩ := ih
    refine ⟨[] :: earlier, last, ?_, ?_, ?_⟩
    · rw [paragraphs_newline_newline, hs, List.cons_append]
    · simp [← hjoin]
    · intro b first later hhead hb
      rw [List.cons_append, List.cons_append, paragraphs_newline_newline,
        hgo b first later hhead hb, List.cons_append]
  | cons c s h ih =>
    obtain ⟨earlier, last, hs, hjoin, hgo⟩ := ih
    have hstep : ∀ b : List Char, b.head? ≠ some '\n' →
        paragraphs (c :: (s ++ b)) = extendFirst c (paragraphs (s ++ b)) := by
      intro b hhead
      apply paragraphs_cons
      intro hc
      cases s with
      | nil => exact hhead
      | cons d ds => exact h hc
    -- The character goes in front of the first paragraph, which may be the last one, too.
    cases earlier with
    | nil =>
      refine ⟨[], c :: last, ?_, ?_, ?_⟩
      · rw [paragraphs_cons h, hs]
        rfl
      · rw [hjoin]
        rfl
      · intro b first later hhead hb
        rw [List.cons_append, hstep b hhead, hgo b first later hhead hb]
        rfl
    | cons e es =>
      refine ⟨(c :: e) :: es, last, ?_, ?_, ?_⟩
      · rw [paragraphs_cons h, hs]
        rfl
      · rw [hjoin]
        rfl
      · intro b first later hhead hb
        rw [List.cons_append, hstep b hhead, hgo b first later hhead hb]
        rfl

/-- There is always a paragraph, even if it is empty. -/
theorem exists_paragraphs_eq_cons (s : List Char) :
    ∃ first later, paragraphs s = first :: later := by
  obtain ⟨earlier, last, hs, -, -⟩ := exists_paragraphs_eq_append s
  cases earlier with
  | nil => exact ⟨last, [], hs⟩
  | cons e es => exact ⟨e, es ++ [last], hs⟩

end ProofHarness.Report
