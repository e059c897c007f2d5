import ProofHarness.Text.Line

/-!
# Lines of texts that are put together

A line that a line feed ends is the first line of a text (`lines_append_newline`), so that a text
can be gone through line by line (`lineInduction`).  A text of whole lines has as many lines as line
feeds, and in front of another text it puts its lines in front of those of the other
(`lines_append_of_wholeLines`).
-/

set_option autoImplicit false

namespace ProofHarness.Text

/-! ## Carriage returns -/

/-- Only the last character may be dropped. -/
theorem dropReturn_cons_cons (c d : Char) (s : List Char) :
    dropReturn (c :: d :: s) = c :: dropReturn (d :: s) := by
  rw [dropReturn, dropReturn, List.getLast?_cons_cons]
  split <;> simp

/-- What is left is in front. -/
theorem dropReturn_isPrefix (s : List Char) : dropReturn s <+: s := by
  rw [dropReturn]
  split
  · exact List.dropLast_prefix s
  · exact List.prefix_rfl

/-- Dropping brings no characters in. -/
theorem not_mem_map_dropReturn {c : Char} {ls : List (List Char)} (h : ∀ l ∈ ls, c ∉ l) :
    ∀ l ∈ ls.map dropReturn, c ∉ l := by
  rw [List.forall_mem_map]
  exact fun l hl hc => h l hl ((dropReturn_isPrefix l).subset hc)

/-! ## Line by line -/

/-- A line feed ends the line that was started. -/
theorem linesFrom_append_newline {l : List Char} (hl : '\n' ∉ l) (started s : List Char) :
    linesFrom started (l ++ '\n' :: s) = dropReturn (started.reverse ++ l) :: lines s := by
  induction l generalizing started with
  | nil => simp [linesFrom, lines]
  | cons c l ih =>
    obtain ⟨hc, hl'⟩ := List.ne_and_not_mem_of_not_mem_cons hl
    rw [List.cons_append, linesFrom, if_neg (by simp [Ne.symm hc]), ih hl']
    simp

/-- The last line counts unless it is empty. -/
theorem linesFrom_of_not_mem {l : List Char} (hl : '\n' ∉ l) (started : List Char) :
    linesFrom started l = [started.reverse ++ l].filter fun t => !t.isEmpty := by
  induction l generalizing started with
  | nil => cases started <;> simp [linesFrom]
  | cons c l ih =>
    obtain ⟨hc, hl'⟩ := List.ne_and_not_mem_of_not_mem_cons hl
    rw [linesFrom, if_neg (by simp [Ne.symm hc]), ih hl']
    simp

/-- The first line ends at the first line feed. -/
theorem lines_append_newline {l : List Char} (hl : '\n' ∉ l) (s : List Char) :
    lines (l ++ '\n' :: s) = dropReturn l :: lines s :=
  linesFrom_append_newline hl [] s

/-- Induction over a text line by line. -/
theorem lineInduction {motive : List Char → Prop} (last : ∀ l, '\n' ∉ l → motive l)
    (line : ∀ l s, '\n' ∉ l → motive s → motive (l ++ '\n' :: s)) (s : List Char) : motive s := by
  by_cases h : '\n' ∈ s
  · obtain ⟨l, r, hs, hl⟩ := List.eq_append_cons_of_mem h
    have hlength : r.length < s.length := by
      rw [hs, List.length_append, List.length_cons]
      omega
    rw [hs]
    exact line l r hl (lineInduction last line r)
  · exact last s h
termination_by s.length

/-! ## Whole lines -/

/-- The text is empty or ends with a line feed. -/
def WholeLines (s : List Char) : Prop := ∀ c, s.getLast? = some c → c = '\n'

/-- Without a line feed there is no whole line. -/
theorem WholeLines.eq_nil_of_not_mem {l : List Char} (h : WholeLines l) (hl : '\n' ∉ l) :
    l = [] := by
  cases hlast : l.getLast? with
  | none => exact List.getLast?_eq_none_iff.1 hlast
  | some c =>
    rw [h c hlast] at hlast
    exact absurd (List.mem_of_getLast? hlast) hl

/-- After a line the whole lines go on. -/
theorem WholeLines.of_append_newline {l s : List Char} (h : WholeLines (l ++ '\n' :: s)) :
    WholeLines s := by
  intro c hc
  apply h c
  rw [List.getLast?_append, List.getLast?_cons, hc]
  rfl

/-- The lines of a text come after those of whole lines in front of it. -/
theorem lines_append_of_wholeLines {s : List Char} (h : WholeLines s) (t : List Char) :
    lines (s ++ t) = lines s ++ lines t := by
  induction s using lineInduction with
  | last l hl =>
    rw [h.eq_nil_of_not_mem hl]
    rfl
  | line l s hl ih =>
    rw [List.append_assoc, List.cons_append, lines_append_newline hl, lines_append_newline hl,
      ih h.of_append_newline, List.cons_append]

/-- Each line feed of whole lines ends one of them. -/
theorem length_lines_of_wholeLines {s : List Char} (h : WholeLines s) :
    (lines s).length = s.count '\n' := by
  induction s using lineInduction with
  | last l hl =>
    rw [h.eq_nil_of_not_mem hl]
    rfl
  | line l s hl ih =>
    rw [lines_append_newline hl, List.length_cons, ih h.of_append_newline, List.count_append,
      List.count_eq_zero.2 hl, List.count_cons_self, Nat.zero_add]

end ProofHarness.Text
