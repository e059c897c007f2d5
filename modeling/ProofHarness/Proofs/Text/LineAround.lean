import ProofHarness.Proofs.Text.Lines
import ProofHarness.Proofs.Text.Trim

/-!
# The line around a place

Of a text in two parts, one line reaches over the place where the parts meet: from the line feed
before the place to the one after it, without the carriage returns at its end.  The line around a
place is this line, and there is no other (`isLineOf_iff`), also where one of the parts is empty or
where the place is next to a line feed or between carriage returns.
-/

set_option autoImplicit false

namespace ProofHarness.Text

/-- The line around the end of `before` and the start of `after`: it has no line feed in it, and
with the carriage returns after it it reaches from a line feed in `before`, or from its start, to a
line feed in `after`, or to its end. -/
structure IsLineOf (before after line : List Char) : Prop where
  noFeed : '\n' ∉ line
  noReturn : line.getLast? ≠ some '\r'
  stretch : ∃ earlier left right later returns, before = earlier ++ left ∧ after = right ++ later ∧
    left ++ right = line ++ returns ∧ (∀ c ∈ returns, c = '\r') ∧
    WholeLines earlier ∧ ∀ c, later.head? = some c → c = '\n'

/-! ## The parts of a line -/

/-- The rest of a line has no line feed. -/
theorem newline_notMem_lineRest (after : List Char) : '\n' ∉ lineRest after := by
  intro h
  have hne := List.mem_takeWhile_imp h
  simp at hne

/-- After the rest of a line comes a line feed, if anything. -/
theorem exists_lineRest_append (after : List Char) :
    ∃ later, after = lineRest after ++ later ∧ ∀ c, later.head? = some c → c = '\n' := by
  refine ⟨after.dropWhile (· != '\n'), List.takeWhile_append_dropWhile.symm, fun c hc => ?_⟩
  have hstop := List.head?_dropWhile_not (· != '\n') after
  rw [hc] at hstop
  simpa using hstop

/-- No other part of a text is like that. -/
theorem lineRest_append {right later : List Char} (hright : '\n' ∉ right)
    (hlater : ∀ c, later.head? = some c → c = '\n') : lineRest (right ++ later) = right := by
  have hright' : ∀ c ∈ right, (c != '\n') = true := by
    intro c hc
    rw [bne_iff_ne]
    rintro rfl
    exact hright hc
  have hstop : later.takeWhile (· != '\n') = [] := by
    cases later with
    | nil => rfl
    | cons c cs =>
      rw [hlater c rfl]
      rfl
  rw [lineRest, List.takeWhile_append_of_pos hright', hstop, List.append_nil]

/-- Nor has its start. -/
theorem newline_notMem_lineStart (before : List Char) : '\n' ∉ lineStart before := by
  rw [lineStart, List.mem_reverse]
  exact newline_notMem_lineRest before

/-- Before the start of a line there are whole lines. -/
theorem exists_append_lineStart (before : List Char) :
    ∃ earlier, before.reverse = earlier ++ lineStart before ∧ WholeLines earlier := by
  obtain ⟨later, hbefore, hlater⟩ := exists_lineRest_append before
  refine ⟨later.reverse, ?_, fun c hc => ?_⟩
  · rw [lineStart, ← List.reverse_append]
    exact congrArg List.reverse hbefore
  · rw [List.getLast?_reverse] at hc
    exact hlater c hc

/-- The start of a line goes back to the last line feed. -/
theorem lineStart_reverse_append {earlier left : List Char} (hleft : '\n' ∉ left)
    (hearlier : WholeLines earlier) : lineStart (earlier ++ left).reverse = left := by
  have hrest : lineRest (left.reverse ++ earlier.reverse) = left.reverse := by
    apply lineRest_append
    · rwa [List.mem_reverse]
    · rwa [List.head?_reverse]
  rw [lineRest, ← List.reverse_append] at hrest
  rw [lineStart, hrest, List.reverse_reverse]

/-- The carriage returns at the end of a line are dropped, and nothing else. -/
theorem dropReturns_append {line returns : List Char} (hline : line.getLast? ≠ some '\r')
    (hreturns : ∀ c ∈ returns, c = '\r') :
    ((line ++ returns).reverse.dropWhile (· == '\r')).reverse = line := by
  have hreturns' : ∀ c ∈ returns.reverse, (c == '\r') = true := by
    intro c hc
    rw [beq_iff_eq]
    exact hreturns c (List.mem_reverse.1 hc)
  rw [List.reverse_append, List.dropWhile_append_of_pos hreturns',
    dropWhile_beq_eq_self_iff.2 (by rwa [List.head?_reverse]), List.reverse_reverse]

/-- No carriage return is left at the end. -/
theorem getLast?_lineAround_ne (before after : List Char) :
    (lineAround before after).getLast? ≠ some '\r' := by
  intro h
  have hstop := List.head?_dropWhile_not (· == '\r') (lineStart before ++ lineRest after).reverse
  rw [lineAround, List.getLast?_reverse] at h
  rw [h] at hstop
  simp at hstop

/-! ## The whole line -/

/-- The line around a place is the one that is meant. -/
theorem isLineOf_lineAround (before after : List Char) :
    IsLineOf before after (lineAround before.reverse after) := by
  obtain ⟨earlier, hbefore, hearlier⟩ := exists_append_lineStart before.reverse
  obtain ⟨later, hafter, hlater⟩ := exists_lineRest_append after
  obtain ⟨returns, hline, hreturns⟩ :=
    exists_dropReturns_append (lineStart before.reverse ++ lineRest after)
  rw [List.reverse_reverse] at hbefore
  have hwhole : '\n' ∉ lineStart before.reverse ++ lineRest after := by
    rw [List.mem_append]
    exact not_or_intro (newline_notMem_lineStart _) (newline_notMem_lineRest after)
  refine ⟨fun h => hwhole ?_, getLast?_lineAround_ne _ after, ?_⟩
  · rw [hline]
    exact List.mem_append_left _ h
  · exact ⟨earlier, _, _, later, returns, hbefore, hafter, hline, hreturns, hearlier, hlater⟩

/-- The line around a place is the only line that reaches over it. -/
theorem isLineOf_iff {before after line : List Char} :
    IsLineOf before after line ↔ line = lineAround before.reverse after := by
  constructor
  · rintro ⟨hfeed, hreturn, earlier, left, right, later, returns, rfl, rfl, hline, hreturns,
      hearlier, hlater⟩
    have hwhole : '\n' ∉ left ++ right := by
      rw [hline, List.mem_append]
      rintro (h | h)
      · exact hfeed h
      · cases hreturns _ h
    obtain ⟨hleft, hright⟩ := not_or.1 (mt List.mem_append.2 hwhole)
    rw [lineAround, lineStart_reverse_append hleft hearlier, lineRest_append hright hlater, hline,
      dropReturns_append hreturn hreturns]
  · rintro rfl
    exact isLineOf_lineAround before after

end ProofHarness.Text
