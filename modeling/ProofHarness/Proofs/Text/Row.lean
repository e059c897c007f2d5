import Mathlib.Data.List.TakeWhile
import ProofHarness.Text.Line

/-!
# The line of a row

A place of a text has a line in two ways: the stretch between the line feeds around it, and the
line whose number is the number of line feeds before it.  Without the blanks around them the two
are one (`trim_getElem?_lines`), whatever ends the lines of the text and whether or not there is a
line after the last line feed.  So the line around a place is, but for blanks, the line with that
number in the text (`trimmed_lineAround`).
-/

set_option autoImplicit false

namespace ProofHarness.Text

/-! ## Blanks at the end -/

/-- Blanks at the end of a text are trimmed off. -/
theorem trimEnd_append_blanks {blanks : List Char} (h : ∀ c ∈ blanks, isBlank c = true)
    (s : List Char) : trimEnd (s ++ blanks) = trimEnd s := by
  have hr : ∀ c ∈ blanks.reverse, isBlank c = true := by
    intro c hc
    exact h c (List.mem_reverse.1 hc)
  rw [trimEnd, List.reverse_append, List.dropWhile_append_of_pos hr, trimEnd]

/-- Blanks at the end of a text do not matter to what is left of it. -/
theorem trim_append_blanks {blanks : List Char} (h : ∀ c ∈ blanks, isBlank c = true)
    (s : List Char) : trim (s ++ blanks) = trim s := by
  rw [trim, trim, trimStart, trimStart, List.dropWhile_append]
  split
  · next hs =>
    have hb : blanks.dropWhile isBlank = [] := by
      rw [← List.append_nil blanks, List.dropWhile_append_of_pos h, List.dropWhile_nil]
    rw [hb, List.isEmpty_iff.1 hs]
  · exact trimEnd_append_blanks h _

/-- The carriage return that belongs to the end of a line is trimmed off with the blanks. -/
theorem trim_dropReturn (line : List Char) : trim (dropReturn line) = trim line := by
  unfold dropReturn
  split
  · next h =>
    have hline : line = line.dropLast ++ ['\r'] := by
      have hne : line ≠ [] := by
        rintro rfl
        simp at h
      rw [List.getLast?_eq_some_getLast hne, Option.some.injEq] at h
      rw [← h, List.dropLast_concat_getLast hne]
    have hblank : ∀ c ∈ ['\r'], isBlank c = true := by
      intro c hc
      rw [List.mem_singleton.1 hc]
      exact isBlank_return
    calc trim line.dropLast = trim (line.dropLast ++ ['\r']) := (trim_append_blanks hblank _).symm
      _ = trim line := by rw [← hline]
  · rfl

/-- What is dropped from the end of a line are carriage returns. -/
theorem exists_dropReturns_append (line : List Char) :
    ∃ returns, line = (line.reverse.dropWhile (· == '\r')).reverse ++ returns ∧
      ∀ c ∈ returns, c = '\r' := by
  refine ⟨(line.reverse.takeWhile (· == '\r')).reverse, ?_, fun c hc => ?_⟩
  · rw [← List.reverse_append, List.takeWhile_append_dropWhile, List.reverse_reverse]
  · have hreturn := List.mem_takeWhile_imp (List.mem_reverse.1 hc)
    exact eq_of_beq hreturn

/-- So are all carriage returns at the end of a line. -/
theorem trim_dropReturns (line : List Char) :
    trim ((line.reverse.dropWhile (· == '\r')).reverse) = trim line := by
  obtain ⟨returns, hline, hreturns⟩ := exists_dropReturns_append line
  have hblank : ∀ c ∈ returns, isBlank c = true := by
    intro c hc
    rw [hreturns c hc]
    exact isBlank_return
  rw [← trim_append_blanks hblank, ← hline]

/-! ## The line around a place -/

/-- The line around a place, without the blanks around it, is what stands before and after the
place on it. -/
theorem trim_lineAround (before after : List Char) :
    trim (lineAround before after) = trim (lineStart before ++ lineRest after) := by
  rw [lineAround, trim_dropReturns]

/-- What stands before a line feed does not belong to the line after it. -/
theorem lineStart_append_newline (before earlier : List Char) :
    lineStart (before ++ '\n' :: earlier) = lineStart before := by
  unfold lineStart
  induction before with
  | nil => simp
  | cons c cs ih =>
    by_cases h : c = '\n'
    · simp [h]
    · simpa [h] using ih

/-- All that was read of a line stands on it. -/
theorem lineStart_of_not_mem {started : List Char} (h : '\n' ∉ started) :
    lineStart started = started.reverse := by
  unfold lineStart
  rw [List.takeWhile_eq_self_iff.2]
  intro c hc
  have : c ≠ '\n' := by
    rintro rfl
    exact h hc
  simpa using this

/-! ## The line with the number of a row -/

/-- The first of the lines from the start of a line on. -/
theorem trim_head_linesFrom {started : List Char} (hs : '\n' ∉ started) (after : List Char) :
    ((linesFrom started after)[0]?.map trim).getD [] =
      trim (started.reverse ++ lineRest after) := by
  induction after generalizing started with
  | nil =>
    cases started with
    | nil => rfl
    | cons c cs => simp [linesFrom, lineRest]
  | cons c cs ih =>
    by_cases hc : c = '\n'
    · subst hc
      simp [linesFrom, lineRest, trim_dropReturn]
    · have hs' : '\n' ∉ c :: started := by
        simp [hs, Ne.symm hc]
      have hstep := ih hs'
      simpa [linesFrom, lineRest, hc] using hstep

/-- The line that is reached after some text, of the lines from the start of a line on. -/
theorem trim_getElem?_linesFrom {started : List Char} (hs : '\n' ∉ started)
    (s after : List Char) :
    ((linesFrom started (s ++ after))[s.count '\n']?.map trim).getD [] =
      trim (lineStart (s.reverse ++ started) ++ lineRest after) := by
  induction s generalizing started with
  | nil =>
    have hhead := trim_head_linesFrom hs after
    simpa [lineStart_of_not_mem hs] using hhead
  | cons c cs ih =>
    by_cases hc : c = '\n'
    · subst hc
      have hstep := ih List.not_mem_nil
      have hline := lineStart_append_newline cs.reverse started
      simpa [linesFrom, hline] using hstep
    · have hs' : '\n' ∉ c :: started := by
        simp [hs, Ne.symm hc]
      have hstep := ih hs'
      simpa [linesFrom, hc] using hstep

/-- The line that has the number of line feeds before a place as its number is, but for blanks, the
line around the place; where there is no such line the place stands alone on its line. -/
theorem trim_getElem?_lines (before after : List Char) :
    ((lines (before.reverse ++ after))[before.count '\n']?.map trim).getD [] =
      trim (lineAround before after) := by
  have hrow := trim_getElem?_linesFrom List.not_mem_nil before.reverse after
  rw [trim_lineAround, lines]
  simpa using hrow

/-- The line with a number in a text, without the blanks around it; empty if there are not so many
lines. -/
def lineNumbered (text : String) (row : Nat) : String :=
  match (lines text.toList)[row]? with
  | some line => String.ofList (trim line)
  | none => ""

/-- The line around a place of a text is the line with the number of its row. -/
theorem trimmed_lineAround {text : String} {before after : List Char}
    (h : text.toList = before.reverse ++ after) :
    trimmed (String.ofList (lineAround before after)) = lineNumbered text (before.count '\n') := by
  have hrow := trim_getElem?_lines before after
  rw [← h] at hrow
  rw [trimmed, String.toList_ofList, ← hrow, lineNumbered]
  cases (lines text.toList)[before.count '\n']? with
  | none => rfl
  | some line => rfl

/-- After the last line feed of a text there is no line, and the line around that place is empty. -/
example : lineAround "\na".toList [] = [] ∧ lineNumbered "a\n" 1 = "" := by decide

end ProofHarness.Text
