import ProofHarness.Proofs.Report.Paragraph

/-!
# The last verdict

The verdict of a run is that of the last line that announces one, so that of two texts one after
the other the second has the word if it holds such a line (`lastVerdict_append_newline`).
-/

set_option autoImplicit false

namespace ProofHarness.Report

open Text

/-- The verdict of the last line that announces one. -/
def lastVerdict (s : List Char) : Option Verdict := (lines s).reverse.findSome? verdict?

/-- The line that announces a verdict. -/
def verdictLine : Verdict → List Char
  | .successful => "VERIFICATION:- SUCCESSFUL".toList
  | .failed => "VERIFICATION:- FAILED".toList

/-- No line of a text announces a verdict. -/
def VerdictFree (s : List Char) : Prop := ∀ l ∈ lines s, verdict? l = none

instance (s : List Char) : Decidable (VerdictFree s) :=
  inferInstanceAs (Decidable (∀ l ∈ lines s, verdict? l = none))

/-- There is no last verdict exactly if no line is one. -/
theorem lastVerdict_eq_none_iff {s : List Char} : lastVerdict s = none ↔ VerdictFree s := by
  rw [lastVerdict, VerdictFree, List.findSome?_eq_none_iff]
  simp only [List.mem_reverse]

/-- The blanks around a line do not matter to its verdict. -/
theorem verdict?_congr {l m : List Char} (h : trim l = trim m) : verdict? l = verdict? m := by
  rw [verdict?, verdict?, h]

/-- Line ends do not matter to verdicts. -/
theorem lastVerdict_plainLines (s : List Char) : lastVerdict (plainLines s) = lastVerdict s := by
  have htrim : ∀ t, lastVerdict t = ((lines t).map trim).reverse.findSome? verdict? := by
    intro t
    rw [← List.map_reverse, List.findSome?_map, lastVerdict]
    congr 1
    funext l
    exact verdict?_congr (trim_trim l).symm
  rw [htrim, htrim, map_trim_lines_plainLines]

/-- The verdict of one line. -/
theorem lastVerdict_of_not_mem {l : List Char} (hl : '\n' ∉ l) : lastVerdict l = verdict? l := by
  rw [lastVerdict, lines, linesFrom_of_not_mem hl]
  cases l with
  | nil => rfl
  | cons c l => simp

/-- What comes later counts before the first line. -/
theorem lastVerdict_line {l : List Char} (hl : '\n' ∉ l) (s : List Char) :
    lastVerdict (l ++ '\n' :: s) = (lastVerdict s).or (verdict? l) := by
  rw [lastVerdict, lines_append_newline hl, List.reverse_cons, List.findSome?_append,
    List.findSome?_singleton, verdict?_congr (trim_dropReturn l), lastVerdict]

/-- What comes later counts before what comes earlier. -/
theorem lastVerdict_append_newline (a b : List Char) :
    lastVerdict (a ++ '\n' :: b) = (lastVerdict b).or (lastVerdict a) := by
  induction a using lineInduction with
  | last l hl => rw [lastVerdict_line hl, lastVerdict_of_not_mem hl]
  | line l s hl ih =>
    rw [List.append_assoc, List.cons_append, lastVerdict_line hl, ih, lastVerdict_line hl,
      Option.or_assoc]

/-- An empty line is no verdict. -/
theorem lastVerdict_newline (s : List Char) : lastVerdict ('\n' :: s) = lastVerdict s := by
  have h := lastVerdict_append_newline [] s
  rwa [show lastVerdict [] = none from rfl, Option.or_none] at h

/-- A text that is empty or ends its last line is read apart from what follows it. -/
theorem lastVerdict_append_of_ended {a : List Char} (ha : a = [] ∨ a.getLast? = some '\n')
    (b : List Char) : lastVerdict (a ++ b) = (lastVerdict b).or (lastVerdict a) := by
  rcases ha with rfl | ha
  · exact (Option.or_none).symm
  · obtain ⟨r, rfl⟩ := List.getLast?_eq_some_iff.1 ha
    have hr : lastVerdict (r ++ ['\n']) = lastVerdict r := by
      rw [lastVerdict_append_newline]
      rfl
    rw [hr, List.append_assoc, List.singleton_append, lastVerdict_append_newline]

/-- A text that is empty or begins with the end of a line is read apart from what comes before
it. -/
theorem lastVerdict_append_of_head {b : List Char} (hb : b = [] ∨ b.head? = some '\n')
    (a : List Char) : lastVerdict (a ++ b) = (lastVerdict b).or (lastVerdict a) := by
  rcases hb with rfl | hb
  · rw [List.append_nil]
    rfl
  · obtain ⟨r, rfl⟩ := List.head?_eq_some_iff.1 hb
    rw [lastVerdict_append_newline, lastVerdict_newline]

/-- The line of a verdict is read as the verdict. -/
theorem lastVerdict_verdictLine (v : Verdict) : lastVerdict (verdictLine v) = some v := by
  cases v <;> decide

end ProofHarness.Report
