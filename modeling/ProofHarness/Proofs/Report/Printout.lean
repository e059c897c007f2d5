import ProofHarness.Proofs.Report.Entry
import ProofHarness.Proofs.Report.Verdict
import ProofHarness.Proofs.Text.Join

/-!
# Printouts

What the verifier prints of one harness: a preamble, the checks under a results header, a summary,
and a verdict.  Checks are looked for in the paragraphs from the results header to the summary
header (`resultParagraphs_append`), provided that neither header word stands in the preamble or in a
field. If there is no check, the results header ends the last paragraph of the preamble, and a check
is read from that paragraph if it begins like one (`Printout.stray?`).
-/

set_option autoImplicit false

namespace ProofHarness.Report

open Text

/-- The lines of a text, each with its end. -/
def unlines (ls : List (List Char)) : List Char := ls.flatMap (· ++ ['\n'])

/-- What is printed of one harness. -/
structure Printout where
  preamble : String
  entries : List Entry
  /-- What follows the header of the summary in its section. -/
  summary : String
  verdict : Option Verdict
  /-- What follows the summary, or the verdict if there is one. -/
  rest : String
  deriving DecidableEq, Repr

namespace Printout

/-- The checks under the results header, with a blank line between two of them. -/
def body (p : Printout) : List Char := join ['\n'] (p.entries.map fun e => unlines e.lines)

/-- The printout up to the header of the summary, in front of which stands a blank line. -/
def upToSummary (p : Printout) : List Char :=
  p.preamble.toList ++ ("RESULTS:".toList ++ '\n' :: (p.body ++ '\n' :: "SUMMARY:".toList))

/-- The printout after the header of the summary; a blank line stands in front of the verdict. -/
def afterSummary (p : Printout) : List Char :=
  match p.verdict with
  | none => p.summary.toList ++ p.rest.toList
  | some v => p.summary.toList ++ '\n' :: '\n' :: (verdictLine v ++ p.rest.toList)

/-- The whole printout. -/
def text (p : Printout) : List Char := p.upToSummary ++ p.afterSummary

/-- The check that is read from the paragraph that the results header would end if no check
followed it. -/
def stray? (p : Printout) : Option Check :=
  check? (afterHeader
    ((paragraphs (plainLines (p.preamble.toList ++ "RESULTS:".toList))).getLast?.getD []))

end Printout

/-- A text holds neither header word. -/
def HeaderFree (s : List Char) : Prop := isResults s = false ∧ isSummary s = false

instance (s : List Char) : Decidable (HeaderFree s) :=
  inferInstanceAs (Decidable (isResults s = false ∧ isSummary s = false))

/-- The header words stand in no field of a check. -/
@[mk_iff] structure Entry.IsPlain (e : Entry) : Prop where
  property : HeaderFree e.property.toList
  status : HeaderFree e.status.toList
  description : HeaderFree e.description.toList
  location : HeaderFree e.location.toList

instance (e : Entry) : Decidable e.IsPlain := decidable_of_iff' _ (Entry.isPlain_iff e)

namespace Printout

/-- The parts of a printout are lines of their own, and only the verdict announces a verdict. -/
@[mk_iff] structure Framed (p : Printout) : Prop where
  preamble : p.preamble.toList = [] ∨ p.preamble.toList.getLast? = some '\n'
  entries : ∀ e ∈ p.entries, e.OneLine
  rest : p.rest.toList = [] ∨ p.rest.toList.head? = some '\n'
  beforeResults : VerdictFree p.preamble.toList
  inSummary : VerdictFree ("SUMMARY:".toList ++ p.summary.toList)
  afterVerdict : VerdictFree p.rest.toList

instance (p : Printout) : Decidable p.Framed := decidable_of_iff' _ (framed_iff p)

/-- The header words stand in the headers only. -/
@[mk_iff] structure IsPlain (p : Printout) : Prop where
  preamble : HeaderFree p.preamble.toList
  entries : ∀ e ∈ p.entries, e.IsPlain

instance (p : Printout) : Decidable p.IsPlain := decidable_of_iff' _ (isPlain_iff p)

end Printout

/-! ## Header words -/

/-- Header words do not reach over a character that they do not have. -/
theorem headerFree_append_cons {a b : List Char} {c : Char} (hr : c ∉ "RESULTS".toList)
    (hs : c ∉ "SUMMARY".toList) : HeaderFree (a ++ c :: b) ↔ HeaderFree a ∧ HeaderFree b := by
  rw [HeaderFree, HeaderFree, HeaderFree, isResults, isSummary, contains_append_cons hr,
    contains_append_cons hs]
  simp only [isResults, isSummary, Bool.or_eq_false_iff]
  exact and_and_and_comm

/-- The word of the summary does not reach over a line feed. -/
theorem isSummary_append_newline (a b : List Char) :
    isSummary (a ++ '\n' :: b) = (isSummary a || isSummary b) :=
  contains_append_cons (by decide)

/-- Part of a text without header words has none. -/
theorem headerFree_of_isInfix {a b : List Char} (hab : a <:+: b) (h : HeaderFree b) :
    HeaderFree a :=
  ⟨contains_eq_false_of_isInfix hab h.1, contains_eq_false_of_isInfix hab h.2⟩

/-- Lines without header words make a text without them. -/
theorem headerFree_join {pieces : List (List Char)} (h : ∀ s ∈ pieces, HeaderFree s) :
    HeaderFree (join ['\n'] pieces) :=
  ⟨contains_join_eq_false (by decide) (by decide) fun s hs => (h s hs).1,
    contains_join_eq_false (by decide) (by decide) fun s hs => (h s hs).2⟩

/-- Plain line ends bring in no header words. -/
theorem headerFree_plainLines {s : List Char} (h : HeaderFree s) : HeaderFree (plainLines s) :=
  ⟨contains_plainLines_eq_false (by decide) h.1, contains_plainLines_eq_false (by decide) h.2⟩

/-- The lines of a check hold no header words if its fields do not. -/
theorem Entry.headerFree_lines {e : Entry} (he : e.IsPlain) : ∀ l ∈ e.lines, HeaderFree l := by
  have hnumeral : HeaderFree (numeral e.number).toList := by
    have hS : 'S' ∉ (numeral e.number).toList := by
      intro hc
      exact absurd (isDigit_of_mem_numeral hc) (by decide)
    exact ⟨contains_eq_false_of_not_mem (by decide) hS, contains_eq_false_of_not_mem (by decide) hS⟩
  -- The words of headers have neither blanks nor colons, which stand between the parts.
  have hfield : ∀ name value : List Char, HeaderFree name → HeaderFree value →
      HeaderFree (fieldLine name value) := by
    intro name value hname hvalue
    have hline : fieldLine name value =
        "\t -".toList ++ ' ' :: (name ++ ':' :: ([] ++ ' ' :: value)) :=
      rfl
    rw [hline]
    simp only [headerFree_append_cons (c := ' ') (by decide) (by decide),
      headerFree_append_cons (c := ':') (by decide) (by decide)]
    exact ⟨by decide, hname, by decide, hvalue⟩
  have hquoted : ∀ s : List Char, HeaderFree s → HeaderFree ('\x22' :: (s ++ ['\x22'])) := by
    intro s hs
    have hsides : HeaderFree ([] ++ '\x22' :: (s ++ '\x22' :: [])) := by
      rw [headerFree_append_cons (by decide) (by decide),
        headerFree_append_cons (by decide) (by decide)]
      exact ⟨by decide, hs, by decide⟩
    exact hsides
  have hheader : ∀ number property : List Char, HeaderFree number → HeaderFree property →
      HeaderFree ("Check ".toList ++ number ++ ": ".toList ++ property) := by
    intro number property hnumber hproperty
    have hline : "Check ".toList ++ number ++ ": ".toList ++ property =
        "Check".toList ++ ' ' :: (number ++ ':' :: ([] ++ ' ' :: property)) := by simp
    rw [hline]
    simp only [headerFree_append_cons (c := ' ') (by decide) (by decide),
      headerFree_append_cons (c := ':') (by decide) (by decide)]
    exact ⟨by decide, hnumber, by decide, hproperty⟩
  rw [lines_eq, fieldLines]
  simp only [List.forall_mem_cons]
  exact ⟨hheader _ _ hnumeral he.property, hfield _ _ (by decide) he.status,
    hfield _ _ (by decide) (hquoted _ he.description), hfield _ _ (by decide) he.location, by simp⟩

/-! ## Composed texts -/

/-- The first line comes first. -/
theorem unlines_cons (l : List Char) (ls : List (List Char)) :
    unlines (l :: ls) = l ++ '\n' :: unlines ls := by
  rw [unlines, List.flatMap_cons, List.append_assoc, List.singleton_append, unlines]

/-- Lines are given plain ends one by one. -/
theorem plainLines_unlines_append {ls : List (List Char)} (h : ∀ l ∈ ls, '\n' ∉ l)
    (s : List Char) :
    plainLines (unlines ls ++ s) = unlines (ls.map dropReturn) ++ plainLines s := by
  induction ls with
  | nil => rfl
  | cons l ls ih =>
    obtain ⟨hl, hls⟩ := List.forall_mem_cons.1 h
    rw [List.map_cons, unlines_cons, unlines_cons, List.append_assoc, List.cons_append,
      plainLines_append_newline hl, ih hls, List.append_assoc, List.cons_append]

/-- Lines with their ends are lines with line feeds between them, and one at the end. -/
theorem unlines_eq_join {ls : List (List Char)} (h : ls ≠ []) :
    unlines ls = join ['\n'] ls ++ ['\n'] :=
  flatMap_append_eq_join h ['\n']

/-- Filled lines do not begin with a blank one. -/
theorem head?_join_append_ne {ls : List (List Char)} (hne : ls ≠ []) (hnewline : ∀ l ∈ ls, '\n' ∉ l)
    (hfilled : ∀ l ∈ ls, l ≠ []) (s : List Char) : (join ['\n'] ls ++ s).head? ≠ some '\n' := by
  cases ls with
  | nil => exact absurd rfl hne
  | cons l ls =>
    have hl := hnewline l List.mem_cons_self
    have hfilled := hfilled l List.mem_cons_self
    cases l with
    | nil => exact absurd rfl hfilled
    | cons c cs =>
      have hc : c ≠ '\n' := (List.ne_and_not_mem_of_not_mem_cons hl).1.symm
      cases ls <;> simpa [join] using hc

/-- Filled lines are one paragraph, which a blank line ends. -/
theorem paragraphs_join {ls : List (List Char)} (hnewline : ∀ l ∈ ls, '\n' ∉ l)
    (hfilled : ∀ l ∈ ls, l ≠ []) (s : List Char) :
    paragraphs (join ['\n'] ls ++ '\n' :: '\n' :: s) = join ['\n'] ls :: paragraphs s := by
  induction ls with
  | nil => exact paragraphs_newline_newline s
  | cons l ls ih =>
    obtain ⟨hl, hls⟩ := List.forall_mem_cons.1 hnewline
    obtain ⟨-, hfilled⟩ := List.forall_mem_cons.1 hfilled
    cases ls with
    | nil =>
      rw [join, paragraphs_append_of_not_mem hl (paragraphs_newline_newline s), List.append_nil]
    | cons m ms =>
      -- The line end after `l` is a single one, because `m` is filled.
      have hm : (join ['\n'] (m :: ms) ++ '\n' :: '\n' :: s).head? ≠ some '\n' :=
        head?_join_append_ne (List.cons_ne_nil m ms) hls hfilled _
      have hrest : paragraphs ('\n' :: (join ['\n'] (m :: ms) ++ '\n' :: '\n' :: s)) =
          ('\n' :: join ['\n'] (m :: ms)) :: paragraphs s := by
        rw [paragraphs_cons fun _ => hm, ih hls hfilled]
        rfl
      rw [join, List.append_assoc, List.append_assoc, List.singleton_append,
        paragraphs_append_of_not_mem hl hrest, List.append_assoc, List.singleton_append]

/-- What is left of the paragraphs from the first one with the results header on. -/
theorem resultParagraphs_append_cons {earlier rest : List (List Char)} {x : List Char}
    (hearlier : ∀ q ∈ earlier, isResults q = false) (hx : isResults x = true) :
    resultParagraphs (earlier ++ x :: rest) =
      if earlier.any isSummary then x :: rest else (x :: rest).takeWhile fun q => !isSummary q := by
  have hpos : ∀ q ∈ earlier, (!isResults q) = true := by
    intro q hq
    rw [hearlier q hq]
    rfl
  have htake : (earlier ++ x :: rest).takeWhile (fun q => !isResults q) = earlier := by
    rw [List.takeWhile_append_of_pos hpos]
    simp [hx]
  have hdrop : (earlier ++ x :: rest).dropWhile (fun q => !isResults q) = x :: rest := by
    rw [List.dropWhile_append_of_pos hpos]
    simp [hx]
  rw [resultParagraphs, htake, hdrop]

/-- The paragraphs from the one that holds the results header up to the first that holds a summary
header. -/
theorem resultParagraphs_append {earlier mids more : List (List Char)} {x s : List Char}
    (hearlier : ∀ q ∈ earlier, HeaderFree q) (hx : isResults x = true) (hxs : isSummary x = false)
    (hmids : ∀ q ∈ mids, HeaderFree q) (hs : isSummary s = true) :
    resultParagraphs (earlier ++ x :: (mids ++ s :: more)) = x :: mids := by
  have hnone : earlier.any isSummary = false := by
    rw [List.any_eq_false]
    intro q hq
    rw [(hearlier q hq).2]
    decide
  rw [resultParagraphs_append_cons (fun q hq => (hearlier q hq).1) hx, hnone, if_neg (by decide),
    List.takeWhile_cons_of_pos (by simp [hxs]),
    List.takeWhile_append_of_pos (by intro q hq; rw [(hmids q hq).2]; rfl)]
  simp [hs]

end ProofHarness.Report
