import ProofHarness.Proofs.Report.Block
import ProofHarness.Proofs.Text.Blank

/-!
# Printed descriptions

The verifier prints a description between quotes.  Reading takes off those quotes, and with them all
quotes of the description itself at its ends, so that a description is shown as it was printed just
if it has none there (`exists_shows_iff`).  Whatever else is in it, colons, dashes and quotes
further inside among them, is kept.
-/

set_option autoImplicit false

namespace ProofHarness.Report

open Text

/-- A line that prints a description, with any indentation and dashes. -/
def descriptionLine (indent : Gap) (dashes : Nat) (gap : Gap) (text : String) : List Char :=
  laidOut indent.text dashes
    (gap.text ++ ("Description".toList ++ ':' :: ' ' :: '\x22' :: (text.toList ++ ['\x22'])))

/-- The last description of a block. -/
def Block.Prints (b : Block) (text : String) : Prop :=
  ∃ before indent dashes gap after,
    b.rest = before ++ descriptionLine indent dashes gap text :: after ∧
      ∀ l ∈ after, names "Description".toList l = false

/-- What is left of a printed description. -/
def unquoted (text : String) : String := String.ofList (trimMatches '\x22' text.toList)

/-- Nothing is cut off a text exactly if it neither starts nor ends with a quote. -/
theorem unquoted_eq_self_iff {text : String} : unquoted text = text ↔
    text.toList.head? ≠ some '\x22' ∧ text.toList.getLast? ≠ some '\x22' := by
  rw [← trimMatches_eq_self_iff, unquoted, ← String.toList_inj, String.toList_ofList]

/-- A check among those of a report, with a text as its description wherever that is shown. -/
structure Shows (r : Report) (front back : List Check) (c : Check) (text : String) : Prop where
  checks : r.checks = front ++ c :: back
  description : c.description = text
  message : c.failureMessage =
    "Property - " ++ c.property ++ "\nMessage - " ++ text ++ "\nLocation - " ++ c.location
  /-- If no later check failed, it is the description of the last failed check. -/
  last : c.isFailure = true → (∀ later ∈ back, later.isFailure = false) → r.lastFailure? = some text

/-- A report shows the description of each of its checks as it is. -/
theorem shows_description {r : Report} {front back : List Check} {c : Check}
    (h : r.checks = front ++ c :: back) : Shows r front back c c.description := by
  refine ⟨h, rfl, rfl, fun hfailure hback => ?_⟩
  have hnone : back.filter Check.isFailure = [] := by
    rw [List.filter_eq_nil_iff]
    intro later hlater
    rw [hback later hlater]
    decide
  rw [lastFailure?, failedChecks, h, List.filter_append, List.filter_cons_of_pos hfailure, hnone,
    List.getLast?_concat, Option.map_some]

/-- The value of a description line is the text in quotes. -/
theorem value?_descriptionLine (indent : Gap) (dashes : Nat) (gap : Gap) (text : String) :
    value? "Description".toList (descriptionLine indent dashes gap text) =
      some ('\x22' :: (text.toList ++ ['\x22'])) := by
  have htrim : trim (' ' :: '\x22' :: (text.toList ++ ['\x22'])) =
      '\x22' :: (text.toList ++ ['\x22']) := by
    rw [trim_cons_of_isBlank (by decide)]
    exact trim_cons_append_cons (by decide) (by decide) text.toList []
  rw [descriptionLine, value?_laidOut indent.blank gap.blank (by decide), if_pos rfl, htrim]

/-- The check of a block has what is left of the printed description. -/
theorem exists_checkOf?_of_prints {b : Block} {title : List Char} {text : String}
    (hheader : trim b.header = "Check ".toList ++ title) (hprints : b.Prints text) :
    ∃ c, checkOf? b.header b.rest = some c ∧ c.description = unquoted text := by
  obtain ⟨before, indent, dashes, gap, after, hrest, hafter⟩ := hprints
  have hlast : lastValue? "Description".toList b.rest =
      some ('\x22' :: (text.toList ++ ['\x22'])) := by
    rw [hrest]
    apply lastValue?_append_cons (value?_descriptionLine indent dashes gap text)
    intro l hl
    simpa [names] using hafter l hl
  rw [checkOf?, hheader, stripPrefix_eq_some_iff.2 rfl, hlast]
  refine ⟨_, rfl, ?_⟩
  simp only [Option.map_some, Option.getD_some, trimMatches_cons_append_singleton]
  rfl

/-- From a block that prints a description a check is read that has it, without the quotes at its
ends; it is the description that was printed just if there are none. -/
theorem exists_shows_iff (place : Place) : ∃ front back : List Check,
    ∀ (b : Block) (title : List Char) (text : String), place.Keeps b →
      trim b.header = "Check ".toList ++ title → b.Prints text →
        ∃ c : Check, Shows (ofOutput (place.output b)) front back c (unquoted text) ∧
          (Shows (ofOutput (place.output b)) front back c text ↔
            text.toList.head? ≠ some '\x22' ∧ text.toList.getLast? ≠ some '\x22') := by
  obtain ⟨front, back, hchecks⟩ := place.exists_checks_eq
  refine ⟨front, back, fun b title text hb hheader hprints => ?_⟩
  obtain ⟨c, hc, hdescription⟩ := exists_checkOf?_of_prints hheader hprints
  have hall : (ofOutput (place.output b)).checks = front ++ c :: back := by
    rw [hchecks b hb, hc, Option.toList_some, List.singleton_append]
  have hshows := shows_description hall
  rw [hdescription] at hshows
  refine ⟨c, hshows, ?_⟩
  rw [← unquoted_eq_self_iff]
  constructor
  · exact fun htext => hdescription.symm.trans htext.description
  · intro htext
    rwa [htext] at hshows

/-! ## A block with a description -/

/-- The place of an only check. -/
def onlyPlace : Place where
  before := "RESULTS:\n"
  after := "\nSUMMARY:\n"
  opens := by decide +kernel
  closes := by decide +kernel
  started := by decide +kernel
  notEnded := by decide +kernel

/-- A failed check with a description. -/
def failedBlock (text : String) (h : InParagraph (descriptionLine .space 1 .space text)) : Block :=
  .headed "Check 1: p.1".toList
    [" - Status: FAILURE".toList, descriptionLine .space 1 .space text, " - Location: l".toList]
    (by decide) (List.forall_mem_cons.2 ⟨by decide, List.forall_mem_cons.2
      ⟨by decide, List.forall_mem_cons.2 ⟨h, List.forall_mem_singleton.2 (by decide)⟩⟩⟩)

/-- The block of a failed check prints its description. -/
theorem prints_failedBlock (text : String)
    (h : InParagraph (descriptionLine .space 1 .space text)) :
    (failedBlock text h).Prints text := by
  refine ⟨[" - Status: FAILURE".toList], .space, 1, .space, [" - Location: l".toList], rfl, ?_⟩
  rw [List.forall_mem_singleton]
  decide +kernel

/-- A failed check with quotes in the middle of its description. -/
def comparison : Block := failedBlock "a - \"x\": no" (by decide +kernel)

/-- These quotes are shown. -/
theorem shows_comparison :
    onlyPlace.Keeps comparison ∧ trim comparison.header = "Check ".toList ++ "1: p.1".toList ∧
      comparison.Prints "a - \"x\": no" ∧
      ∃ front back c, Shows (ofOutput (onlyPlace.output comparison)) front back c
        "a - \"x\": no" := by
  have hkeeps : onlyPlace.Keeps comparison := by decide +kernel
  have hheader : trim comparison.header = "Check ".toList ++ "1: p.1".toList := by decide
  have hprints : comparison.Prints "a - \"x\": no" := prints_failedBlock _ _
  obtain ⟨front, back, hread⟩ := exists_shows_iff onlyPlace
  obtain ⟨c, -, hshows⟩ := hread comparison _ _ hkeeps hheader hprints
  exact ⟨hkeeps, hheader, hprints, front, back, c, hshows.2 (by decide)⟩

/-- A failed check whose description ends with a quote. -/
def literalComparison : Block := failedBlock "s == \"abc\"" (by decide +kernel)

/-- A message that ends with a string literal loses its last quote. -/
theorem not_shows_literalComparison :
    onlyPlace.Keeps literalComparison ∧ literalComparison.Prints "s == \"abc\"" ∧
      onlyPlace.output literalComparison =
        "RESULTS:\nCheck 1: p.1\n - Status: FAILURE\n - Description: \"s == \"abc\"\"\n" ++
          " - Location: l\n\nSUMMARY:\n" ∧
      ofOutput (onlyPlace.output literalComparison) =
        ⟨[⟨some 1, "p.1", .failure, "s == \"abc", "l"⟩], none, []⟩ ∧
      ∀ front back c, ¬ Shows (ofOutput (onlyPlace.output literalComparison)) front back c
        "s == \"abc\"" := by
  have hreport : ofOutput (onlyPlace.output literalComparison) =
      ⟨[⟨some 1, "p.1", .failure, "s == \"abc", "l"⟩], none, []⟩ := by decide +kernel
  refine ⟨by decide +kernel, prints_failedBlock _ _, by decide +kernel, hreport, ?_⟩
  rintro front back c ⟨hchecks, hdescription, -, -⟩
  have hc : c ∈ [(⟨some 1, "p.1", .failure, "s == \"abc", "l"⟩ : Check)] := by
    rw [hreport] at hchecks
    simp only at hchecks
    rw [hchecks]
    exact List.mem_append_right _ List.mem_cons_self
  rw [List.mem_singleton] at hc
  rw [hc] at hdescription
  exact absurd hdescription (by decide)

end ProofHarness.Report
