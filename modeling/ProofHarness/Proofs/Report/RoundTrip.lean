import ProofHarness.Proofs.Report.Printout

/-!
# Reading a printout back

The report of a printout is the one it was made from (`ofOutput_printout_iff`), with one exception:
when no check is printed, the results header ends the last paragraph of the preamble, and a check
is read from that paragraph if it begins like one.

* One check is read from each paragraph between the two headers (`checksOf_upToSummary`); what comes
  after the summary header does not matter.
* The verdict is that of the last verdict line (`lastVerdict_text`).
-/

set_option autoImplicit false

namespace ProofHarness.Report

open Text

/-- The checks of an output. -/
def checksOf (s : List Char) : List Check :=
  (resultParagraphs (paragraphs (plainLines s))).filterMap fun q => check? (afterHeader q)

/-- A report is made of the checks of an output and its last verdict. -/
theorem ofOutput_ofList (s : List Char) :
    ofOutput (String.ofList s) = ofChecks (checksOf s) (lastVerdict s) := by
  rw [← lastVerdict_plainLines, checksOf, paragraphs, lastVerdict, ofOutput, String.toList_ofList]

/-! ## Header words in paragraphs -/

/-- A plain entry has no header words. -/
theorem Entry.headerFree_paragraph {e : Entry} (he : e.IsPlain) : HeaderFree e.paragraph := by
  apply headerFree_join
  intro l hl
  obtain ⟨m, hm, rfl⟩ := List.mem_map.1 hl
  exact headerFree_of_isInfix (dropReturn_isPrefix m).isInfix (e.headerFree_lines he m hm)

/-- Without a results header all of the text counts. -/
theorem afterHeader_of_contains_eq_false {s : List Char}
    (h : contains "RESULTS:\n".toList s = false) : afterHeader s = s := by
  rw [contains, Option.isSome_eq_false_iff, Option.isNone_iff_eq_none] at h
  rw [afterHeader, h]

/-- So it does without header words. -/
theorem afterHeader_of_headerFree {q : List Char} (hq : HeaderFree q) : afterHeader q = q := by
  have hnone : contains ("RESULTS".toList ++ ":\n".toList) q = false :=
    contains_eq_false_append hq.1
  exact afterHeader_of_contains_eq_false hnone

/-- What stands in front of the results header is cut off with it. -/
theorem afterHeader_append_of_contains_eq_false {q : List Char}
    (hq : contains "RESULTS:\n".toList q = false) (s : List Char) :
    afterHeader (q ++ ("RESULTS:\n".toList ++ s)) = s := by
  have hsplit : splitOnce "RESULTS:\n".toList (q ++ ("RESULTS:\n".toList ++ s)) = some (q, s) :=
    splitOnce_append_of_unbordered (by decide) hq
  rw [afterHeader, hsplit]

/-- What comes after a results header counts, if no header word comes before it. -/
theorem afterHeader_append {q : List Char} (hq : HeaderFree q) (s : List Char) :
    afterHeader (q ++ ("RESULTS:".toList ++ '\n' :: s)) = s := by
  have hnone : contains ("RESULTS".toList ++ ":\n".toList) q = false :=
    contains_eq_false_append hq.1
  exact afterHeader_append_of_contains_eq_false hnone s

namespace Printout

variable {p : Printout}

/-! ## The paragraphs of a printout -/

/-- The first paragraph from the results header on, line by line. -/
def firstLines (p : Printout) : List (List Char) :=
  "RESULTS:".toList :: (p.entries.head?.map Entry.lines).getD []

/-- A blank line comes after each check, also after the last one, and after the header if there
is no check. -/
theorem results_append (p : Printout) (s : List Char) :
    "RESULTS:".toList ++ '\n' :: (p.body ++ '\n' :: s) =
      unlines p.firstLines ++
        '\n' :: (unlines (p.entries.tail.map fun e => unlines e.lines) ++ s) := by
  rw [firstLines, unlines_cons, List.append_assoc, List.cons_append]
  cases h : p.entries with
  | nil => rw [body, h]; rfl
  | cons e es =>
    have hpieces : p.body ++ ['\n'] = unlines ((e :: es).map fun e => unlines e.lines) := by
      rw [body, h, unlines_eq_join]
      exact List.cons_ne_nil _ _
    have hbody : p.body ++ '\n' :: s =
        unlines e.lines ++ '\n' :: (unlines (es.map fun e => unlines e.lines) ++ s) := by
      rw [← List.singleton_append, ← List.append_assoc, hpieces, List.map_cons, unlines_cons,
        List.append_assoc, List.cons_append]
    rw [hbody]
    rfl

/-- The lines of the first paragraph are lines. -/
theorem newline_not_mem_firstLines (hp : p.Framed) : ∀ l ∈ p.firstLines, '\n' ∉ l := by
  rw [firstLines, List.forall_mem_cons]
  refine ⟨by decide, ?_⟩
  have hentries := hp.entries
  cases h : p.entries with
  | nil => simp
  | cons e es =>
    exact Entry.newline_not_mem_lines (hentries e (by simp [h]))

/-- Each check with a blank line after it is a paragraph. -/
theorem paragraphs_blocks {entries : List Entry} (h : ∀ e ∈ entries, e.OneLine) (s : List Char) :
    paragraphs (plainLines (unlines (entries.map fun e => unlines e.lines) ++ s)) =
      entries.map Entry.paragraph ++ paragraphs (plainLines s) := by
  induction entries with
  | nil => rfl
  | cons e es ih =>
    obtain ⟨he, hes⟩ := List.forall_mem_cons.1 h
    have hblock : unlines (e.lines.map dropReturn) = e.paragraph ++ ['\n'] :=
      unlines_eq_join (List.cons_ne_nil _ _)
    rw [List.map_cons, unlines_cons, List.append_assoc, List.cons_append,
      plainLines_unlines_append (Entry.newline_not_mem_lines he), plainLines_newline, hblock,
      List.append_assoc, List.singleton_append, Entry.paragraph,
      paragraphs_join (Entry.newline_not_mem_map_dropReturn he) Entry.ne_nil_of_mem_map_dropReturn,
      ih hes, List.map_cons, List.cons_append, Entry.paragraph]

/-- The paragraph that holds the results header. -/
def firstParagraph (p : Printout) : List Char := join ['\n'] (p.firstLines.map dropReturn)

/-- Without entries the first paragraph is the results header. -/
theorem firstParagraph_of_nil (h : p.entries = []) : p.firstParagraph = "RESULTS:".toList := by
  rw [firstParagraph, firstLines, h]
  rfl

/-- With entries it is the header with the first entry. -/
theorem firstParagraph_of_cons {e : Entry} {es : List Entry} (h : p.entries = e :: es) :
    p.firstParagraph = "RESULTS:".toList ++ '\n' :: e.paragraph := by
  have hheader : dropReturn "RESULTS:".toList = "RESULTS:".toList := by decide
  have hne : e.lines.map dropReturn ≠ [] := List.cons_ne_nil _ _
  rw [firstParagraph, firstLines, h, List.head?_cons, Option.map_some, Option.getD_some,
    List.map_cons, join_cons_of_ne_nil hne, hheader, List.append_assoc, List.singleton_append,
    Entry.paragraph]

/-- The paragraphs from the results header up to the summary header. -/
theorem paragraphs_results (hp : p.Framed) (s : List Char) :
    paragraphs (plainLines ("RESULTS:".toList ++ '\n' :: (p.body ++ '\n' :: s))) =
      p.firstParagraph :: (p.entries.tail.map Entry.paragraph ++ paragraphs (plainLines s)) := by
  have hne : p.firstLines.map dropReturn ≠ [] := List.cons_ne_nil _ _
  have hnewline : ∀ l ∈ p.firstLines.map dropReturn, '\n' ∉ l :=
    not_mem_map_dropReturn (newline_not_mem_firstLines hp)
  have hfilled : ∀ l ∈ p.firstLines.map dropReturn, l ≠ [] := by
    rw [firstLines, List.map_cons, List.forall_mem_cons]
    refine ⟨by decide, ?_⟩
    cases p.entries with
    | nil => simp
    | cons e es => exact Entry.ne_nil_of_mem_map_dropReturn
  have htail : ∀ e ∈ p.entries.tail, e.OneLine := fun e he =>
    hp.entries e (List.mem_of_mem_tail he)
  rw [results_append, plainLines_unlines_append (newline_not_mem_firstLines hp), plainLines_newline,
    unlines_eq_join hne, List.append_assoc, List.singleton_append,
    paragraphs_join hnewline hfilled, paragraphs_blocks htail, firstParagraph]

/-- The preamble ends in a last paragraph, with which the results header goes on. -/
theorem exists_paragraphs_preamble (hp : p.Framed) (hplain : p.IsPlain) :
    ∃ earlier last, (∀ q ∈ earlier, HeaderFree q) ∧ HeaderFree last ∧
      (last = [] ∨ last.getLast? = some '\n') ∧
      ∀ s first later, (plainLines s).head? ≠ some '\n' →
        paragraphs (plainLines s) = first :: later →
        paragraphs (plainLines (p.preamble.toList ++ s)) = earlier ++ (last ++ first) :: later := by
  have hcut : p.preamble.toList.getLast? ≠ some '\r' := by
    rcases hp.preamble with h | h <;> rw [h] <;> decide
  have hended : plainLines p.preamble.toList = [] ∨
      (plainLines p.preamble.toList).getLast? = some '\n' := by
    rcases hp.preamble with h | h
    · exact .inl (by rw [h]; rfl)
    · exact .inr (getLast?_plainLines h)
  have hfree : HeaderFree (plainLines p.preamble.toList) := headerFree_plainLines hplain.preamble
  obtain ⟨earlier, last, -, hjoin, hgo⟩ :=
    exists_paragraphs_eq_append (plainLines p.preamble.toList)
  rw [hjoin] at hended hfree
  refine ⟨earlier, last, ?_, ?_, ?_, ?_⟩
  · intro q hq
    -- A paragraph is a stretch of the preamble, and no stretch of it holds a header.
    have hpart : q <:+: earlier.flatMap (· ++ ['\n', '\n']) :=
      (List.prefix_append q _).isInfix.trans (List.infix_of_mem_flatten (List.mem_map_of_mem hq))
    exact headerFree_of_isInfix (hpart.trans (List.prefix_append _ last).isInfix) hfree
  · exact headerFree_of_isInfix (List.suffix_append _ last).isInfix hfree
  · cases hlast : last.getLast? with
    | none => exact .inl (List.getLast?_eq_none_iff.1 hlast)
    | some c =>
      rw [List.getLast?_append, hlast] at hended
      rcases hended with h | h
      · rw [(List.append_eq_nil_iff.1 h).2] at hlast
        cases hlast
      · exact .inr h
  · intro s first later hhead hs
    rw [plainLines_append hcut]
    exact hgo (plainLines s) first later hhead hs

/-! ## The checks of a printout -/

/-- The first paragraph announces the checks. -/
theorem isResults_append_firstParagraph (q : List Char) :
    isResults (q ++ p.firstParagraph) = true := by
  have hpart : "RESULTS".toList <:+: p.firstParagraph := by
    cases h : p.entries with
    | nil =>
      rw [firstParagraph_of_nil h]
      exact ⟨[], ":".toList, by decide⟩
    | cons e es =>
      rw [firstParagraph_of_cons h]
      exact ⟨[], ':' :: '\n' :: e.paragraph, by simp⟩
  obtain ⟨a, b, hab⟩ := hpart.trans (List.suffix_append q _).isInfix
  exact contains_iff.2 ⟨a, b, hab.symm⟩

/-- It does not announce the summary. -/
theorem isSummary_append_firstParagraph (hplain : p.IsPlain) {q : List Char} (hq : HeaderFree q)
    (hended : q = [] ∨ q.getLast? = some '\n') : isSummary (q ++ p.firstParagraph) = false := by
  have hfirst : isSummary p.firstParagraph = false := by
    cases h : p.entries with
    | nil =>
      rw [firstParagraph_of_nil h]
      decide
    | cons e es =>
      have he : HeaderFree e.paragraph :=
        Entry.headerFree_paragraph (hplain.entries e (by simp [h]))
      rw [firstParagraph_of_cons h, isSummary_append_newline, he.2]
      decide
  rcases hended with rfl | hended
  · exact hfirst
  · obtain ⟨r, rfl⟩ := List.getLast?_eq_some_iff.1 hended
    have hr : isSummary r = false :=
      contains_eq_false_of_isInfix (List.prefix_append r _).isInfix hq.2
    rw [List.append_assoc, List.singleton_append, isSummary_append_newline, hr, hfirst]
    rfl

/-- From the paragraph of a check the check is read. -/
theorem filterMap_paragraph {entries : List Entry} (h : ∀ e ∈ entries, e.OneLine)
    (hplain : ∀ e ∈ entries, e.IsPlain) :
    (entries.map Entry.paragraph).filterMap (fun q => check? (afterHeader q)) =
      entries.map Entry.asRead := by
  rw [List.filterMap_map, ← List.filterMap_eq_map]
  apply List.filterMap_congr
  intro e he
  have hheader := afterHeader_of_headerFree (Entry.headerFree_paragraph (hplain e he))
  simp only [Function.comp_apply, hheader, Entry.check?_paragraph (h e he)]

/-- The checks are read from the paragraphs between the headers, whatever follows the summary
header. -/
theorem checksOf_upToSummary (hp : p.Framed) (hplain : p.IsPlain) (after : List Char) :
    checksOf (p.upToSummary ++ after) =
      if p.entries = [] then p.stray?.toList else p.entries.map Entry.asRead := by
  obtain ⟨earlier, last, hearlier, hlast, hended, hgo⟩ := exists_paragraphs_preamble hp hplain
  obtain ⟨s, more, hs⟩ := exists_paragraphs_eq_cons (plainLines after)
  have hsummary : paragraphs (plainLines ("SUMMARY:".toList ++ after)) =
      ("SUMMARY:".toList ++ s) :: more := by
    rw [plainLines_append (by decide), plainLines_of_not_mem (by decide),
      paragraphs_append_of_not_mem (by decide) hs]
  have htext : p.upToSummary ++ after = p.preamble.toList ++
      ("RESULTS:".toList ++ '\n' :: (p.body ++ '\n' :: ("SUMMARY:".toList ++ after))) := by
    simp only [upToSummary, List.append_assoc, List.cons_append]
  have hhead : ∀ t, (plainLines ("RESULTS:".toList ++ t)).head? ≠ some '\n' := by
    intro t
    rw [plainLines_append (by decide), plainLines_of_not_mem (by decide)]
    simp
  have hmids : ∀ q ∈ p.entries.tail.map Entry.paragraph, HeaderFree q := by
    intro q hq
    obtain ⟨e, he, rfl⟩ := List.mem_map.1 hq
    exact Entry.headerFree_paragraph (hplain.entries e (List.mem_of_mem_tail he))
  -- The first result paragraph has the end of the preamble in front of the first check.
  have hresults : resultParagraphs (paragraphs (plainLines (p.upToSummary ++ after))) =
      (last ++ p.firstParagraph) :: p.entries.tail.map Entry.paragraph := by
    rw [htext, hgo _ _ _ (hhead _) (paragraphs_results hp _), hsummary]
    exact resultParagraphs_append hearlier (isResults_append_firstParagraph last)
      (isSummary_append_firstParagraph hplain hlast hended) hmids
      (contains_iff.2 ⟨[], ':' :: s, rfl⟩)
  have htail := filterMap_paragraph (fun e he => hp.entries e (List.mem_of_mem_tail he))
    (fun e he => hplain.entries e (List.mem_of_mem_tail he))
  rw [checksOf, hresults, List.filterMap_cons, htail]
  cases h : p.entries with
  | nil =>
    -- Without checks no line feed follows the header, so that it is not cut off.
    have hstray : p.stray? = check? (afterHeader (last ++ "RESULTS:".toList)) := by
      have hheader := hgo "RESULTS:".toList "RESULTS:".toList [] (by decide) (by decide)
      rw [stray?, hheader, List.getLast?_append]
      rfl
    rw [firstParagraph_of_nil h, ← hstray, if_pos rfl]
    cases p.stray? <;> rfl
  | cons e es =>
    have hfirst : check? (afterHeader (last ++ p.firstParagraph)) = some e.asRead := by
      rw [firstParagraph_of_cons h, afterHeader_append hlast,
        Entry.check?_paragraph (hp.entries e (by simp [h]))]
    rw [hfirst, if_neg (List.cons_ne_nil e es)]
    rfl

/-! ## The verdict of a printout -/

/-- Pieces without a verdict make a text without one. -/
theorem lastVerdict_join {pieces : List (List Char)} (h : ∀ s ∈ pieces, lastVerdict s = none) :
    lastVerdict (join ['\n'] pieces) = none := by
  induction pieces with
  | nil => rfl
  | cons s rest ih =>
    obtain ⟨hs, hrest⟩ := List.forall_mem_cons.1 h
    cases rest with
    | nil => exact hs
    | cons t rest =>
      rw [join, List.append_assoc, List.singleton_append, lastVerdict_append_newline, hs, ih hrest]
      rfl

/-- An entry has no verdict. -/
theorem lastVerdict_lines {e : Entry} (he : e.OneLine) : lastVerdict (unlines e.lines) = none := by
  have hlines : ∀ l ∈ e.lines, lastVerdict l = none := by
    intro l hl
    rw [lastVerdict_of_not_mem (Entry.newline_not_mem_lines he l hl),
      Entry.verdict?_of_mem_lines hl]
  have hne : e.lines ≠ [] := List.cons_ne_nil _ _
  rw [unlines_eq_join hne, lastVerdict_append_newline, lastVerdict_join hlines]
  rfl

/-- Only the end of a printout has a word on the verdict. -/
theorem lastVerdict_text (hp : p.Framed) : lastVerdict p.text = p.verdict := by
  have hpreamble := lastVerdict_eq_none_iff.2 hp.beforeResults
  have hsummary := lastVerdict_eq_none_iff.2 hp.inSummary
  have hrest := lastVerdict_eq_none_iff.2 hp.afterVerdict
  have hresults : lastVerdict "RESULTS:".toList = none := by decide
  have hbody : lastVerdict p.body = none := by
    apply lastVerdict_join
    intro s hs
    obtain ⟨e, he, rfl⟩ := List.mem_map.1 hs
    exact lastVerdict_lines (hp.entries e he)
  -- Only the part after the summary has a verdict, and there it is the last one.
  have hafter : lastVerdict ("SUMMARY:".toList ++ p.afterSummary) = p.verdict := by
    cases hv : p.verdict with
    | none =>
      rw [afterSummary, hv]
      simp only [← List.append_assoc]
      rw [lastVerdict_append_of_head hp.rest, hrest, hsummary]
      rfl
    | some v =>
      rw [afterSummary, hv]
      simp only
      rw [← List.append_assoc, lastVerdict_append_newline, lastVerdict_newline,
        lastVerdict_append_of_head hp.rest, hrest, lastVerdict_verdictLine]
      rfl
  have htext : p.text = p.preamble.toList ++ ("RESULTS:".toList ++
      '\n' :: (p.body ++ '\n' :: ("SUMMARY:".toList ++ p.afterSummary))) := by
    simp only [text, upToSummary, List.append_assoc, List.cons_append]
  rw [htext, lastVerdict_append_of_ended hp.preamble, lastVerdict_append_newline,
    lastVerdict_append_newline, hafter, hbody, hresults, hpreamble]
  simp only [Option.or_none]

/-! ## The report of a printout -/

/-- What is read off a printout: its checks, or a stray line without any, and its verdict. -/
theorem ofOutput_text (hp : p.Framed) (hplain : p.IsPlain) :
    ofOutput (String.ofList p.text) =
      ofChecks (if p.entries = [] then p.stray?.toList else p.entries.map Entry.asRead)
        p.verdict := by
  rw [ofOutput_ofList, lastVerdict_text hp, text, checksOf_upToSummary hp hplain]

end Printout

namespace Entry

/-- The check is printed in a way that loses nothing: the number fits, no field has blanks around
it, and the description has no quotes around it. -/
@[mk_iff] structure Verbatim (e : Entry) : Prop where
  number : e.number < UInt32.size
  property : trimmed e.property = e.property
  status : trimmed e.status = e.status
  location : trimmed e.location = e.location
  noOpeningQuote : e.description.toList.head? ≠ some '\x22'
  noClosingQuote : e.description.toList.getLast? ≠ some '\x22'

instance (e : Entry) : Decidable e.Verbatim := decidable_of_iff' _ (verbatim_iff e)

/-- The check that was printed. -/
def check (e : Entry) : Check where
  number := some e.number
  property := e.property
  status := .ofString e.status
  description := e.description
  location := e.location

/-- An entry that is read word for word is read as its check. -/
theorem asRead_eq_check {e : Entry} (he : e.Verbatim) : e.asRead = e.check := by
  rw [asRead, if_pos he.number, he.property, he.location,
    trimMatches_eq_self_iff.2 ⟨he.noOpeningQuote, he.noClosingQuote⟩, String.ofList_toList, check]

/-- The warning about a check that was printed with a status that is not known. -/
def warning? (e : Entry) : Option String :=
  match Status.ofString e.status with
  | .unknown word => some ("check '" ++ e.property ++ "' has unknown status '" ++ word ++ "'")
  | _ => none

/-- The warning of a check is that of its entry. -/
theorem warning?_check (e : Entry) : e.check.warning? = e.warning? := by
  rw [Check.warning?, Check.unknownWord?, warning?, check]
  cases Status.ofString e.status <;> rfl

end Entry

/-- The report that was printed. -/
def Printout.report (p : Printout) : Report where
  checks := p.entries.map Entry.check
  verdict := p.verdict
  warnings := p.entries.filterMap Entry.warning?

/-- A printout is read back as the report that was printed unless it has no check and its preamble
ends in a paragraph that begins like one. -/
theorem ofOutput_printout_iff (p : Printout) (hp : p.Framed) (hplain : p.IsPlain)
    (hverbatim : ∀ e ∈ p.entries, e.Verbatim) :
    ofOutput (String.ofList p.text) = p.report ↔ (p.entries = [] → p.stray? = none) := by
  have hreport : ofChecks (p.entries.map Entry.asRead) p.verdict = p.report := by
    have hchecks : p.entries.map Entry.asRead = p.entries.map Entry.check :=
      List.map_congr_left fun e he => Entry.asRead_eq_check (hverbatim e he)
    have hwarnings : (p.entries.map Entry.check).filterMap Check.warning? =
        p.entries.filterMap Entry.warning? := by
      rw [List.filterMap_map]
      exact List.filterMap_congr fun e _ => Entry.warning?_check e
    rw [hchecks, ofChecks, hwarnings, Printout.report]
  rw [Printout.ofOutput_text hp hplain]
  by_cases h : p.entries = []
  · have hempty : p.report = ofChecks [] p.verdict := by
      rw [← hreport, h]
      rfl
    rw [if_pos h, hempty]
    cases p.stray? with
    | none => simp
    | some c => simp [h, ofChecks]
  · rw [if_neg h, hreport]
    simp [h]

/-- Two checks of one harness, the second with a status that is not known. -/
def skippedCheck : Printout where
  preamble := "Checking harness verify_add...\n"
  entries :=
    [⟨1, "add.assertion.1", "SUCCESS", "sum: a - b", "src/lib.rs:3:5 in function add"⟩,
      ⟨2, "core::add.unwind.0", "SKIPPED", "loop 0", "src/lib.rs:9:1"⟩]
  summary := "\n ** 0 of 2 failed"
  verdict := some .successful
  rest := "\n"

/-- A printout in which nothing has to be changed for it to be read back. -/
theorem ofOutput_skippedCheck :
    skippedCheck.Framed ∧ skippedCheck.IsPlain ∧ (∀ e ∈ skippedCheck.entries, e.Verbatim) ∧
      ofOutput (String.ofList skippedCheck.text) =
        { checks :=
            [⟨some 1, "add.assertion.1", .success, "sum: a - b", "src/lib.rs:3:5 in function add"⟩,
              ⟨some 2, "core::add.unwind.0", .unknown "SKIPPED", "loop 0", "src/lib.rs:9:1"⟩]
          verdict := some .successful
          warnings := ["check 'core::add.unwind.0' has unknown status 'SKIPPED'"] } := by
  have hp : skippedCheck.Framed := by decide
  have hplain : skippedCheck.IsPlain := by decide
  have hverbatim : ∀ e ∈ skippedCheck.entries, e.Verbatim := by decide
  refine ⟨hp, hplain, hverbatim, ?_⟩
  rw [(ofOutput_printout_iff skippedCheck hp hplain hverbatim).2 (by decide)]
  decide

/-- No checks, after a preamble whose last paragraph begins like one. -/
def leftOver : Printout where
  preamble := "Check 5: left over\n"
  entries := []
  summary := "\n ** 0 of 0 failed"
  verdict := some .successful
  rest := "\n"

/-- A line of the preamble is reported as a check that was never printed. -/
theorem ofOutput_leftOver :
    leftOver.Framed ∧ leftOver.IsPlain ∧ leftOver.report = ⟨[], some .successful, []⟩ ∧
      ofOutput (String.ofList leftOver.text) =
        { checks := [⟨some 5, "left over", .unknown "", "", ""⟩]
          verdict := some .successful
          warnings := ["check 'left over' has unknown status ''"] } := by
  exact ⟨by decide, by decide, by decide, by decide⟩

end ProofHarness.Report
