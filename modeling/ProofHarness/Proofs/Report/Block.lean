import ProofHarness.Proofs.Report.RoundTrip

/-!
# Blocks of a report

One block of lines at a place in the output of the verifier, between the results header and the
summary header.  Whatever block stands there, the checks of the other paragraphs are the same, and
from the block the check of its header and of the last line of each field is read
(`Place.exists_checks_eq`).  What looks like a results header in a block cuts off the lines in front
of it, unless the true header stands right in front of the block.
-/

set_option autoImplicit false

namespace ProofHarness.Report

open Text

/-- The line does not end a paragraph, and does not end the checks. -/
structure InParagraph (line : List Char) : Prop where
  oneLine : '\n' ∉ line
  notEmpty : dropReturn line ≠ []
  noSummary : isSummary line = false

instance (line : List Char) : Decidable (InParagraph line) :=
  decidable_of_iff ('\n' ∉ line ∧ dropReturn line ≠ [] ∧ isSummary line = false)
    ⟨fun h => ⟨h.1, h.2.1, h.2.2⟩, fun h => ⟨h.oneLine, h.notEmpty, h.noSummary⟩⟩

/-- Lines of one paragraph, of which the first one that is not blank is the header. -/
structure Block where
  blanks : List (List Char)
  header : List Char
  rest : List (List Char)
  blank : ∀ l ∈ blanks, trim l = []
  filled : trim header ≠ []
  inParagraph : ∀ l ∈ blanks ++ header :: rest, InParagraph l

namespace Block

/-- A header with lines after it. -/
def headed (header : List Char) (rest : List (List Char)) (filled : trim header ≠ [])
    (inParagraph : ∀ l ∈ header :: rest, InParagraph l) : Block :=
  ⟨[], header, rest, List.forall_mem_nil _, filled, inParagraph⟩

/-- The lines of the block: blank ones, the header, and the lines below it. -/
def lines (b : Block) : List (List Char) := b.blanks ++ b.header :: b.rest

/-- The lines of the block with plain line ends. -/
def paragraph (b : Block) : List Char := join ['\n'] (b.lines.map dropReturn)

/-- No line of the block, but perhaps the last one, ends as the results header does. -/
def Unmarked (b : Block) : Prop := ∀ l ∈ b.lines.dropLast, ¬ "RESULTS:".toList <:+ dropReturn l

instance (b : Block) : Decidable b.Unmarked :=
  inferInstanceAs (Decidable (∀ l ∈ b.lines.dropLast, _))

end Block

/-! ## Places -/

/-- The paragraph that a text ends in, and with which another text goes on. -/
def openParagraph (s : List Char) : List Char := (paragraphs (plainLines s)).getLast?.getD []

/-- The paragraphs of a text from the first one with the results header on. -/
def resultsFrom (s : List Char) : List (List Char) :=
  (paragraphs (plainLines s)).dropWhile fun q => !isResults q

/-- The first results header of a text ends it. -/
def EndsWithHeader (s : List Char) : Prop :=
  (splitOnce "RESULTS:\n".toList s).map Prod.snd = some []

instance (s : List Char) : Decidable (EndsWithHeader s) :=
  inferInstanceAs (Decidable (_ = _))

/-- What stands before and after a block of the results. -/
structure Place where
  before : String
  after : String
  /-- The block begins a paragraph, or follows the results header. -/
  opens : openParagraph before.toList ∈ [[], ['\n']] ∨ EndsWithHeader (openParagraph before.toList)
  /-- The block ends its paragraph. -/
  closes : (plainLines after.toList).head? = some '\n'
  /-- The results header stands in front of the block, and the summary header not since then. -/
  started : resultsFrom before.toList ≠ []
  notEnded : ∀ q ∈ resultsFrom before.toList, isSummary q = false

namespace Place

/-- The block stands right after the results header. -/
def AfterHeader (place : Place) : Prop := EndsWithHeader (openParagraph place.before.toList)

instance (place : Place) : Decidable place.AfterHeader :=
  inferInstanceAs (Decidable (EndsWithHeader _))

/-- Nothing in the block is taken for the results header. -/
def Keeps (place : Place) (b : Block) : Prop := place.AfterHeader ∨ b.Unmarked

instance (place : Place) (b : Block) : Decidable (place.Keeps b) :=
  inferInstanceAs (Decidable (_ ∨ _))

/-- The output with a block at the place. -/
def output (place : Place) (b : Block) : String :=
  String.ofList (place.before.toList ++ (unlines b.lines ++ place.after.toList))

end Place

/-! ## The paragraph of a block -/

namespace Block

variable (b : Block)

/-- Each line is one line. -/
theorem newline_not_mem : ∀ l ∈ b.lines, '\n' ∉ l := fun l hl => (b.inParagraph l hl).oneLine

/-- So it is without its carriage return. -/
theorem newline_not_mem_map : ∀ l ∈ b.lines.map dropReturn, '\n' ∉ l :=
  not_mem_map_dropReturn b.newline_not_mem

/-- No line is empty, not even without its carriage return. -/
theorem ne_nil_of_mem_map : ∀ l ∈ b.lines.map dropReturn, l ≠ [] :=
  List.forall_mem_map.2 fun l hl => (b.inParagraph l hl).notEmpty

/-- No line is empty. -/
theorem ne_nil_of_mem : ∀ l ∈ b.lines, l ≠ [] := by
  rintro l hl rfl
  exact (b.inParagraph [] hl).notEmpty rfl

/-- A block has lines. -/
theorem lines_ne_nil : b.lines ≠ [] := by
  rw [lines]
  exact List.append_ne_nil_of_right_ne_nil _ (List.cons_ne_nil _ _)

/-- It has lines with plain ends. -/
theorem map_lines_ne_nil : b.lines.map dropReturn ≠ [] := by
  rw [Ne, List.map_eq_nil_iff]
  exact b.lines_ne_nil

/-- A block does not announce the summary. -/
theorem isSummary_paragraph : isSummary b.paragraph = false := by
  apply contains_join_eq_false (by decide) (by decide)
  rw [List.forall_mem_map]
  intro l hl
  exact contains_eq_false_of_isInfix (dropReturn_isPrefix l).isInfix (b.inParagraph l hl).noSummary

/-- The filled lines of a block are its header and the filled ones below it. -/
theorem filledLines_paragraph : filledLines b.paragraph =
    trim b.header :: (b.rest.map trim).filter fun line => !line.isEmpty :=
  filledLines_join_dropReturn b.newline_not_mem b.blank b.filled

/-- No results header is found in the block. -/
theorem contains_paragraph {b : Block} (h : b.Unmarked) :
    contains "RESULTS:\n".toList b.paragraph = false :=
  contains_concat_join_eq_false (q := "RESULTS:".toList) (by decide) b.newline_not_mem_map
    (by rw [← List.map_dropLast]; exact List.forall_mem_map.2 h)

end Block

/-! ## The paragraphs of the output -/

namespace Place

variable (place : Place)

/-- A block is one paragraph of the output, with what stands in front of it on its own paragraph. -/
theorem exists_paragraphs_output : ∃ earlier later,
    paragraphs (plainLines place.before.toList) =
        earlier ++ [openParagraph place.before.toList] ∧
      ∀ b : Block, paragraphs (plainLines (place.output b).toList) =
        earlier ++ (openParagraph place.before.toList ++ b.paragraph) :: later := by
  obtain ⟨earlier, last, hbefore, -, hgo⟩ :=
    exists_paragraphs_eq_append (plainLines place.before.toList)
  obtain ⟨s, hs⟩ := List.head?_eq_some_iff.1 place.closes
  have hlast : openParagraph place.before.toList = last := by
    rw [openParagraph, hbefore, List.getLast?_concat, Option.getD_some]
  refine ⟨earlier, paragraphs s, by rw [hbefore, hlast], fun b => ?_⟩
  -- The text behind starts with an empty line, so that a paragraph ends with the block.
  have htext : unlines b.lines ++ place.after.toList =
      join ['\n'] b.lines ++ '\n' :: place.after.toList := by
    rw [unlines_eq_join b.lines_ne_nil, List.append_assoc, List.singleton_append]
  have hplain : plainLines (unlines b.lines ++ place.after.toList) =
      b.paragraph ++ '\n' :: '\n' :: s := by
    rw [plainLines_unlines_append b.newline_not_mem, unlines_eq_join b.map_lines_ne_nil, hs,
      List.append_assoc, List.singleton_append, Block.paragraph]
  have hhead : (plainLines (unlines b.lines ++ place.after.toList)).head? ≠ some '\n' := by
    rw [hplain]
    exact head?_join_append_ne b.map_lines_ne_nil b.newline_not_mem_map b.ne_nil_of_mem_map _
  have hapart : plainLines (place.output b).toList = plainLines place.before.toList ++
      plainLines (unlines b.lines ++ place.after.toList) := by
    rw [output, String.toList_ofList]
    apply plainLines_append_of_head
    intro _
    rw [htext]
    exact head?_join_append_ne b.lines_ne_nil b.newline_not_mem b.ne_nil_of_mem _
  have hparagraph : paragraphs (plainLines (unlines b.lines ++ place.after.toList)) =
      b.paragraph :: paragraphs s := by
    rw [hplain]
    exact paragraphs_join b.newline_not_mem_map b.ne_nil_of_mem_map s
  rw [hapart, hgo _ _ _ hhead hparagraph, hlast]

end Place

/-- The other paragraphs of the results do not depend on one paragraph among them. -/
theorem exists_resultParagraphs_append {earlier later : List (List Char)} {start : List Char}
    (hstarted : (earlier ++ [start]).dropWhile (fun q => !isResults q) ≠ [])
    (hnotEnded : ∀ q ∈ (earlier ++ [start]).dropWhile (fun q => !isResults q),
      isSummary q = false) :
    ∃ front back, ∀ x : List Char, (isResults start = true → isResults x = true) →
      isSummary x = false → resultParagraphs (earlier ++ x :: later) = front ++ x :: back := by
  have hearlier := List.takeWhile_append_dropWhile (p := fun q => !isResults q) (l := earlier)
  have hbefore : ∀ q ∈ earlier.takeWhile fun q => !isResults q, isResults q = false := by
    intro q hq
    simpa using List.mem_takeWhile_imp hq
  cases hdrop : earlier.dropWhile fun q => !isResults q with
  | nil =>
    -- The header stands in the paragraph itself, in front of what is put there.
    rw [List.dropWhile_append, hdrop] at hstarted
    have hstart : isResults start = true := by simpa using hstarted
    rw [hdrop, List.append_nil] at hearlier
    rw [hearlier] at hbefore
    refine ⟨[], if earlier.any isSummary then later
      else later.takeWhile fun q => !isSummary q, fun x hx hsummary => ?_⟩
    rw [resultParagraphs_append_cons hbefore (hx hstart)]
    split
    · rfl
    · rw [List.takeWhile_cons_of_pos (by simp [hsummary]), List.nil_append]
  | cons d ds =>
    have hd : isResults d = true := by
      have h := List.head?_dropWhile_not (fun q => !isResults q) earlier
      rw [hdrop] at h
      simpa using h
    have hnone : ∀ q ∈ d :: ds, (!isSummary q) = true := by
      intro q hq
      rw [hnotEnded q (by rw [List.dropWhile_append, hdrop]; exact List.mem_append_left _ hq)]
      rfl
    refine ⟨d :: ds, if (earlier.takeWhile fun q => !isResults q).any isSummary then later
      else later.takeWhile fun q => !isSummary q, fun x _ hsummary => ?_⟩
    have hsplit : earlier ++ x :: later =
        (earlier.takeWhile fun q => !isResults q) ++ d :: (ds ++ x :: later) := by
      rw [← List.cons_append, ← List.append_assoc, ← hdrop, hearlier]
    rw [hsplit, resultParagraphs_append_cons hbefore hd]
    split
    · rfl
    · rw [← List.cons_append, List.takeWhile_append_of_pos hnone,
        List.takeWhile_cons_of_pos (by simp [hsummary])]

/-! ## The checks of the output -/

/-- What comes after the first results header is what comes after a text that this header ends. -/
theorem afterHeader_append_of_endsWithHeader {s : List Char} (hs : EndsWithHeader s)
    (t : List Char) : afterHeader (s ++ t) = t := by
  obtain ⟨⟨u, v⟩, hsides, rfl⟩ := Option.map_eq_some_iff.1 hs
  have hu : contains "RESULTS:\n".toList u = false :=
    contains_eq_false_of_splitOnce (by decide) hsides
  rw [splitOnce_eq_some hsides, List.append_nil, List.append_assoc]
  exact afterHeader_append_of_contains_eq_false hu t

namespace Place

variable {place : Place}

/-- What is read from the paragraph of a block. -/
theorem check?_afterHeader {b : Block} (h : place.Keeps b) :
    check? (afterHeader (openParagraph place.before.toList ++ b.paragraph)) =
      checkOf? b.header b.rest := by
  by_cases hheader : place.AfterHeader
  · rw [afterHeader_append_of_endsWithHeader hheader]
    exact check?_of_filledLines b.filledLines_paragraph
  have hnone := Block.contains_paragraph (h.resolve_left hheader)
  have hfresh := place.opens.resolve_right hheader
  simp only [List.mem_cons, List.not_mem_nil, or_false] at hfresh
  rcases hfresh with hopen | hopen
  · rw [hopen, List.nil_append, afterHeader_of_contains_eq_false hnone]
    exact check?_of_filledLines b.filledLines_paragraph
  · have hfresh : 'R' ∉ ['\n'] := by decide
    have hfeed : contains "RESULTS:\n".toList (['\n'] ++ b.paragraph) = false :=
      (contains_append_of_not_mem hfresh b.paragraph).trans hnone
    rw [hopen, afterHeader_of_contains_eq_false hfeed]
    apply check?_of_filledLines
    rw [List.singleton_append, ← List.nil_append ('\n' :: _),
      filledLines_append_newline List.not_mem_nil, b.filledLines_paragraph]
    rfl

/-- The results reach up to the place. -/
theorem openParagraph_mem_resultsFrom (place : Place) :
    openParagraph place.before.toList ∈ resultsFrom place.before.toList := by
  have hlast := List.getLast?_eq_some_getLast place.started
  have hsuffix : resultsFrom place.before.toList <:+ paragraphs (plainLines place.before.toList) :=
    List.dropWhile_suffix _
  have hopen : openParagraph place.before.toList =
      (resultsFrom place.before.toList).getLast place.started := by
    obtain ⟨front, hfront⟩ := hsuffix
    rw [openParagraph, ← hfront, List.getLast?_append, hlast, Option.some_or, Option.getD_some]
  rw [hopen]
  exact List.getLast_mem place.started

/-- The summary header is not in the paragraph of a block, with what stands in front of it there. -/
theorem isSummary_openParagraph_append (place : Place) (b : Block) :
    isSummary (openParagraph place.before.toList ++ b.paragraph) = false := by
  rcases place.opens with hfresh | hheader
  · simp only [List.mem_cons, List.not_mem_nil, or_false] at hfresh
    rcases hfresh with hopen | hopen
    · rw [hopen, List.nil_append, b.isSummary_paragraph]
    · rw [hopen, List.singleton_append, ← List.nil_append ('\n' :: _), isSummary_append_newline,
        b.isSummary_paragraph]
      rfl
  · -- Up to its last line feed the text in front of the block is without summary header.
    have hopen : isSummary (openParagraph place.before.toList) = false :=
      place.notEnded _ place.openParagraph_mem_resultsFrom
    obtain ⟨⟨u, v⟩, hsides, rfl⟩ := Option.map_eq_some_iff.1 hheader
    have hsplit : openParagraph place.before.toList = (u ++ "RESULTS:".toList) ++ ['\n'] := by
      rw [splitOnce_eq_some hsides, List.append_nil, List.append_assoc]
      rfl
    have hfront : isSummary (u ++ "RESULTS:".toList) = false :=
      contains_eq_false_of_isInfix ⟨[], ['\n'], by rw [hsplit]; rfl⟩ hopen
    rw [hsplit, List.append_assoc, List.singleton_append, isSummary_append_newline, hfront,
      b.isSummary_paragraph]
    rfl

/-- Whatever block stands at a place, the other checks are the same, and from the block one check
is read, or none. -/
theorem exists_checks_eq (place : Place) : ∃ front back : List Check, ∀ b : Block, place.Keeps b →
    (ofOutput (place.output b)).checks = front ++ ((checkOf? b.header b.rest).toList ++ back) := by
  obtain ⟨earlier, later, hbefore, houtput⟩ := place.exists_paragraphs_output
  have hstarted := place.started
  have hnotEnded := place.notEnded
  rw [resultsFrom, hbefore] at hstarted hnotEnded
  obtain ⟨front, back, hresults⟩ := @exists_resultParagraphs_append _ later _ hstarted hnotEnded
  refine ⟨front.filterMap fun q => check? (afterHeader q),
    back.filterMap fun q => check? (afterHeader q), fun b hb => ?_⟩
  have hmarked : isResults (openParagraph place.before.toList) = true →
      isResults (openParagraph place.before.toList ++ b.paragraph) = true :=
    contains_of_isInfix (List.prefix_append _ _).isInfix
  have hchecks : (ofOutput (place.output b)).checks =
      (resultParagraphs (paragraphs (plainLines (place.output b).toList))).filterMap
        fun q => check? (afterHeader q) := by
    simp only [ofOutput, ofChecks, paragraphs]
  rw [hchecks, houtput, hresults _ hmarked (place.isSummary_openParagraph_append b),
    List.filterMap_append, List.filterMap_cons, check?_afterHeader hb]
  cases checkOf? b.header b.rest with
  | none => rw [Option.toList_none, List.nil_append]
  | some c => rw [Option.toList_some, List.singleton_append]

end Place

end ProofHarness.Report
