import ProofHarness.Proofs.Report.Block
import ProofHarness.Proofs.Report.Sequence

/-!
# Blocks are read by their fields

The check of a block is determined by its header and by the last line of each field
(`checkOf?_congr`).  So the order of lines of different fields does not matter, and neither do lines
that name no field, indentation and dashes (`checkOf?_eq_of_edit`).  A block without a status has
one that is not known, and a report with it is no success.
-/

set_option autoImplicit false

namespace ProofHarness.Report

open Text

/-! ## What a check depends on -/

/-- A check is read off its header and the last value of each field. -/
theorem checkOf?_congr {header header' : List Char} {ls ls' : List (List Char)}
    (hheader : trim header' = trim header)
    (hfields : ∀ name ∈ fieldNames, lastValue? name ls' = lastValue? name ls) :
    checkOf? header' ls' = checkOf? header ls := by
  have hstatus := hfields "Status".toList (by decide)
  have hdescription := hfields "Description".toList (by decide)
  have hlocation := hfields "Location".toList (by decide)
  rw [checkOf?, hheader, hstatus, hdescription, hlocation, checkOf?]

/-- The last value of a name is that of the last line with the name. -/
theorem lastValue?_congr {name : List Char} {ls ls' : List (List Char)}
    (h : lastLine? name ls' = lastLine? name ls) : lastValue? name ls' = lastValue? name ls := by
  rw [lastValue?, h, lastValue?]

/-- The same line, with other indentation and another number of dashes; where no dashes are left,
the text does not go on with some. -/
inductive Relaid : List Char → List Char → Prop where
  | of {indent indent' text : List Char} {dashes dashes' : Nat}
      (hindent : ∀ c ∈ indent, isBlank c = true) (hindent' : ∀ c ∈ indent', isBlank c = true)
      (htext : text.head? ≠ some '-')
      (hbare : dashes = 0 ∨ dashes' = 0 → (trimStart text).head? ≠ some '-') :
      Relaid (laidOut indent dashes text) (laidOut indent' dashes' text)

/-- A line that is laid out anew has the same text. -/
theorem Relaid.lineText_eq {line line' : List Char} (h : Relaid line line') :
    lineText line' = lineText line := by
  obtain ⟨hindent, hindent', htext, hbare⟩ := h
  rw [lineText_laidOut hindent htext fun h => hbare (.inl h),
    lineText_laidOut hindent' htext fun h => hbare (.inr h)]

/-- Lines that are laid out anew have the same values. -/
theorem lastValue?_of_relaid {ls ls' : List (List Char)} (h : List.Forall₂ Relaid ls ls')
    (name : List Char) : lastValue? name ls' = lastValue? name ls := by
  have hvalues : ls'.filterMap (value? name) = ls.filterMap (value? name) := by
    induction h with
    | nil => rfl
    | cons hline _ ih =>
      rw [List.filterMap_cons, List.filterMap_cons, ih, value?_congr hline.lineText_eq name]
  rw [← getLast?_filterMap_value?, ← getLast?_filterMap_value?, hvalues]

/-- A line that names no field is not missed. -/
theorem lastValue?_append_cons_of_unnamed {name line : List Char} (hline : names name line = false)
    (before after : List (List Char)) :
    lastValue? name (before ++ line :: after) = lastValue? name (before ++ after) := by
  apply lastValue?_congr
  rw [lastLine?, List.filter_append, List.filter_cons_of_neg (by simp [hline]),
    ← List.filter_append, lastLine?]

/-! ## Edits -/

/-- What may be done to the lines of a block. -/
inductive Edit (b b' : Block) : Prop where
  /-- The lines after the header are put in another order, those of one field in the same. -/
  | reorder (header : b'.header = b.header) (perm : b'.rest.Perm b.rest)
      (order : ∀ name ∈ fieldNames, b'.rest.filter (names name) = b.rest.filter (names name))
  /-- A line that is not blank and names no field is put in after the header. -/
  | add (header : b'.header = b.header) (before after : List (List Char)) (line : List Char)
      (rest : b.rest = before ++ after) (rest' : b'.rest = before ++ line :: after)
      (filled : trim line ≠ []) (unnamed : ∀ name ∈ fieldNames, names name line = false)
  /-- Such a line is taken out. -/
  | remove (header : b'.header = b.header) (before after : List (List Char)) (line : List Char)
      (rest : b.rest = before ++ line :: after) (rest' : b'.rest = before ++ after)
      (filled : trim line ≠ []) (unnamed : ∀ name ∈ fieldNames, names name line = false)
  /-- The lines get other indentation, and those after the header other dashes. -/
  | layOut (header : trimStart b'.header = trimStart b.header)
      (rest : List.Forall₂ Relaid b.rest b'.rest)

/-- No edit changes the check that is read. -/
theorem checkOf?_eq_of_edit {b b' : Block} (h : Edit b b') :
    checkOf? b'.header b'.rest = checkOf? b.header b.rest := by
  cases h with
  | reorder header perm order =>
    refine checkOf?_congr (by rw [header]) fun name hname => lastValue?_congr ?_
    rw [lastLine?, order name hname, lastLine?]
  | add header before after line rest rest' filled unnamed =>
    refine checkOf?_congr (by rw [header]) fun name hname => ?_
    rw [rest, rest', lastValue?_append_cons_of_unnamed (unnamed name hname)]
  | remove header before after line rest rest' filled unnamed =>
    refine checkOf?_congr (by rw [header]) fun name hname => ?_
    rw [rest, rest', lastValue?_append_cons_of_unnamed (unnamed name hname)]
  | layOut header rest =>
    refine checkOf?_congr (by rw [trim, header, trim]) fun name _ => lastValue?_of_relaid rest name

/-- A block that begins like one of a check and has no status is read as a check. -/
theorem exists_checkOf?_of_unnamed {header title : List Char} {ls : List (List Char)}
    (hheader : trim header = "Check ".toList ++ title)
    (hstatus : ∀ l ∈ ls, names "Status".toList l = false) :
    ∃ c, checkOf? header ls = some c ∧ c.status = .unknown "" := by
  have hnone : lastValue? "Status".toList ls = none := by
    rw [lastValue?, lastLine?, List.filter_eq_nil_iff.2 (by simpa using hstatus)]
    rfl
  rw [checkOf?, hheader, stripPrefix_eq_some_iff.2 rfl, hnone]
  exact ⟨_, rfl, rfl⟩

/-! ## Reports -/

/-- A report with a check that is no success is no success. -/
theorem isSuccess_ofOutput_eq_false {stdout : String} {c : Check}
    (hc : c ∈ (ofOutput stdout).checks) (hstatus : c.status ≠ .success) :
    (ofOutput stdout).isSuccess = false := by
  have hreport : ofOutput stdout =
      ofChecks (ofOutput stdout).checks (ofOutput stdout).verdict := by
    simp only [ofOutput, ofChecks]
  rw [Bool.eq_false_iff]
  intro hsuccess
  rw [hreport, isSuccess_ofChecks_iff] at hsuccess
  exact hstatus (hsuccess.1 c hc)

/-- How the block at a place is read, between the checks of the other paragraphs. -/
structure ReadByField (place : Place) (front back : List Check) (b : Block) : Prop where
  /-- The header and the last line of each field decide what is read. -/
  determined : ∃ c : Option Check, ∀ b' : Block, place.Keeps b' → trim b'.header = trim b.header →
    (∀ name ∈ fieldNames, lastLine? name b'.rest = lastLine? name b.rest) →
      (ofOutput (place.output b')).checks = front ++ (c.toList ++ back)
  edited : ∀ b' : Block, place.Keeps b' → Edit b b' →
    (ofOutput (place.output b')).checks = (ofOutput (place.output b)).checks
  unknown : ∀ title, trim b.header = "Check ".toList ++ title →
    (∀ l ∈ b.rest, names "Status".toList l = false) →
      ∃ c : Check, c.status = .unknown "" ∧
        (ofOutput (place.output b)).checks = front ++ ([c] ++ back) ∧
          (ofOutput (place.output b)).isSuccess = false

/-- Blocks in which nothing is taken for the results header are read by their fields. -/
theorem readByField (place : Place) : ∃ front back : List Check, ∀ b : Block, place.Keeps b →
    ReadByField place front back b := by
  obtain ⟨front, back, hchecks⟩ := place.exists_checks_eq
  refine ⟨front, back, fun b hb => ⟨⟨checkOf? b.header b.rest, ?_⟩, ?_, ?_⟩⟩
  · intro b' hb' hheader hlines
    have hfields := fun name hname => lastValue?_congr (hlines name hname)
    rw [hchecks b' hb', checkOf?_congr hheader hfields]
  · intro b' hb' hedit
    rw [hchecks b' hb', hchecks b hb, checkOf?_eq_of_edit hedit]
  · intro title hheader hstatus
    obtain ⟨c, hc, hunknown⟩ := exists_checkOf?_of_unnamed hheader hstatus
    have hall : (ofOutput (place.output b)).checks = front ++ ([c] ++ back) := by
      rw [hchecks b hb, hc, Option.toList_some]
    refine ⟨c, hunknown, hall, isSuccess_ofOutput_eq_false (c := c) (by simp [hall]) ?_⟩
    rw [hunknown]
    exact Status.noConfusion

/-! ## A block after another one -/

/-- The place of a second check. -/
def secondPlace : Place where
  before := "RESULTS:\nCheck 1: a.1\n - Status: SUCCESS\n\n"
  after := "\nSUMMARY:\n ** 1 of 2 failed\n"
  opens := by decide +kernel
  closes := by decide +kernel
  started := by decide +kernel
  notEnded := by decide +kernel

/-- The second check, with some lines after its header. -/
def secondBlock (rest : List String) (h : ∀ l ∈ rest.map String.toList, InParagraph l) : Block :=
  .headed "Check 2: b.1".toList (rest.map String.toList) (by decide)
    (List.forall_mem_cons.2 ⟨by decide, h⟩)

/-- A failed check whose status comes first. -/
def statusFirst : Block :=
  secondBlock [" - Status: FAILURE", " - Description: \"bad\"", " - Location: l"] (by decide)

/-- The same check with its status at the end. -/
def statusLast : Block :=
  secondBlock [" - Description: \"bad\"", " - Location: l", " - Status: FAILURE"] (by decide)

/-- The order of the lines does not matter to the checks. -/
theorem readByField_statusLast :
    secondPlace.Keeps statusFirst ∧ secondPlace.Keeps statusLast ∧ Edit statusFirst statusLast ∧
      (ofOutput (secondPlace.output statusLast)).checks =
        (ofOutput (secondPlace.output statusFirst)).checks := by
  have hfirst : secondPlace.Keeps statusFirst := by decide +kernel
  have hlast : secondPlace.Keeps statusLast := by decide +kernel
  have hedit : Edit statusFirst statusLast := .reorder rfl (by decide) (by decide +kernel)
  obtain ⟨_, _, hread⟩ := readByField secondPlace
  exact ⟨hfirst, hlast, hedit, (hread statusFirst hfirst).edited statusLast hlast hedit⟩

/-- A failed check whose last line ends as the results header does. -/
def markedStatusFirst : Block :=
  secondBlock [" - Status: FAILURE", " - Description: \"bad\"", " - Location: RESULTS:"] (by decide)

/-- The same check with another line at the end. -/
def markedStatusLast : Block :=
  secondBlock [" - Description: \"bad\"", " - Location: RESULTS:", " - Status: FAILURE"] (by decide)

/-- A failed check is lost when its lines are put in another order, because one of them that is no
longer the last one ends as the results header does. -/
theorem not_readByField_markedStatusLast :
    Edit markedStatusFirst markedStatusLast ∧
      ofOutput (secondPlace.output markedStatusFirst) =
        ⟨[⟨some 1, "a.1", .success, "", ""⟩, ⟨some 2, "b.1", .failure, "bad", "RESULTS:"⟩], none,
          []⟩ ∧
      secondPlace.output markedStatusLast = "RESULTS:\nCheck 1: a.1\n - Status: SUCCESS\n\n" ++
        "Check 2: b.1\n - Description: \"bad\"\n - Location: RESULTS:\n - Status: FAILURE\n\n" ++
          "SUMMARY:\n ** 1 of 2 failed\n" ∧
      ofOutput (secondPlace.output markedStatusLast) =
        ⟨[⟨some 1, "a.1", .success, "", ""⟩], none, []⟩ ∧
      (ofOutput (secondPlace.output markedStatusLast)).isSuccess = true := by
  have hlost : ofOutput (secondPlace.output markedStatusLast) =
      ⟨[⟨some 1, "a.1", .success, "", ""⟩], none, []⟩ := by decide +kernel
  have hedit : Edit markedStatusFirst markedStatusLast :=
    .reorder rfl (by decide) (by decide +kernel)
  refine ⟨hedit, by decide +kernel, by decide +kernel, hlost, ?_⟩
  rw [hlost]
  decide

end ProofHarness.Report
