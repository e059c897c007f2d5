import Mathlib.Tactic.MkIffOfInductiveProp
import ProofHarness.Proofs.Report.Field
import ProofHarness.Proofs.Text.Numeral
import ProofHarness.Proofs.Text.Occurrence

/-!
# Printed checks

A check as the verifier prints it: four lines, of which the first has the number and the property,
and the others have one field each.  Reading them gives the check back (`check?_paragraph`), except
that blanks around fields and quotes around the description are gone.
-/

set_option autoImplicit false

namespace ProofHarness.Report

open Text

/-- What is printed of a check. -/
structure Entry where
  number : Nat
  property : String
  status : String
  description : String
  location : String
  deriving DecidableEq, Repr

namespace Entry

/-- The four lines of a check. -/
def lines (e : Entry) : List (List Char) :=
  ["Check ".toList ++ (numeral e.number).toList ++ ": ".toList ++ e.property.toList,
    "\t - Status: ".toList ++ e.status.toList,
    "\t - Description: \"".toList ++ e.description.toList ++ "\"".toList,
    "\t - Location: ".toList ++ e.location.toList]

/-- The check that is read from the four lines. -/
def asRead (e : Entry) : Check where
  number := if e.number < UInt32.size then some e.number else none
  property := trimmed e.property
  status := .ofString e.status
  description := String.ofList (trimMatches '\x22' e.description.toList)
  location := trimmed e.location

/-- Each field is on one line. -/
@[mk_iff] structure OneLine (e : Entry) : Prop where
  property : '\n' ∉ e.property.toList
  status : '\n' ∉ e.status.toList
  description : '\n' ∉ e.description.toList
  location : '\n' ∉ e.location.toList

instance (e : Entry) : Decidable e.OneLine := decidable_of_iff' _ (oneLine_iff e)

end Entry

/-! ## Fields -/

/-- The line on which the verifier prints a field. -/
def fieldLine (name value : List Char) : List Char :=
  '\t' :: ' ' :: '-' :: ' ' :: (name ++ ':' :: ' ' :: value)

/-- The line of a field without the blanks around it. -/
theorem trim_fieldLine (name value : List Char) :
    trim (fieldLine name value) = '-' :: ' ' :: (name ++ ':' :: trimEnd (' ' :: value)) := by
  have htrim := trim_cons_append_cons (c := '-') (d := ':') (by decide) (by decide) (' ' :: name)
    (' ' :: value)
  rw [fieldLine, trim_cons_of_isBlank (by decide), trim_cons_of_isBlank (by decide)]
  simpa using htrim

/-- A field is read by its name, whatever stands around its value. -/
theorem value?_fieldLine {name : List Char} (hname : IsName name) (value field : List Char) :
    value? field (fieldLine name value) = if name = field then some (trim value) else none := by
  have hline : fieldLine name value =
      laidOut ['\t', ' '] 1 ([' '] ++ (name ++ ':' :: ' ' :: value)) := rfl
  have hspace : ∀ c ∈ [' '], isBlank c = true := List.forall_mem_singleton.2 (by decide)
  have hindent : ∀ c ∈ ['\t', ' '], isBlank c = true := List.forall_mem_cons.2 ⟨by decide, hspace⟩
  rw [hline, value?_laidOut hindent hspace hname, trim_cons_of_isBlank (by decide)]

/-- Blanks around a status do not matter. -/
theorem ofString_trim (s : String) :
    Status.ofString (String.ofList (trim s.toList)) = .ofString s := by
  rw [Status.ofString, trimmed_trim, Status.ofString, String.ofList_toList]

/-- The blanks after a number and a colon stay in front of what follows them. -/
theorem trim_checkLine (number property : List Char) :
    trim ("Check ".toList ++ number ++ ": ".toList ++ property) =
      "Check ".toList ++ (number ++ ':' :: trimEnd (' ' :: property)) := by
  have hline : "Check ".toList ++ number ++ ": ".toList ++ property =
      'C' :: (("heck ".toList ++ number) ++ ':' :: ' ' :: property) := by
    simp
  rw [hline, trim_cons_append_cons (by decide) (by decide)]
  simp

namespace Entry

/-- The first line of a check. -/
def headerLine (e : Entry) : List Char :=
  "Check ".toList ++ (numeral e.number).toList ++ ": ".toList ++ e.property.toList

/-- The lines of a check after the first one. -/
def fieldLines (e : Entry) : List (List Char) :=
  [fieldLine "Status".toList e.status.toList,
    fieldLine "Description".toList ('\x22' :: (e.description.toList ++ ['\x22'])),
    fieldLine "Location".toList e.location.toList]

/-- The header line comes first. -/
theorem lines_eq (e : Entry) : e.lines = e.headerLine :: e.fieldLines := rfl

/-- The header line without the blanks around it. -/
theorem trim_headerLine (e : Entry) :
    trim e.headerLine = "Check ".toList ++
      ((numeral e.number).toList ++ ':' :: trimEnd (' ' :: e.property.toList)) :=
  trim_checkLine (numeral e.number).toList e.property.toList

/-- The header line and the lines of the fields are read as the check. -/
theorem checkOf?_headerLine (e : Entry) : checkOf? e.headerLine e.fieldLines = some e.asRead := by
  have hcolon : ':' ∉ (numeral e.number).toList := by
    intro hc
    exact absurd (isDigit_of_mem_numeral hc) (by decide)
  have hnumber : trim (numeral e.number).toList = (numeral e.number).toList := by
    apply trim_eq_self_of_all
    intro c hc
    exact isBlank_of_isDigit (isDigit_of_mem_numeral hc)
  have hproperty : trim (trimEnd (' ' :: e.property.toList)) = trim e.property.toList := by
    rw [trim_trimEnd, trim_cons_of_isBlank (by decide)]
  have hquoted : trim ('\x22' :: (e.description.toList ++ ['\x22'])) =
      '\x22' :: (e.description.toList ++ ['\x22']) :=
    trim_cons_append_cons (by decide) (by decide) e.description.toList []
  have hvalue : ∀ {name : List Char} (value : List Char), IsName name →
      value? name (fieldLine name value) = some (trim value) := by
    intro name value hname
    rw [value?_fieldLine hname, if_pos rfl]
  have hother : ∀ {name field : List Char} (value : List Char), IsName name → name ≠ field →
      value? field (fieldLine name value) = none := by
    intro name field value hname hne
    rw [value?_fieldLine hname, if_neg hne]
  -- Each field has one line, and the lines of the other fields have no value for it.
  have hstatus : lastValue? "Status".toList e.fieldLines = some (trim e.status.toList) :=
    lastValue?_append_cons (hvalue _ (by decide)) [] (List.forall_mem_cons.2
      ⟨hother _ (by decide) (by decide),
        List.forall_mem_singleton.2 (hother _ (by decide) (by decide))⟩)
  have hdescription : lastValue? "Description".toList e.fieldLines =
      some ('\x22' :: (e.description.toList ++ ['\x22'])) := by
    rw [← hquoted]
    exact lastValue?_append_cons (hvalue _ (by decide)) [_]
      (List.forall_mem_singleton.2 (hother _ (by decide) (by decide)))
  have hlocation : lastValue? "Location".toList e.fieldLines = some (trim e.location.toList) :=
    lastValue?_append_cons (hvalue _ (by decide)) [_, _] (by simp)
  rw [checkOf?, trim_headerLine, stripPrefix_eq_some_iff.2 rfl, Option.map_some,
    splitOnce_append_cons hcolon, hstatus, hdescription, hlocation]
  simp only [Option.map_some, Option.getD_some]
  rw [hnumber, readSignedWord_numeral, hproperty, ofString_trim, trimMatches_cons_append_singleton]
  rfl

/-! ## The lines of a check -/

/-- Each line of an entry is one line. -/
theorem newline_not_mem_lines {e : Entry} (he : e.OneLine) : ∀ l ∈ e.lines, '\n' ∉ l := by
  have hnumeral : '\n' ∉ (numeral e.number).toList := by
    intro hc
    exact absurd (isDigit_of_mem_numeral hc) (by decide)
  have hfield : ∀ name value : List Char, '\n' ∉ name → '\n' ∉ value →
      '\n' ∉ fieldLine name value := by
    intro name value hname hvalue
    simp [fieldLine, hname, hvalue]
  rw [lines_eq, fieldLines]
  simp only [List.forall_mem_cons]
  refine ⟨?_, hfield _ _ (by decide) he.status, hfield _ _ (by decide) ?_,
    hfield _ _ (by decide) he.location, by simp⟩
  · unfold headerLine
    simp [hnumeral, he.property]
  · simp [he.description]

/-- Each line of a check is filled, and announces no verdict. -/
theorem exists_trim_of_mem_lines {e : Entry} {l : List Char} (hl : l ∈ e.lines) :
    ∃ d t, trim l = d :: t ∧ d ≠ 'V' := by
  have hfield : ∀ name value : List Char, ∃ d t, trim (fieldLine name value) = d :: t ∧ d ≠ 'V' :=
    fun name value => ⟨_, _, trim_fieldLine name value, by decide⟩
  rw [lines_eq, fieldLines] at hl
  simp only [List.mem_cons, List.not_mem_nil, or_false] at hl
  rcases hl with rfl | rfl | rfl | rfl
  · exact ⟨_, _, trim_headerLine e, by decide⟩
  · exact hfield _ _
  · exact hfield _ _
  · exact hfield _ _

/-- No line of an entry is a verdict. -/
theorem verdict?_of_mem_lines {e : Entry} {l : List Char} (hl : l ∈ e.lines) :
    verdict? l = none := by
  obtain ⟨d, t, ht, hd⟩ := exists_trim_of_mem_lines hl
  have hstrip : stripPrefix "VERIFICATION:-".toList (d :: t) = none := by
    rw [Option.eq_none_iff_forall_ne_some]
    intro r hr
    have heq := stripPrefix_eq_some_iff.1 hr
    exact hd (List.cons.inj heq).1
  rw [verdict?, ht, hstrip]
  rfl

/-- The lines of a check as one paragraph, with plain line ends. -/
def paragraph (e : Entry) : List Char := join ['\n'] (e.lines.map dropReturn)

/-- Each line is one line without its carriage return. -/
theorem newline_not_mem_map_dropReturn {e : Entry} (he : e.OneLine) :
    ∀ l ∈ e.lines.map dropReturn, '\n' ∉ l :=
  not_mem_map_dropReturn (newline_not_mem_lines he)

/-- No line of an entry is empty. -/
theorem ne_nil_of_mem_map_dropReturn {e : Entry} :
    ∀ l ∈ e.lines.map dropReturn, l ≠ [] := by
  intro l hl
  obtain ⟨m, hm, rfl⟩ := List.mem_map.1 hl
  obtain ⟨d, t, ht, -⟩ := exists_trim_of_mem_lines hm
  rintro h
  rw [← trim_dropReturn, h] at ht
  cases ht

/-- The paragraph of an entry is read as the check. -/
theorem check?_paragraph {e : Entry} (he : e.OneLine) : check? e.paragraph = some e.asRead := by
  have hheader : trim e.headerLine ≠ [] := by
    rw [trim_headerLine]
    exact List.cons_ne_nil _ _
  have hnewline : ∀ l ∈ [] ++ e.headerLine :: e.fieldLines, '\n' ∉ l := newline_not_mem_lines he
  have hblanks : ∀ l ∈ ([] : List (List Char)), trim l = [] := by simp
  have hfilled := filledLines_join_dropReturn hnewline hblanks hheader
  rw [paragraph, lines_eq, ← checkOf?_headerLine]
  exact check?_of_filledLines hfilled

end Entry

end ProofHarness.Report
