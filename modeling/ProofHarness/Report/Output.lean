import ProofHarness.Report.Basic
import ProofHarness.Text.Line
import ProofHarness.Text.Numeral

/-!
# Reading verifier output

The checks stand between a results header and a summary header, one in each paragraph; the verdict
is the last verdict line.  A paragraph is what stands between blank lines.
-/

set_option autoImplicit false

namespace ProofHarness.Report

open Text

/-- The fields of a check as they are read, line by line. -/
structure Fields where
  status : Option Status
  description : List Char
  location : List Char
  deriving DecidableEq, Repr

/-- The fields before any line is read. -/
def Fields.empty : Fields := ⟨none, [], []⟩

/-- What a line changes in the fields: a name and a value around the first colon, after any
dashes. -/
def Fields.update (fields : Fields) (line : List Char) : Fields :=
  match splitOnce [':'] (line.dropWhile (· == '-')) with
  | none => fields
  | some (name, value) =>
    let name := trim name
    let value := trim value
    if name == "Status".toList then
      { fields with status := some (.ofString (String.ofList value)) }
    else if name == "Description".toList then
      { fields with description := trimMatches '\x22' value }
    else if name == "Location".toList then { fields with location := value }
    else fields

/-- The lines of a text without the blanks around them, and without those that hold nothing else.
-/
def filledLines (s : List Char) : List (List Char) :=
  ((lines s).map trim).filter fun line => !line.isEmpty

/-- The check of a paragraph, if its first line is the header of one. -/
def check? (paragraph : List Char) : Option Check :=
  match filledLines paragraph with
  | [] => none
  | header :: rest =>
    (stripPrefix "Check ".toList header).map fun title =>
      let (number, property) := (splitOnce [':'] title).getD (title, [])
      let fields := rest.foldl Fields.update .empty
      { number := readSignedWord (trim number)
        property := String.ofList (trim property)
        status := fields.status.getD (.unknown "")
        description := String.ofList fields.description
        location := String.ofList fields.location }

/-- A paragraph after the results header in it, if it has one. -/
def afterHeader (paragraph : List Char) : List Char :=
  match splitOnce "RESULTS:\n".toList paragraph with
  | some (_, rest) => rest
  | none => paragraph

/-- Whether a paragraph announces the checks. -/
def isResults (paragraph : List Char) : Bool := contains "RESULTS".toList paragraph

/-- Whether a paragraph announces the summary. -/
def isSummary (paragraph : List Char) : Bool := contains "SUMMARY".toList paragraph

/-- The paragraphs from the first results header to the first summary header, or to the end if that
summary header stands before. -/
def resultParagraphs (paragraphs : List (List Char)) : List (List Char) :=
  let results := paragraphs.dropWhile fun p => !isResults p
  if (paragraphs.takeWhile fun p => !isResults p).any isSummary then results
  else results.takeWhile fun p => !isSummary p

/-- The verdict of a line. -/
def verdict? (line : List Char) : Option Verdict :=
  (stripPrefix "VERIFICATION:-".toList (trim line)).bind fun rest =>
    if trim rest == "SUCCESSFUL".toList then some .successful
    else if trim rest == "FAILED".toList then some .failed
    else none

/-- A text in which every line ends with a line feed alone. -/
def plainLines (s : List Char) : List Char := replaceAll ['\r', '\n'] ['\n'] s

/-- The report that the verifier printed. -/
def ofOutput (stdout : String) : Report :=
  let s := plainLines stdout.toList
  let paragraphs := resultParagraphs (splitOn ['\n', '\n'] s)
  ofChecks (paragraphs.filterMap fun p => check? (afterHeader p))
    ((lines s).reverse.findSome? verdict?)

end ProofHarness.Report
