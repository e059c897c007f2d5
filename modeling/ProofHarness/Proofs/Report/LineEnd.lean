import ProofHarness.CommandLine.Run
import ProofHarness.Proofs.Report.Paragraph

/-!
# Line ends of verifier output

Some of the line feeds of a text may get a carriage return in front of them: between paragraphs,
after the results header or between the lines of a check.  All of them are gone once the line ends
are made plain (`plainLines_toList_withReturns`), and a report is read from plain lines.  Errors are
looked for in the lines as they stand, but without the blanks around them, which carriage returns
are.
-/

set_option autoImplicit false

namespace ProofHarness.Report

open CommandLine Text

/-- A text with carriage returns before those of its line feeds that are chosen, which are counted
from zero. -/
def returnsBefore : (Nat → Bool) → List Char → List Char
  | _, [] => []
  | chosen, c :: s =>
    if c == '\n' then
      (if chosen 0 then ['\r', '\n'] else ['\n']) ++ returnsBefore (fun n => chosen (n + 1)) s
    else c :: returnsBefore chosen s

/-- A text in which the chosen line feeds are written with a carriage return. -/
def withReturns (chosen : Nat → Bool) (text : String) : String :=
  String.ofList (returnsBefore chosen text.toList)

/-- A text without carriage returns has plain line ends. -/
theorem plainLines_of_return_not_mem {s : List Char} (hs : '\r' ∉ s) : plainLines s = s := by
  induction s with
  | nil => rfl
  | cons c s ih =>
    obtain ⟨hc, hs'⟩ := List.ne_and_not_mem_of_not_mem_cons hs
    rw [plainLines_cons fun hr => absurd hr.symm hc, ih hs']

/-- Plain line ends take back all that was put in, provided that nothing was there before. -/
theorem plainLines_returnsBefore (chosen : Nat → Bool) {s : List Char} (hs : '\r' ∉ s) :
    plainLines (returnsBefore chosen s) = s := by
  induction s generalizing chosen with
  | nil => rfl
  | cons c s ih =>
    obtain ⟨hc, hs'⟩ := List.ne_and_not_mem_of_not_mem_cons hs
    rw [returnsBefore]
    split
    · next hfeed =>
      obtain rfl := beq_iff_eq.1 hfeed
      split
      · rw [List.cons_append, List.cons_append, List.nil_append, plainLines_return_newline,
          ih _ hs']
      · rw [List.cons_append, List.nil_append, plainLines_newline, ih _ hs']
    · rw [plainLines_cons fun hr => absurd hr.symm hc, ih _ hs']

/-- Chosen carriage returns at line ends are taken away again. -/
theorem plainLines_toList_withReturns (chosen : Nat → Bool) {text : String}
    (htext : '\r' ∉ text.toList) :
    plainLines (withReturns chosen text).toList = plainLines text.toList := by
  rw [withReturns, String.toList_ofList, plainLines_returnsBefore chosen htext,
    plainLines_of_return_not_mem htext]

/-! ## Texts with the same plain lines -/

section

variable {stdout stdout' stderr stderr' : String}
  (hout : plainLines stdout'.toList = plainLines stdout.toList)
  (herr : plainLines stderr'.toList = plainLines stderr.toList)

include hout

/-- Outputs that agree but for their line ends give the same report. -/
theorem ofOutput_congr : ofOutput stdout' = ofOutput stdout := by
  rw [ofOutput, ofOutput, hout]

include herr

/-- They have the same lines. -/
theorem outputLines_congr :
    RunError.outputLines stdout' stderr' = RunError.outputLines stdout stderr := by
  rw [RunError.outputLines, RunError.outputLines, List.map_append, List.map_append,
    ← map_trim_lines_plainLines stdout.toList, ← map_trim_lines_plainLines stderr.toList, ← hout,
    ← herr, map_trim_lines_plainLines, map_trim_lines_plainLines]

/-- They give the same error. -/
theorem runError_congr :
    RunError.ofOutput? stdout' stderr' = RunError.ofOutput? stdout stderr := by
  rw [RunError.ofOutput?, RunError.ofOutput?, outputLines_congr hout herr]

/-- Wherever the texts come from, the answer to a request for a summary is the same. -/
theorem reportOutcome_congr {disk disk' : Disk} {stdin stdin' : String}
    {file file' error error' : Option String} {format : Format}
    (hfile : reportText disk stdin file = .ok stdout)
    (herror : reportText disk "" error = .ok stderr)
    (hfile' : reportText disk' stdin' file' = .ok stdout')
    (herror' : reportText disk' "" error' = .ok stderr') :
    reportOutcome disk' stdin' file' error' format =
      reportOutcome disk stdin file error format := by
  simp only [reportOutcome, hfile, herror, hfile', herror', ofOutput_congr hout,
    runError_congr hout herr]

end

/-- Carriage returns before any of the line feeds of what the verifier printed change neither the
report nor the error, and so neither the success nor the answer to a request for a summary with its
exit status. -/
theorem report_ignores_returns {stdout stderr : String} (hout : '\r' ∉ stdout.toList)
    (herr : '\r' ∉ stderr.toList) (chosen chosen' : Nat → Bool) :
    ofOutput (withReturns chosen stdout) = ofOutput stdout ∧
      RunError.ofOutput? (withReturns chosen stdout) (withReturns chosen' stderr) =
        RunError.ofOutput? stdout stderr ∧
      (ofOutput (withReturns chosen stdout)).isSuccess = (ofOutput stdout).isSuccess ∧
      ∀ (disk disk' : Disk) (stdin stdin' : String) (file file' error error' : Option String)
        (format : Format),
        reportText disk stdin file = .ok stdout → reportText disk "" error = .ok stderr →
          reportText disk' stdin' file' = .ok (withReturns chosen stdout) →
            reportText disk' "" error' = .ok (withReturns chosen' stderr) →
              reportOutcome disk' stdin' file' error' format =
                reportOutcome disk stdin file error format := by
  have hlines := plainLines_toList_withReturns chosen hout
  have hlines' := plainLines_toList_withReturns chosen' herr
  have hreport : ofOutput (withReturns chosen stdout) = ofOutput stdout := ofOutput_congr hlines
  refine ⟨hreport, runError_congr hlines hlines', by rw [hreport], ?_⟩
  intro disk disk' stdin stdin' file file' error error' format
  exact reportOutcome_congr hlines hlines'

/-- Every other line of a failed run ends with a carriage return: the header and one of the two line
feeds between paragraphs among them. -/
theorem report_ignores_returns_mixed :
    let stdout := "RESULTS:\nCheck 1: a\n - Status: FAILURE\n\nVERIFICATION:- FAILED\n"
    let mixed := "RESULTS:\r\nCheck 1: a\n - Status: FAILURE\r\n\nVERIFICATION:- FAILED\r\n"
    '\r' ∉ stdout.toList ∧ '\r' ∉ "error\n".toList ∧
      withReturns (fun n => n % 2 == 0) stdout = mixed ∧
      ofOutput mixed = ofOutput stdout ∧ (ofOutput mixed).checks.length = 1 ∧
      RunError.ofOutput? mixed "error\r\n" = RunError.ofOutput? stdout "error\n" := by
  intro stdout mixed
  have hout : '\r' ∉ stdout.toList := by decide +kernel
  have herr : '\r' ∉ "error\n".toList := by decide +kernel
  have hmixed : withReturns (fun n => n % 2 == 0) stdout = mixed := by decide +kernel
  have herror : withReturns (fun _ => true) "error\n" = "error\r\n" := by decide +kernel
  obtain ⟨hreport, hrunError, -, -⟩ :=
    report_ignores_returns hout herr (fun n => n % 2 == 0) fun _ => true
  rw [hmixed] at hreport hrunError
  rw [herror] at hrunError
  refine ⟨hout, herr, hmixed, hreport, ?_, hrunError⟩
  decide +kernel

end ProofHarness.Report
