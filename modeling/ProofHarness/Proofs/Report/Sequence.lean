import ProofHarness.Proofs.Report.RoundTrip

/-!
# Several printouts in one output

A name may stand for several harnesses, and the verifier then prints one after the other.  The
report of such an output has the checks of the first and the verdict of the last
(`ofOutput_printed`), which decides what can be hidden by it (`nothingHidden_iff`): nothing if there
is one printout only.
-/

set_option autoImplicit false

namespace ProofHarness.Report

open Text

/-- What is printed of several harnesses. -/
def printed (outputs : List Printout) : List Char := join ['\n'] (outputs.map Printout.text)

/-- Each of several printouts has a verdict, and its parts are lines of their own. -/
def Complete (outputs : List Printout) : Prop := ∀ p ∈ outputs, p.Framed ∧ p.verdict.isSome = true

/-- No check of a printout failed, or has a status that is not known, and its verdict is not
against it. -/
def Printout.Passes (p : Printout) : Prop :=
  (∀ e ∈ p.entries, Status.ofString e.status = .success) ∧ p.verdict ≠ some .failed

instance (p : Printout) : Decidable p.Passes :=
  inferInstanceAs (Decidable ((∀ e ∈ p.entries, Status.ofString e.status = .success) ∧ _))

instance (outputs : List Printout) : Decidable (Complete outputs) :=
  inferInstanceAs (Decidable (∀ p ∈ outputs, _))

/-- A report lets no failure pass. -/
structure NothingHidden (r : Report) (outputs : List Printout) : Prop where
  success : r.isSuccess = true → ∀ p ∈ outputs, p.Passes
  failures : ∀ p ∈ outputs, ∀ e ∈ p.entries, e.asRead.isFailure = true → e.asRead ∈ r.failedChecks

/-! ## Success -/

/-- A report is a success if each check is and the verdict is not against it. -/
theorem isSuccess_ofChecks_iff (checks : List Check) (verdict : Option Verdict) :
    (ofChecks checks verdict).isSuccess = true ↔
      (∀ c ∈ checks, c.status = .success) ∧ verdict ≠ some .failed := by
  have hstatus : ∀ c : Check, c.status = .success ↔
      c.isFailure = false ∧ c.unknownWord?.isSome = false := by
    intro c
    rw [Check.isFailure, Check.unknownWord?]
    cases c.status <;> simp
  simp only [isSuccess, ofChecks, failedChecks, hasUnknownStatus, Bool.and_eq_true,
    List.isEmpty_iff, List.filter_eq_nil_iff, Bool.not_eq_true', List.any_eq_false, bne_iff_ne,
    Bool.not_eq_true, hstatus]
  constructor
  · rintro ⟨⟨hfailure, hknown⟩, hverdict⟩
    exact ⟨fun c hc => ⟨hfailure c hc, hknown c hc⟩, hverdict⟩
  · rintro ⟨h, hverdict⟩
    exact ⟨⟨fun c hc => (h c hc).1, fun c hc => (h c hc).2⟩, hverdict⟩

/-- A report is a success exactly if all its checks are, and the verdict is not a failure. -/
theorem isSuccess_asRead_iff (entries : List Entry) (verdict : Option Verdict) :
    (ofChecks (entries.map Entry.asRead) verdict).isSuccess = true ↔
      (∀ e ∈ entries, Status.ofString e.status = .success) ∧ verdict ≠ some .failed := by
  rw [isSuccess_ofChecks_iff, List.forall_mem_map]
  rfl

/-! ## The report of several printouts -/

/-- The verdict that counts is that of the last printout. -/
theorem lastVerdict_printed {outputs : List Printout} (h : Complete outputs) :
    lastVerdict (printed outputs) = outputs.getLast?.bind Printout.verdict := by
  induction outputs with
  | nil => rfl
  | cons p rest ih =>
    obtain ⟨⟨hp, -⟩, hrest⟩ := List.forall_mem_cons.1 h
    cases rest with
    | nil => exact Printout.lastVerdict_text hp
    | cons q qs =>
      have hprinted : printed (p :: q :: qs) = p.text ++ '\n' :: printed (q :: qs) := by
        simp [printed, join]
      -- The last printout has a verdict, so that those of the others are not looked for.
      have hsome : ((q :: qs).getLast?.bind Printout.verdict).isSome = true := by
        rw [List.getLast?_eq_some_getLast (List.cons_ne_nil q qs), Option.bind_some]
        exact (hrest _ (List.getLast_mem _)).2
      rw [hprinted, lastVerdict_append_newline, ih hrest, Option.or_of_isSome hsome,
        List.getLast?_cons_cons]

/-- The checks that count are those of the first printout. -/
theorem checksOf_printed {first : Printout} (hfirst : first.Framed) (hplain : first.IsPlain)
    (rest : List Printout) :
    checksOf (printed (first :: rest)) =
      if first.entries = [] then first.stray?.toList else first.entries.map Entry.asRead := by
  cases rest with
  | nil => exact Printout.checksOf_upToSummary hfirst hplain _
  | cons q qs =>
    have hprinted : printed (first :: q :: qs) =
        first.upToSummary ++ (first.afterSummary ++ '\n' :: printed (q :: qs)) := by
      simp [printed, join, Printout.text]
    rw [hprinted, Printout.checksOf_upToSummary hfirst hplain]

/-- The checks are those of the first printout, and the verdict is that of the last. -/
theorem ofOutput_printed {first : Printout} {rest : List Printout} (h : Complete (first :: rest))
    (hplain : first.IsPlain) (hstray : first.entries = [] → first.stray? = none) :
    ofOutput (String.ofList (printed (first :: rest))) =
      ofChecks (first.entries.map Entry.asRead)
        ((first :: rest).getLast?.bind Printout.verdict) := by
  rw [ofOutput_ofList, lastVerdict_printed h,
    checksOf_printed (h first List.mem_cons_self).1 hplain rest]
  by_cases hempty : first.entries = []
  · rw [if_pos hempty, hstray hempty, hempty]
    rfl
  · rw [if_neg hempty]

/-- Nothing is hidden by a report just if the later printouts have no failures to hide: a success of
the checks of the first and of the last verdict is one of all, and each failed check of the others
is printed in the first too. -/
theorem nothingHidden_iff (first : Printout) (rest : List Printout)
    (h : Complete (first :: rest)) (hplain : first.IsPlain)
    (hstray : first.entries = [] → first.stray? = none) :
    NothingHidden (ofOutput (String.ofList (printed (first :: rest)))) (first :: rest) ↔
      ((∀ e ∈ first.entries, Status.ofString e.status = .success) →
        (first :: rest).getLast?.bind Printout.verdict ≠ some .failed →
        ∀ p ∈ first :: rest, p.Passes) ∧
      ∀ p ∈ rest, ∀ e ∈ p.entries, e.asRead.isFailure = true →
        e.asRead ∈ first.entries.map Entry.asRead := by
  rw [ofOutput_printed h hplain hstray]
  -- The report has the checks of the first printout only.
  have hfailed : ∀ c : Check, c.isFailure = true →
      (c ∈ (ofChecks (first.entries.map Entry.asRead)
        ((first :: rest).getLast?.bind Printout.verdict)).failedChecks ↔
          c ∈ first.entries.map Entry.asRead) := by
    intro c hc
    rw [failedChecks, ofChecks, List.mem_filter, hc, eq_self_iff_true, and_true]
  constructor
  · intro hnothing
    refine ⟨fun hchecks hverdict => ?_, fun p hp e he hf => ?_⟩
    · exact hnothing.success ((isSuccess_asRead_iff _ _).2 ⟨hchecks, hverdict⟩)
    · exact (hfailed _ hf).1 (hnothing.failures p (List.mem_cons_of_mem first hp) e he hf)
  · rintro ⟨hsuccess, hrest⟩
    refine ⟨fun hreport => ?_, fun p hp e he hf => (hfailed _ hf).2 ?_⟩
    · obtain ⟨hchecks, hverdict⟩ := (isSuccess_asRead_iff _ _).1 hreport
      exact hsuccess hchecks hverdict
    · rcases List.mem_cons.1 hp with rfl | hp
      · exact List.mem_map_of_mem he
      · exact hrest p hp e he hf

/-- What is printed of a harness with one check. -/
def single (property status : String) (verdict : Verdict) : Printout where
  preamble := ""
  entries := [⟨1, property, status, "sum", "src/lib.rs:3:5"⟩]
  summary := ""
  verdict := some verdict
  rest := ""

/-- A harness that fails and one that passes. -/
def failPass : List Printout := [single "a.1" "FAILURE" .failed, single "b.1" "SUCCESS" .successful]

/-- A harness that fails between two that pass. -/
def passFailPass : List Printout :=
  [single "a.1" "SUCCESS" .successful, single "b.1" "FAILURE" .failed,
    single "c.1" "SUCCESS" .successful]

/-- The first of these hides nothing: the harness that fails is the one that is read. -/
theorem nothingHidden_failPass :
    Complete failPass ∧ (single "a.1" "FAILURE" .failed).IsPlain ∧
      NothingHidden (ofOutput (String.ofList (printed failPass))) failPass := by
  have hcomplete : Complete failPass := by decide
  have hplain : (single "a.1" "FAILURE" .failed).IsPlain := by decide
  refine ⟨hcomplete, hplain, ?_⟩
  exact (nothingHidden_iff _ _ hcomplete hplain (by decide)).2 (by decide)

/-- A harness that fails between two that pass is hidden by them. -/
theorem not_nothingHidden_passFailPass :
    Complete passFailPass ∧ (∀ p ∈ passFailPass, p.IsPlain) ∧
      (ofOutput (String.ofList (printed passFailPass))).isSuccess = true ∧
      ¬ NothingHidden (ofOutput (String.ofList (printed passFailPass))) passFailPass := by
  have hcomplete : Complete passFailPass := by decide
  have hsuccess : (ofOutput (String.ofList (printed passFailPass))).isSuccess = true := by
    rw [passFailPass, ofOutput_printed hcomplete (by decide) (by decide)]
    decide
  refine ⟨hcomplete, by decide, hsuccess, ?_⟩
  intro h
  have hpasses : (single "b.1" "FAILURE" .failed).Passes := h.success hsuccess _ (by decide)
  exact absurd hpasses (by decide)

end ProofHarness.Report
