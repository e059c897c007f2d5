import ProofHarness.Proofs.Attribute.BareProof
import ProofHarness.Proofs.Harness.Arguments
import ProofHarness.Proofs.Harness.Bundling
import ProofHarness.Proofs.Harness.Record

/-!
# Attributes that are not recorded

A harness does not record the attributes that mark a proof and say nothing else.  What it records
about stubs, and the arguments that are worked out from what it records, are those of all attributes
of its run, if there are no comments in these (`bare_marks_not_missed`).
-/

set_option autoImplicit false

namespace ProofHarness.Harness

open Attribute Syntax

variable {siblings : List Node} {j k : Nat} {g : Segment} {h : Harness}

/-- No attribute among the siblings has a comment in it. -/
def CommentFree (siblings : List Node) : Prop :=
  ∀ n ∈ siblings, n.isAttribute = true → commentFree n.text = true

/-- The nodes of a run are siblings. -/
theorem mem_of_mem_run {n : Node} (hn : n ∈ run siblings k j) : n ∈ siblings :=
  List.mem_of_mem_take (List.mem_of_mem_drop hn)

/-- Where the siblings have no comments in attributes, the run has none. -/
theorem commentFree_of_mem_runTexts (hfree : CommentFree siblings) {text : String}
    (htext : text ∈ runTexts (run siblings k j)) : commentFree text = true := by
  obtain ⟨n, hn, rfl⟩ := List.mem_map.1 htext
  obtain ⟨hrun, hkept⟩ := List.mem_filter.1 hn
  rw [Bool.and_eq_true] at hkept
  exact hfree n (mem_of_mem_run hrun) hkept.1

/-- A stub is recorded if some attribute that is stored asks for it. -/
theorem Records.hasStub_iff (hr : Records siblings k j g h) (hfree : CommentFree siblings) :
    h.flags.hasStub = true ↔ ∃ text ∈ h.attributes, Directive.stub ∈ directives text := by
  rw [hr.hasStub, ← mem_flatMap_runTexts_iff, List.mem_flatMap, hr.attributes, ← filter_runTexts]
  constructor
  · rintro ⟨text, htext, hstub⟩
    refine ⟨text, List.mem_filter.2 ⟨htext, ?_⟩, hstub⟩
    rw [Bool.not_eq_true', Bool.eq_false_iff]
    intro hbare
    have hfree := commentFree_of_mem_runTexts hfree htext
    rcases eq_of_mem_directives_of_isBareProof hbare hfree hstub with heq | heq <;> cases heq
  · rintro ⟨text, htext, hstub⟩
    exact ⟨text, List.mem_of_mem_filter htext, hstub⟩

/-- The attributes that are stored give the arguments of all of the run. -/
theorem Records.ofAttributes_eq (hr : Records siblings k j g h) (hfree : CommentFree siblings) :
    Arguments.ofAttributes h.attributes = Arguments.ofAttributes (runTexts (run siblings k j)) := by
  rw [hr.attributes, ← filter_runTexts]
  apply Arguments.ofAttributes_filter
  intro text htext hbare d hd
  have hfree := commentFree_of_mem_runTexts hfree htext
  rcases eq_of_mem_directives_of_isBareProof (by simpa using hbare) hfree hd with rfl | rfl <;>
    exact ⟨rfl, rfl⟩

/-- Each harness among siblings without comments in their attributes has a stub if one of the
attributes that it records asks for one, and these give the same arguments as all attributes of its
run that concern the verifier, bare marks of a proof included. -/
theorem bare_marks_not_missed (hfree : CommentFree siblings) :
    ofSiblings siblings = (List.range siblings.length).filterMap (at? siblings) ∧
      ∀ j h, at? siblings j = some h → ∃ k, IsFirstMark siblings j k ∧
        (h.flags.hasStub = true ↔ ∃ text ∈ h.attributes, Directive.stub ∈ directives text) ∧
        Arguments.ofAttributes h.attributes =
          Arguments.ofAttributes (runTexts (run siblings k j)) := by
  refine ⟨ofSiblings_eq_filterMap siblings, fun j h hat => ?_⟩
  obtain ⟨f, g, k, -, -, -, hfirst, hr⟩ := at?_eq_some_iff.1 hat
  exact ⟨k, hfirst, hr.hasStub_iff hfree, hr.ofAttributes_eq hfree⟩

/-- Two bare marks, one of them with blanks in its path. -/
theorem bare_marks_not_missed_twice :
    let siblings := [saying "#[kani::proof]".toList, saying "#[ kani:: proof ]".toList,
      saying "#[kani::stub(a, b)]".toList, saying "#[kani::unwind(3)]".toList, someFunction]
    CommentFree siblings ∧
      (∃ h, at? siblings 4 = some h ∧ h.attributes = ["#[kani::stub(a, b)]", "#[kani::unwind(3)]"] ∧
        h.flags.hasStub = true) ∧
      ∀ h, at? siblings 4 = some h →
        ∃ k, IsFirstMark siblings 4 k ∧ Arguments.ofAttributes h.attributes =
          Arguments.ofAttributes (runTexts (run siblings k 4)) := by
  intro siblings
  have hfree : CommentFree siblings := by
    unfold CommentFree
    decide +kernel
  refine ⟨hfree, ⟨_, rfl, by decide +kernel, by decide +kernel⟩, fun h hat => ?_⟩
  obtain ⟨k, hfirst, -, harguments⟩ := (bare_marks_not_missed hfree).2 4 h hat
  exact ⟨k, hfirst, harguments⟩

end ProofHarness.Harness
