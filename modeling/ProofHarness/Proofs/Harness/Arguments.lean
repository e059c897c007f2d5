import ProofHarness.Harness.Basic
import ProofHarness.Proofs.Attribute.Bundled
import ProofHarness.Proofs.LastWrite

/-!
# Arguments

Of the bounds and of the solvers that attributes ask for the last one counts, each on its own
(`ofDirectives_eq`).  So attributes that ask for neither do not matter (`ofAttributes_filter`),
later attributes come before earlier ones, and a conditional attribute says what those that it
bundles say as attributes of their own (`ofAttributes_last_counts`).
-/

set_option autoImplicit false

namespace ProofHarness

open Attribute

/-- The bound that a directive gives. -/
def Attribute.Directive.bound? : Directive → Option UnwindBound
  | .unwind bound => some bound
  | _ => none

/-- The solver that a directive chooses. -/
def Attribute.Directive.choice? : Directive → Option String
  | .solver choice => some choice
  | _ => none

namespace Arguments

/-! ## The last directive counts -/

/-- Of the bounds the last one counts, and of the solvers the last one. -/
theorem ofDirectives_eq (ds : List Directive) : ofDirectives ds =
    ⟨(ds.filterMap Directive.bound?).getLast?, (ds.filterMap Directive.choice?).getLast?⟩ := by
  have hunwind := foldl_last_write Arguments.unwind update Directive.bound?
    (fun a d => by cases d <;> rfl) ds empty
  have hsolver := foldl_last_write Arguments.solver update Directive.choice?
    (fun a d => by cases d <;> rfl) ds empty
  rw [empty, Option.or_none] at hunwind hsolver
  rw [ofDirectives, empty, ← hunwind, ← hsolver]

/-! ## Attributes -/

variable {texts parts : List String} {text : String}

/-- Attributes that ask for nothing of a kind are not missed when it is looked for. -/
theorem filterMap_flatMap_filter {β : Type} {keep : String → Bool} {write : Directive → Option β}
    (h : ∀ text ∈ texts, keep text = false → ∀ d ∈ directives text, write d = none) :
    ((texts.filter keep).flatMap directives).filterMap write =
      (texts.flatMap directives).filterMap write := by
  induction texts with
  | nil => rfl
  | cons text texts ih =>
    obtain ⟨htext, htexts⟩ := List.forall_mem_cons.1 h
    rw [List.flatMap_cons, List.filterMap_append]
    cases hkeep : keep text with
    | true =>
      rw [List.filter_cons_of_pos hkeep, List.flatMap_cons, List.filterMap_append, ih htexts]
    | false =>
      rw [List.filter_cons_of_neg (by simp [hkeep]), ih htexts,
        List.filterMap_eq_nil_iff.2 (htext hkeep), List.nil_append]

/-- Attributes that ask for no bound and no solver do not matter. -/
theorem ofAttributes_filter {keep : String → Bool}
    (h : ∀ text ∈ texts, keep text = false →
      ∀ d ∈ directives text, d.bound? = none ∧ d.choice? = none) :
    ofAttributes (texts.filter keep) = ofAttributes texts := by
  rw [ofAttributes, ofAttributes, ofDirectives_eq, ofDirectives_eq,
    filterMap_flatMap_filter fun text ht hk d hd => (h text ht hk d hd).1,
    filterMap_flatMap_filter fun text ht hk d hd => (h text ht hk d hd).2]

/-- What comes later counts before what comes earlier, for the bound and the solver each. -/
theorem ofAttributes_append (xs ys : List String) : ofAttributes (xs ++ ys) =
    ⟨(ofAttributes ys).unwind.or (ofAttributes xs).unwind,
      (ofAttributes ys).solver.or (ofAttributes xs).solver⟩ := by
  simp only [ofAttributes, ofDirectives_eq, List.flatMap_append, List.filterMap_append,
    List.getLast?_append]

/-- What is bundled asks for the same as attributes of its own. -/
theorem directives_eq_flatMap (h : bundled? text = some parts) :
    directives text = parts.flatMap directives := by
  have halone : ∀ part ∈ parts, directives part = [Directive.ofText part] := fun part hpart =>
    directives_of_bundled?_eq_none (bundled?_of_mem_bundled? h hpart)
  rw [directives_of_bundled?_eq_some h, List.flatMap_congr halone, ← List.map_eq_flatMap]

/-- Later attributes come before earlier ones, for the bound and for the solver apart; of all
directives, those that conditional attributes bundle put in their place, the last one of a kind
counts, also if it gives no number; and a conditional attribute says what the directives that it
bundles say as attributes of their own. -/
theorem ofAttributes_last_counts :
    (∀ xs ys : List String, ofAttributes (xs ++ ys) =
      ⟨(ofAttributes ys).unwind.or (ofAttributes xs).unwind,
        (ofAttributes ys).solver.or (ofAttributes xs).solver⟩) ∧
      (∀ xs : List String, ofAttributes xs =
        ⟨((xs.flatMap directives).filterMap Directive.bound?).getLast?,
          ((xs.flatMap directives).filterMap Directive.choice?).getLast?⟩) ∧
      ∀ (text : String) (parts : List String), bundled? text = some parts →
        ofAttributes [text] = ofAttributes parts := by
  refine ⟨ofAttributes_append, fun xs => ofDirectives_eq _, fun text parts h => ?_⟩
  rw [ofAttributes, ofAttributes, List.flatMap_singleton, directives_eq_flatMap h]

/-- A conditional attribute within another one is not taken apart: it counts as one directive, for
whose bound there is no number. -/
theorem ofAttributes_last_counts_nested :
    bundled? "#[cfg_attr(kani, kani::unwind(2), cfg_attr(test, kani::unwind(x)))]" =
        some ["kani::unwind(2)", "cfg_attr(test,kani::unwind(x))"] ∧
      ofAttributes ["#[cfg_attr(kani, kani::unwind(2), cfg_attr(test, kani::unwind(x)))]"] =
        ⟨some .unspecified, none⟩ := by
  have hbundled : bundled? "#[cfg_attr(kani, kani::unwind(2), cfg_attr(test, kani::unwind(x)))]" =
      some ["kani::unwind(2)", "cfg_attr(test,kani::unwind(x))"] := by decide +kernel
  refine ⟨hbundled, ?_⟩
  rw [ofAttributes_last_counts.2.2 _ _ hbundled]
  decide +kernel

end Arguments

end ProofHarness
