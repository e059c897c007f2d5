import ProofHarness.Proofs.Scan.RowOrder

/-!
# What normalizing does to any records

Normalizing puts harnesses into the order of their rows and then parts them: those whose line stands
in the row of their name are kept, and get the arguments that their attributes give; for each of the
others there is a difference that says what stands there instead (`Separates`).  Nothing is assumed
of the harnesses: they need not come from the text, and rows may lie past its end.  As an order by
rows that keeps ties is unique (`InRowOrder.eq`), only the order among harnesses of one row matters
of the order in which they are given (`normalize_partitions`).
-/

set_option autoImplicit false

namespace ProofHarness

namespace Harness

/-- The line of a harness stands in the row of its name. -/
def StandsInRow (text : String) (h : Harness) : Prop :=
  h.line = Text.lineNumbered text h.stop.row

instance (text : String) (h : Harness) : Decidable (h.StandsInRow text) :=
  inferInstanceAs (Decidable (h.line = Text.lineNumbered text h.stop.row))

end Harness

/-- Of harnesses in order those whose line stands in its row are kept, with the arguments of their
attributes and otherwise as they are; for each of the others there is a difference. -/
structure Normalized.Separates (result : Normalized) (text : String) (ordered : List Harness) :
    Prop where
  harnesses : result.harnesses = (ordered.filter fun h => decide (h.StandsInRow text)).map
    fun h => { h with arguments := .ofAttributes h.attributes }
  desyncs : result.desyncs = (ordered.filter fun h => !decide (h.StandsInRow text)).map
    fun h => ⟨h.name, h.stop.row, h.line, Text.lineNumbered text h.stop.row⟩

namespace Harness

/-- A harness fits if it stands in its row. -/
theorem fits_trimmedLines (text : String) (h : Harness) :
    h.fits (Text.trimmedLines text) = decide (h.StandsInRow text) := by
  rw [Bool.eq_iff_iff, fits, foundLine_trimmedLines, beq_iff_eq, decide_eq_true_iff, StandsInRow,
    eq_comm]

/-- The differences are those of the harnesses that do not fit. -/
theorem filterMap_desync? (rows : Array String) (hs : List Harness) :
    hs.filterMap (desync? rows) = (hs.filter fun h => !h.fits rows).map (toDesync rows) := by
  induction hs with
  | nil => rfl
  | cons h hs ih =>
    rw [List.filterMap_cons, List.filter_cons, desync?]
    cases h.fits rows with
    | true => simpa using ih
    | false => simpa using ih

/-- The order that is found does not depend on the order among harnesses of different rows. -/
theorem mergeSort_congr {hs hs' : List Harness}
    (hties : ∀ row, (hs'.filter fun h => h.stop.row == row) =
      hs.filter fun h => h.stop.row == row) : hs'.mergeSort rowLe = hs.mergeSort rowLe := by
  have hordered' := inRowOrder_mergeSort hs'
  have hsame : InRowOrder hs (hs'.mergeSort rowLe) :=
    ⟨hordered'.rows, fun row => (hordered'.ties row).trans (hties row)⟩
  exact hsame.eq (inRowOrder_mergeSort hs)

end Harness

/-- The normal form separates the harnesses that stand in their rows from the others. -/
theorem separates_normalize (text : String) (hs : List Harness) :
    (normalize text hs).Separates text (hs.mergeSort Harness.rowLe) := by
  have hfits : (Harness.fits (Text.trimmedLines text) ∘ Harness.withArguments) =
      fun h => decide (h.StandsInRow text) := by
    funext h
    rw [Function.comp_apply, Harness.fits_withArguments, Harness.fits_trimmedLines]
  have hunfit : ((fun h => !Harness.fits (Text.trimmedLines text) h) ∘ Harness.withArguments) =
      fun h => !decide (h.StandsInRow text) := by
    funext h
    rw [← congrFun hfits h]
    rfl
  have hharnesses : (normalize text hs).harnesses =
      ((hs.mergeSort Harness.rowLe).map Harness.withArguments).filter
        (Harness.fits (Text.trimmedLines text)) := rfl
  have hdesyncs : (normalize text hs).desyncs =
      ((hs.mergeSort Harness.rowLe).map Harness.withArguments).filterMap
        (Harness.desync? (Text.trimmedLines text)) := rfl
  constructor
  · rw [hharnesses, List.filter_map, hfits]
    rfl
  · rw [hdesyncs, Harness.filterMap_desync?, List.filter_map, hunfit, List.map_map]
    apply List.map_congr_left
    intro h _
    rw [Function.comp_apply, Harness.toDesync, Harness.foundLine_trimmedLines]
    rfl

/-- No harness is lost: each is kept or has a difference. -/
theorem Normalized.Separates.length_eq {result : Normalized} {text : String}
    {ordered : List Harness} (h : result.Separates text ordered) :
    result.harnesses.length + result.desyncs.length = ordered.length := by
  rw [h.harnesses, h.desyncs, List.length_map, List.length_map]
  exact (List.length_eq_length_filter_add _).symm

/-- Normalizing is sorting by rows, with ties in the order in which they are given, and parting what
is sorted into harnesses whose line stands in its row and differences for the others.  None is lost,
all that are kept fit the text, and harnesses given in another order that is the same within each
row give the same. -/
theorem normalize_partitions (text : String) (hs : List Harness) :
    (∃ ordered, Harness.InRowOrder hs ordered ∧ (normalize text hs).Separates text ordered) ∧
      (normalize text hs).harnesses.length + (normalize text hs).desyncs.length = hs.length ∧
      AllFit text (normalize text hs).harnesses ∧
      ∀ hs' : List Harness,
        (∀ row, (hs'.filter fun h => h.stop.row == row) =
          hs.filter fun h => h.stop.row == row) →
        normalize text hs' = normalize text hs := by
  have hseparates := separates_normalize text hs
  refine ⟨⟨_, Harness.inRowOrder_mergeSort hs, hseparates⟩, ?_, allFit_normalize text hs, ?_⟩
  · rw [hseparates.length_eq, List.length_mergeSort]
  · intro hs' hties
    rw [normalize, normalize, Harness.mergeSort_congr hties]

end ProofHarness
