import Mathlib.Data.List.Basic

/-!
# Loops in which the last write counts

A loop over a list of which each step writes a field anew or leaves it as it is ends with what was
written last (`foldl_last_write`).  That is what the last element that writes anything has to say
(`getLast?_filterMap_eq_bind`).
-/

set_option autoImplicit false

namespace ProofHarness

variable {σ δ β : Type}

/-- What each step writes or leaves as it is was written last. -/
theorem foldl_last_write (field : σ → Option β) (step : σ → δ → σ) (write : δ → Option β)
    (hstep : ∀ s d, field (step s d) = (write d).or (field s)) (ds : List δ) (s : σ) :
    field (ds.foldl step s) = (ds.filterMap write).getLast?.or (field s) := by
  induction ds generalizing s with
  | nil => rfl
  | cons d ds ih =>
    rw [List.foldl_cons, ih, hstep]
    cases hd : write d with
    | none => rw [List.filterMap_cons_none hd, Option.none_or]
    | some b =>
      rw [List.filterMap_cons_some hd, List.getLast?_cons, Option.some_or]
      cases (ds.filterMap write).getLast? <;> rfl

/-- The last thing written is what the last element that writes has to say. -/
theorem getLast?_filterMap_eq_bind (write : δ → Option β) (ds : List δ) :
    (ds.filterMap write).getLast? =
      (ds.filter fun d => (write d).isSome).getLast?.bind write := by
  have hsome : (ds.filterMap write).map some = (ds.filter fun d => (write d).isSome).map write := by
    rw [List.map_filterMap_some_eq_filter_map_isSome, List.filter_map]
    rfl
  have hlast := congrArg List.getLast? hsome
  rw [List.getLast?_map, List.getLast?_map] at hlast
  calc (ds.filterMap write).getLast?
      = ((ds.filterMap write).getLast?.map some).bind id := by
        cases (ds.filterMap write).getLast? <;> rfl
    _ = ((ds.filter fun d => (write d).isSome).getLast?.map write).bind id := by rw [hlast]
    _ = (ds.filter fun d => (write d).isSome).getLast?.bind write := Option.bind_map

end ProofHarness
