/-!
# Stable sorting

Sorting puts a list in order and leaves elements that it does not tell apart in the order in which
they were (`filter_mergeSort`).  No other list does both (`eq_of_ordered_of_ties`).
-/

set_option autoImplicit false

namespace ProofHarness

variable {α : Type} {le : α → α → Bool} {accepts : α → Bool}

/-- Elements that come neither before nor after each other stay in their order. -/
theorem filter_mergeSort (trans : ∀ a b c, le a b = true → le b c = true → le a c = true)
    (total : ∀ a b, (le a b || le b a) = true)
    (halike : ∀ a b, accepts a = true → accepts b = true → le a b = true) (l : List α) :
    (l.mergeSort le).filter accepts = l.filter accepts := by
  have hordered : (l.filter accepts).Pairwise fun a b => le a b = true := by
    rw [List.pairwise_filter]
    exact List.pairwise_of_forall halike
  have hsublist : (l.filter accepts).Sublist (l.mergeSort le) :=
    List.sublist_mergeSort trans total hordered List.filter_sublist
  have hfilter : (l.filter accepts).Sublist ((l.mergeSort le).filter accepts) := by
    have h := hsublist.filter accepts
    rwa [List.filter_filter, List.filter_congr fun a _ => Bool.and_self (accepts a)] at h
  have hlength : ((l.mergeSort le).filter accepts).length = (l.filter accepts).length :=
    ((List.mergeSort_perm l le).filter accepts).length_eq
  exact (hfilter.eq_of_length hlength.symm).symm

/-- Lists that for each key have the same elements have the same elements. -/
theorem mem_iff_of_ties {key : α → Nat} {l m : List α}
    (hties : ∀ k, (l.filter fun a => key a == k) = m.filter fun a => key a == k) (a : α) :
    a ∈ l ↔ a ∈ m := by
  have hkey : ∀ l : List α, a ∈ l.filter (fun b => key b == key a) ↔ a ∈ l := by
    intro l
    rw [List.mem_filter, beq_self_eq_true]
    exact and_iff_left rfl
  rw [← hkey l, hties, hkey m]

/-- Two lists in the order of a key are the same if for each key they have the same elements in the
same order. -/
theorem eq_of_ordered_of_ties {key : α → Nat} {l m : List α}
    (hl : l.Pairwise fun a b => key a ≤ key b) (hm : m.Pairwise fun a b => key a ≤ key b)
    (hties : ∀ k, (l.filter fun a => key a == k) = m.filter fun a => key a == k) : l = m := by
  induction l generalizing m with
  | nil =>
    cases m with
    | nil => rfl
    | cons b bs => cases (mem_iff_of_ties hties b).2 List.mem_cons_self
  | cons a as ih =>
    cases m with
    | nil => cases (mem_iff_of_ties hties a).1 List.mem_cons_self
    | cons b bs =>
      obtain ⟨hafter, has⟩ := List.pairwise_cons.1 hl
      obtain ⟨hbehind, hbs⟩ := List.pairwise_cons.1 hm
      -- Both first elements have the least key, so that they are first among its elements.
      have hab : key a ≤ key b := by
        rcases List.mem_cons.1 ((mem_iff_of_ties hties b).2 List.mem_cons_self) with rfl | hb
        · exact Nat.le_refl _
        · exact hafter b hb
      have hba : key b ≤ key a := by
        rcases List.mem_cons.1 ((mem_iff_of_ties hties a).1 List.mem_cons_self) with rfl | ha
        · exact Nat.le_refl _
        · exact hbehind a ha
      have hkey : key a = key b := Nat.le_antisymm hab hba
      have hfirst := hties (key b)
      rw [List.filter_cons_of_pos (by simp [hkey]), List.filter_cons_of_pos (by simp),
        List.cons.injEq] at hfirst
      obtain ⟨rfl, -⟩ := hfirst
      have hrest : ∀ k, (as.filter fun c => key c == k) = bs.filter fun c => key c == k := by
        intro k
        have hk := hties k
        rw [List.filter_cons, List.filter_cons] at hk
        split at hk
        · exact (List.cons.inj hk).2
        · exact hk
      rw [ih has hbs hrest]

end ProofHarness
