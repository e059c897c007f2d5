import ProofHarness.Proofs.Text.Occurrence
import ProofHarness.Proofs.Text.Trim

/-!
# Words in trimmed texts

Trimming takes nothing from a word that begins and ends with a character that is no blank, whatever
stands inside it.  Such a word is in a text just if it is in the trimmed text (`contains_trim`), and
what stands on its two sides there is what stands there in the text, trimmed at the far ends
(`splitOnce_trim_append`).
-/

set_option autoImplicit false

namespace ProofHarness.Text

variable {p a b : List Char} {c : Char}

/-- The word is not empty and has no blank at its ends. -/
structure IsSolid (p : List Char) : Prop where
  first : p.head?.map isBlank = some false
  last : p.getLast?.map isBlank = some false

instance (p : List Char) : Decidable (IsSolid p) :=
  decidable_of_iff (p.head?.map isBlank = some false ∧ p.getLast?.map isBlank = some false)
    ⟨fun h => ⟨h.1, h.2⟩, fun h => ⟨h.first, h.last⟩⟩

namespace IsSolid

/-- A solid text starts with no blank. -/
theorem exists_eq_cons (hp : IsSolid p) : ∃ d ds, p = d :: ds ∧ isBlank d = false := by
  obtain ⟨d, hd, hblank⟩ := Option.map_eq_some_iff.1 hp.first
  obtain ⟨ds, hds⟩ := List.head?_eq_some_iff.1 hd
  exact ⟨d, ds, hds, hblank⟩

/-- It does not end with one. -/
theorem exists_eq_append (hp : IsSolid p) : ∃ q e, p = q ++ [e] ∧ isBlank e = false := by
  obtain ⟨e, he, hblank⟩ := Option.map_eq_some_iff.1 hp.last
  obtain ⟨q, hq⟩ := List.getLast?_eq_some_iff.1 he
  exact ⟨q, e, hq, hblank⟩

end IsSolid

/-- Trimming stops at a solid word from both sides. -/
theorem trim_append_of_isSolid (hp : IsSolid p) (a b : List Char) :
    trim (a ++ (p ++ b)) = trimStart a ++ (p ++ trimEnd b) := by
  have hstart : trimStart (a ++ (p ++ b)) = trimStart a ++ (p ++ b) := by
    obtain ⟨d, ds, rfl, hd⟩ := hp.exists_eq_cons
    rw [List.cons_append]
    exact trimStart_append_cons hd a (ds ++ b)
  obtain ⟨q, e, rfl, he⟩ := hp.exists_eq_append
  rw [trim, hstart]
  simpa only [List.append_assoc, List.singleton_append] using
    trimEnd_append_cons he (trimStart a ++ q) b

/-- A word does not end in a text that does not have its last character. -/
theorem contains_append_of_last_not_mem {q : List Char} (hb : c ∉ b) (a : List Char) :
    contains (q ++ [c]) (a ++ b) = contains (q ++ [c]) a := by
  rw [Bool.eq_iff_iff]
  constructor
  · intro h
    obtain ⟨x, y, hxy⟩ := contains_iff.1 h
    rw [List.append_eq_append_iff] at hxy
    rcases hxy with ⟨u, hu, hy⟩ | ⟨u, rfl, -⟩
    · rcases List.eq_nil_or_concat u with rfl | ⟨v, e, rfl⟩
      · exact contains_iff.2 ⟨x, [], by simpa using hu.symm⟩
      · rw [List.concat_eq_append, ← List.append_assoc, ← List.append_assoc] at hu
        have hlast : c = e := (List.append_inj' hu rfl).2 |> List.singleton_inj.1
        exact absurd (by simp [hy, hlast]) hb
    · exact contains_iff.2 ⟨x, u, rfl⟩
  · exact contains_of_isInfix (List.prefix_append a b).isInfix

/-- It occurs in a text without the blanks around that text exactly if it does with them. -/
theorem contains_trim (hp : IsSolid p) (s : List Char) : contains p (trim s) = contains p s := by
  obtain ⟨front, back, hfront, hback, hs⟩ := exists_trim_append s
  have hend : contains p (trim s ++ back) = contains p (trim s) := by
    obtain ⟨q, e, rfl, he⟩ := hp.exists_eq_append
    exact contains_append_of_last_not_mem (not_mem_of_forall_isBlank hback he) (trim s)
  obtain ⟨d, ds, rfl, hd⟩ := hp.exists_eq_cons
  rw [← hend, ← contains_append_of_not_mem (not_mem_of_forall_isBlank hfront hd), hs]

/-- The sides of the first occurrence in a trimmed text. -/
theorem splitOnce_trim_append (hp : IsSolid p) (hborder : Unbordered p)
    (ha : contains p a = false) (b : List Char) :
    splitOnce p (trim (a ++ (p ++ b))) = some (trimStart a, trimEnd b) := by
  have hstart : contains p (trimStart a) = false :=
    contains_eq_false_of_isInfix (List.dropWhile_suffix _).isInfix ha
  rw [trim_append_of_isSolid hp, splitOnce_append_of_unbordered hborder hstart]

end ProofHarness.Text
