import ProofHarness.Text.Search

/-!
# Occurrences of a word

A word does not occur across a character that is not in it (`contains_append_cons`), so that
whether it occurs in a composed text is a question about the parts.  The first occurrence of a word
that cannot overlap itself is where it was put (`splitOnce_append_of_unbordered`); a word whose
first character does not come again in it is one of them (`splitOnce_append_of_fresh`).
-/

set_option autoImplicit false

namespace ProofHarness.Text

variable {p a b : List Char} {c : Char}

/-- A word that occurs in a part of a text occurs in the text. -/
theorem contains_of_isInfix (hab : a <:+: b) (h : contains p a = true) :
    contains p b = true := by
  obtain ⟨x, y, rfl⟩ := contains_iff.1 h
  obtain ⟨u, v, rfl⟩ := hab
  rw [contains_iff]
  exact ⟨u ++ x, y ++ v, by simp only [List.append_assoc]⟩

/-- What is not in a text is not in a part of it. -/
theorem contains_eq_false_of_isInfix (hab : a <:+: b) (h : contains p b = false) :
    contains p a = false := by
  cases ha : contains p a with
  | false => rfl
  | true => rw [contains_of_isInfix hab ha] at h; cases h

/-- A word that occurs in a text still does when other characters than its own are left out. -/
theorem contains_filter {keep : Char → Bool} (hp : ∀ c ∈ p, keep c = true)
    (h : contains p a = true) : contains p (a.filter keep) = true := by
  obtain ⟨x, y, rfl⟩ := contains_iff.1 h
  rw [List.filter_append, List.filter_append, List.filter_eq_self.2 hp, contains_iff]
  exact ⟨x.filter keep, y.filter keep, rfl⟩

/-- Where a word occurs, so does its beginning. -/
theorem contains_eq_false_append {q : List Char} (h : contains p a = false) :
    contains (p ++ q) a = false := by
  rw [Bool.eq_false_iff]
  intro hpq
  obtain ⟨x, y, rfl⟩ := contains_iff.1 hpq
  rw [contains_iff.2 ⟨x, q ++ y, by simp only [List.append_assoc]⟩] at h
  cases h

/-- A word occurs on one side of a character that is not in it, or not at all. -/
theorem contains_append_cons (hc : c ∉ p) :
    contains p (a ++ c :: b) = (contains p a || contains p b) := by
  rw [Bool.eq_iff_iff, Bool.or_eq_true]
  constructor
  · intro h
    obtain ⟨x, y, hxy⟩ := contains_iff.1 h
    -- An occurrence that reaches over the character would have it in the word.
    rw [List.append_assoc, List.append_eq_append_iff] at hxy
    rcases hxy with ⟨z, rfl, hz⟩ | ⟨z, rfl, hz⟩
    · cases z with
      | nil =>
        cases p with
        | nil => exact .inl (contains_iff.2 ⟨[], a, rfl⟩)
        | cons d ds =>
          rw [List.nil_append, List.cons_append, List.cons.injEq] at hz
          exact absurd (hz.1 ▸ List.mem_cons_self) hc
      | cons d ds =>
        rw [List.cons_append, List.cons.injEq] at hz
        exact .inr (contains_iff.2 ⟨ds, y, by simp [hz.2]⟩)
    · rw [List.append_eq_append_iff] at hz
      rcases hz with ⟨u, rfl, hu⟩ | ⟨u, rfl, hu⟩
      · exact .inl (contains_iff.2 ⟨x, u, by simp⟩)
      · cases u with
        | nil => exact .inl (contains_iff.2 ⟨x, [], by simp⟩)
        | cons d ds =>
          rw [List.cons_append, List.cons.injEq] at hu
          exact absurd (by simp [hu.1]) hc
  · rintro (h | h)
    · exact contains_of_isInfix (List.infix_append' [] a (c :: b)) h
    · exact contains_of_isInfix ⟨a ++ [c], [], by simp⟩ h

/-- A word occurs in pieces with a character between them that is not in it only if it occurs in one
of them. -/
theorem contains_join_eq_false {pieces : List (List Char)} (hc : c ∉ p) (hp : p ≠ [])
    (h : ∀ s ∈ pieces, contains p s = false) : contains p (join [c] pieces) = false := by
  induction pieces with
  | nil =>
    cases p with
    | nil => exact absurd rfl hp
    | cons d ds => rfl
  | cons s rest ih =>
    obtain ⟨hs, hrest⟩ := List.forall_mem_cons.1 h
    cases rest with
    | nil => exact hs
    | cons t rest =>
      rw [join, List.append_assoc, List.singleton_append, contains_append_cons hc, hs,
        ih hrest]
      rfl

/-- A word does not occur where one of its characters does not. -/
theorem contains_eq_false_of_not_mem (hc : c ∈ p) (ha : c ∉ a) : contains p a = false := by
  rw [Bool.eq_false_iff]
  intro h
  obtain ⟨x, y, rfl⟩ := contains_iff.1 h
  exact ha (by simp [hc])

/-! ## Words that cannot overlap themselves -/

/-- No end of the word is a beginning of it, so that two occurrences cannot overlap. -/
def Unbordered (p : List Char) : Prop := ∀ k < p.length, 0 < k → ¬ p.drop k <+: p

instance (p : List Char) : Decidable (Unbordered p) :=
  inferInstanceAs (Decidable (∀ k < p.length, 0 < k → ¬ p.drop k <+: p))

/-- A word in which the first character does not come again does not overlap itself. -/
theorem unbordered_of_fresh {d : Char} {ds : List Char} (hd : d ∉ ds) : Unbordered (d :: ds) := by
  intro k hk hpos hborder
  cases k with
  | zero => omega
  | succ n =>
    rw [List.drop_succ_cons] at hborder
    cases hds : ds.drop n with
    | nil =>
      rw [List.drop_eq_nil_iff] at hds
      rw [List.length_cons] at hk
      omega
    | cons e es =>
      rw [hds, List.cons_prefix_cons] at hborder
      have he : e ∈ ds := List.mem_of_mem_drop (hds ▸ List.mem_cons_self)
      exact hd (hborder.1 ▸ he)

/-- A text that starts with the separator is cut at its start. -/
theorem splitOnce_of_stripPrefix {s r : List Char} (h : stripPrefix p s = some r) :
    splitOnce p s = some ([], r) := by
  cases s with
  | nil => rw [splitOnce, h]; rfl
  | cons c cs => rw [splitOnce, h]

/-- No word stands in front of its first occurrence. -/
theorem contains_eq_false_of_splitOnce (hp : p ≠ []) {s : List Char}
    (h : splitOnce p s = some (a, b)) : contains p a = false := by
  induction s generalizing a with
  | nil =>
    rw [splitOnce, Option.map_eq_some_iff] at h
    obtain ⟨r, hr, -⟩ := h
    exact absurd (List.append_eq_nil_iff.1 (stripPrefix_eq_some_iff.1 hr).symm).1 hp
  | cons c cs ih =>
    rw [splitOnce] at h
    split at h
    · obtain ⟨rfl, -⟩ := Prod.mk.inj (Option.some.inj h)
      rw [Bool.eq_false_iff]
      intro hnil
      obtain ⟨x, y, hxy⟩ := contains_iff.1 hnil
      simp [hp] at hxy
    · next hnone =>
      obtain ⟨sides, hsides, heq⟩ := Option.map_eq_some_iff.1 h
      obtain ⟨rfl, rfl⟩ := Prod.mk.inj heq
      have hcs := splitOnce_eq_some hsides
      rw [Bool.eq_false_iff]
      intro hmem
      obtain ⟨x, y, hxy⟩ := contains_iff.1 hmem
      -- An occurrence at the first character would have been found; a later one is in `cs`.
      cases x with
      | nil =>
        have hhere : stripPrefix p (c :: cs) = some (y ++ (p ++ sides.2)) := by
          rw [stripPrefix_eq_some_iff, hcs, ← List.cons_append, ← List.cons_append, hxy]
          simp
        rw [hnone] at hhere
        cases hhere
      | cons d ds =>
        rw [List.cons_append, List.cons_append, List.cons.injEq] at hxy
        have hlater := ih hsides
        rw [hxy.2, contains_iff.2 ⟨ds, y, rfl⟩] at hlater
        cases hlater

/-- The first occurrence of a word that cannot overlap itself, after a text that does not hold
it. -/
theorem splitOnce_append_of_unbordered (hp : Unbordered p) (ha : contains p a = false) :
    splitOnce p (a ++ (p ++ b)) = some (a, b) := by
  induction a with
  | nil => exact splitOnce_of_stripPrefix (stripPrefix_eq_some_iff.2 rfl)
  | cons c cs ih =>
    have hnone : stripPrefix p (c :: cs ++ (p ++ b)) = none := by
      rw [Option.eq_none_iff_forall_ne_some]
      intro r hr
      have heq := stripPrefix_eq_some_iff.1 hr
      rw [List.append_eq_append_iff] at heq
      rcases heq with ⟨u, hu, hr⟩ | ⟨u, hu, -⟩
      · -- The end `u` of an occurrence in front would be a beginning of the one that follows it.
        have hlength := congrArg List.length hu
        rw [List.length_append, List.length_cons] at hlength
        have hborder : u <+: p :=
          List.prefix_of_prefix_length_le ⟨r, hr.symm⟩ (List.prefix_append p b) (by omega)
        by_cases hend : u = []
        · rw [hend, List.append_nil] at hu
          rw [← hu, contains_iff.2 ⟨[], [], by simp⟩] at ha
          cases ha
        · have hpos := List.length_pos_iff.2 hend
          have hdrop : p.drop (cs.length + 1) = u := by
            rw [hu]
            exact List.drop_left' rfl
          exact hp (cs.length + 1) (by omega) (by omega) (hdrop ▸ hborder)
      · rw [hu, contains_iff.2 ⟨[], u, by simp⟩] at ha
        cases ha
    have hcs : contains p cs = false :=
      contains_eq_false_of_isInfix (List.infix_cons List.infix_rfl) ha
    rw [List.cons_append] at hnone ⊢
    rw [splitOnce, hnone, ih hcs]
    rfl

/-- The first occurrence of a word whose first character does not come again in it, after a text
that does not hold it. -/
theorem splitOnce_append_of_fresh {d : Char} {ds : List Char} (hd : d ∉ ds)
    (ha : contains (d :: ds) a = false) :
    splitOnce (d :: ds) (a ++ ((d :: ds) ++ b)) = some (a, b) :=
  splitOnce_append_of_unbordered (unbordered_of_fresh hd) ha

/-- The sides of the first occurrence of a character. -/
theorem splitOnce_append_cons (h : c ∉ a) : splitOnce [c] (a ++ c :: b) = some (a, b) :=
  splitOnce_append_of_fresh List.not_mem_nil
    (contains_eq_false_of_not_mem List.mem_cons_self h)

/-! ## Words whose first character does not come again -/

section Fresh

variable {d : Char} {ds : List Char}

/-- A word does not begin in a text that does not have its first character. -/
theorem contains_append_of_not_mem (hd : d ∉ a) (b : List Char) :
    contains (d :: ds) (a ++ b) = contains (d :: ds) b := by
  rw [Bool.eq_iff_iff]
  constructor
  · intro h
    obtain ⟨x, y, hxy⟩ := contains_iff.1 h
    rw [List.append_assoc, List.append_eq_append_iff] at hxy
    rcases hxy with ⟨z, rfl, hz⟩ | ⟨z, rfl, hz⟩
    · exact contains_iff.2 ⟨z, y, by rw [hz, List.append_assoc]⟩
    · cases z with
      | nil => exact contains_iff.2 ⟨[], y, by simpa using hz.symm⟩
      | cons e es =>
        rw [List.cons_append, List.cons_append, List.cons.injEq] at hz
        exact absurd (by simp [hz.1]) hd
  · exact contains_of_isInfix (List.suffix_append a b).isInfix

/-- A word whose first character does not come again in it does not reach from a text to that
character after it. -/
theorem prefix_of_prefix_append_cons (hd : d ∉ ds) (ha : a ≠ []) (h : d :: ds <+: a ++ d :: b) :
    d :: ds <+: a := by
  cases a with
  | nil => exact absurd rfl ha
  | cons e es =>
    rw [List.cons_append, List.cons_prefix_cons] at h
    rw [List.cons_prefix_cons]
    refine ⟨h.1, ?_⟩
    rcases List.prefix_or_prefix_of_prefix h.2 (List.prefix_append es (d :: b)) with hes | ⟨u, rfl⟩
    · exact hes
    · cases u with
      | nil => simp
      | cons f fs =>
        obtain ⟨r, hr⟩ := h.2
        rw [List.append_assoc, List.append_cancel_left_eq, List.cons_append, List.cons.injEq] at hr
        exact absurd (by simp [hr.1]) hd

/-- Such a word stands in a text before its first character, there, or after it. -/
theorem contains_append_cons_of_fresh (hd : d ∉ ds) (a b : List Char) :
    contains (d :: ds) (a ++ d :: b) =
      (contains (d :: ds) a || (ds.isPrefixOf b || contains (d :: ds) b)) := by
  rw [Bool.eq_iff_iff, Bool.or_eq_true, Bool.or_eq_true, List.isPrefixOf_iff_prefix]
  constructor
  · intro h
    obtain ⟨x, y, hxy⟩ := contains_iff.1 h
    rw [List.append_assoc, List.append_eq_append_iff] at hxy
    rcases hxy with ⟨z, rfl, hz⟩ | ⟨z, rfl, hz⟩
    · cases z with
      | nil => exact .inr (.inl ⟨y, (List.cons.inj hz).2.symm⟩)
      | cons e es =>
        rw [List.cons_append, List.cons.injEq] at hz
        exact .inr (.inr (contains_iff.2 ⟨es, y, by rw [hz.2, List.append_assoc]⟩))
    · cases z with
      | nil => exact .inr (.inl ⟨y, (List.cons.inj hz).2⟩)
      | cons e es =>
        obtain ⟨r, hr⟩ := prefix_of_prefix_append_cons hd (List.cons_ne_nil e es) ⟨y, hz⟩
        exact .inl (contains_iff.2 ⟨x, r, by rw [List.append_assoc, hr]⟩)
  · rintro (h | ⟨r, rfl⟩ | h)
    · exact contains_of_isInfix (List.prefix_append a (d :: b)).isInfix h
    · exact contains_iff.2 ⟨a, r, by simp⟩
    · exact contains_of_isInfix ⟨a ++ [d], [], by simp⟩ h

end Fresh

end ProofHarness.Text
