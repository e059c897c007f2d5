import ProofHarness.Proofs.Text.Occurrence

/-!
# Joined texts

Texts that are put together with a separator between them, and how they come apart again.  A text
is cut at the first or at the last occurrence of a character in one way only (`append_cons_inj`,
`append_cons_inj_of_last`).  Pieces in which the separator does not begin can therefore be read off
the text that they are joined to (`join_injective`), and so can the last piece if only that one is
known to be of this kind (`flatMap_append_inj`).
-/

set_option autoImplicit false

namespace ProofHarness.Text

variable {c : Char} {a a' b b' sep : List Char}

/-! ## Cutting at a character -/

/-- A text is cut at the first occurrence of a character in one way. -/
theorem append_cons_inj (ha : c ∉ a) (ha' : c ∉ a') :
    a ++ c :: b = a' ++ c :: b' ↔ a = a' ∧ b = b' := by
  constructor
  · intro h
    have hcut : splitOnce [c] (a ++ c :: b) = some (a, b) := splitOnce_append_cons ha
    rw [h, splitOnce_append_cons ha', Option.some.injEq, Prod.mk.injEq] at hcut
    exact ⟨hcut.1.symm, hcut.2.symm⟩
  · rintro ⟨rfl, rfl⟩
    rfl

/-- So it is at the last one. -/
theorem append_cons_inj_of_last (hb : c ∉ b) (hb' : c ∉ b') :
    a ++ c :: b = a' ++ c :: b' ↔ a = a' ∧ b = b' := by
  have hbackwards : b.reverse ++ c :: a.reverse = b'.reverse ++ c :: a'.reverse ↔
      b.reverse = b'.reverse ∧ a.reverse = a'.reverse :=
    append_cons_inj (mt List.mem_reverse.1 hb) (mt List.mem_reverse.1 hb')
  rw [← List.reverse_inj, List.reverse_append, List.reverse_append, List.reverse_cons,
    List.reverse_cons, List.append_assoc, List.append_assoc, List.singleton_append,
    List.singleton_append, hbackwards, List.reverse_inj, List.reverse_inj, and_comm]

/-- A word that ends with a character and does not have it elsewhere stands at the end of a stretch
without that character, or after it. -/
theorem contains_concat_append_cons {q : List Char} (hq : c ∉ q) (ha : c ∉ a)
    (h : contains (q ++ [c]) (a ++ c :: b) = true) :
    q <:+ a ∨ contains (q ++ [c]) b = true := by
  obtain ⟨x, y, hxy⟩ := contains_iff.1 h
  have hcut : a ++ c :: b = x ++ q ++ c :: y := by rw [hxy]; simp
  by_cases hx : c ∈ x
  · obtain ⟨x₁, x₂, rfl, hx₁⟩ := List.eq_append_cons_of_mem hx
    rw [List.append_assoc, List.append_assoc, List.cons_append, append_cons_inj ha hx₁] at hcut
    exact .inr (contains_iff.2 ⟨x₂, y, by simp [hcut.2]⟩)
  · rw [append_cons_inj ha (by simp [hx, hq])] at hcut
    exact .inl ⟨x, hcut.1.symm⟩

/-- Such a word is not in joined pieces if no piece but the last one ends like it. -/
theorem contains_concat_join_eq_false {q : List Char} (hq : c ∉ q) {pieces : List (List Char)}
    (hpieces : ∀ s ∈ pieces, c ∉ s) (hends : ∀ s ∈ pieces.dropLast, ¬ q <:+ s) :
    contains (q ++ [c]) (join [c] pieces) = false := by
  have hlast : c ∈ q ++ [c] := List.mem_concat_self
  induction pieces with
  | nil => exact contains_eq_false_of_not_mem hlast List.not_mem_nil
  | cons s rest ih =>
    obtain ⟨hs, hpieces⟩ := List.forall_mem_cons.1 hpieces
    cases rest with
    | nil => exact contains_eq_false_of_not_mem hlast hs
    | cons t rest =>
      rw [List.dropLast_cons_cons] at hends
      obtain ⟨hend, hends⟩ := List.forall_mem_cons.1 hends
      rw [join, List.append_assoc, List.singleton_append, Bool.eq_false_iff]
      intro h
      rcases contains_concat_append_cons hq hs h with hsuffix | hlater
      · exact hend hsuffix
      · rw [ih hpieces hends] at hlater
        cases hlater

/-! ## Joining -/

/-- The first piece has a separator after it if there are more. -/
theorem join_cons_of_ne_nil {pieces : List (List Char)} (h : pieces ≠ []) (s sep : List Char) :
    join sep (s :: pieces) = s ++ sep ++ join sep pieces := by
  cases pieces with
  | nil => exact absurd rfl h
  | cons t rest => rfl

/-- In front of each piece after the first stands a separator. -/
theorem join_cons_eq_append_flatMap (sep s : List Char) (pieces : List (List Char)) :
    join sep (s :: pieces) = s ++ pieces.flatMap (sep ++ ·) := by
  induction pieces generalizing s with
  | nil => simp [join]
  | cons t rest ih =>
    rw [join, ih, List.flatMap_cons]
    simp only [List.append_assoc]

/-- Pieces that are not empty make no empty text. -/
theorem join_ne_nil {pieces : List (List Char)} (hne : pieces ≠ []) (h : ∀ s ∈ pieces, s ≠ [])
    (sep : List Char) : join sep pieces ≠ [] := by
  cases pieces with
  | nil => exact absurd rfl hne
  | cons s rest =>
    have hs : s ≠ [] := h s List.mem_cons_self
    cases rest with
    | nil => exact hs
    | cons t rest => simp [join, hs]

/-- In front of the last piece each piece stands with a separator after it. -/
theorem join_append_singleton (sep : List Char) (pieces : List (List Char)) (s : List Char) :
    join sep (pieces ++ [s]) = pieces.flatMap (· ++ sep) ++ s := by
  induction pieces with
  | nil => rfl
  | cons t rest ih =>
    rw [List.cons_append, join_cons_of_ne_nil (by simp), ih, List.flatMap_cons]
    simp only [List.append_assoc]

/-- With a separator after the last piece, too, each piece has one. -/
theorem flatMap_append_eq_join {pieces : List (List Char)} (h : pieces ≠ []) (sep : List Char) :
    pieces.flatMap (· ++ sep) = join sep pieces ++ sep := by
  rcases List.eq_nil_or_concat pieces with hnil | ⟨rest, s, rfl⟩
  · exact absurd hnil h
  · rw [List.concat_eq_append, List.flatMap_append, List.flatMap_singleton, join_append_singleton,
      List.append_assoc]

/-! ## Splitting at a character -/

variable {d : Char}

/-- A separator ends the piece before it, and any other character belongs to the piece after it. -/
theorem splitOn_cons (c : Char) (s : List Char) :
    splitOn [d] (c :: s) =
      if c = d then [] :: splitOn [d] s else extendFirst c (splitOn [d] s) := by
  show splitFrom [d] 0 (c :: s) = _
  rw [splitFrom]
  by_cases h : c = d
  · subst h
    simp [splitOn]
  · simp [splitOn, h, Ne.symm h]

/-- There is always a piece, even if it is empty. -/
theorem splitOn_ne_nil (s : List Char) : splitOn [d] s ≠ [] := by
  induction s with
  | nil => simp [splitOn, splitFrom]
  | cons c s ih =>
    rw [splitOn_cons]
    split
    · simp
    · cases h : splitOn [d] s with
      | nil => exact absurd h ih
      | cons piece pieces => simp [extendFirst]

/-- A text without a separator is one piece. -/
theorem splitOn_of_not_mem {s : List Char} (hs : d ∉ s) : splitOn [d] s = [s] := by
  induction s with
  | nil => rfl
  | cons c s ih =>
    obtain ⟨hc, hs'⟩ := List.ne_and_not_mem_of_not_mem_cons hs
    rw [splitOn_cons, if_neg (Ne.symm hc), ih hs']
    rfl

/-- The pieces of two texts on the sides of a separator. -/
theorem splitOn_append_cons (s t : List Char) :
    splitOn [d] (s ++ d :: t) = splitOn [d] s ++ splitOn [d] t := by
  induction s with
  | nil =>
    rw [List.nil_append, splitOn_cons, if_pos rfl]
    rfl
  | cons c s ih =>
    rw [List.cons_append, splitOn_cons, splitOn_cons, ih]
    split
    · rfl
    · cases h : splitOn [d] s with
      | nil => exact absurd h (splitOn_ne_nil s)
      | cons piece pieces => rfl

/-- What stands in front of the first piece stands in front of the joined text. -/
theorem join_append_cons (sep s t : List Char) (pieces : List (List Char)) :
    join sep ((s ++ t) :: pieces) = s ++ join sep (t :: pieces) := by
  cases pieces with
  | nil => rfl
  | cons u rest => rw [join, join, List.append_assoc, List.append_assoc, List.append_assoc]

/-- Splitting a text, rewriting its pieces character by character and joining them with something
else rewrites the text character by character. -/
theorem join_map_splitOn (sep : List Char) (f : Char → List Char) (s : List Char) :
    join sep ((splitOn [d] s).map (List.flatMap f)) =
      s.flatMap fun c => if c = d then sep else f c := by
  induction s with
  | nil => rfl
  | cons c s ih =>
    rw [splitOn_cons, List.flatMap_cons, ← ih]
    split
    · have hrest : (splitOn [d] s).map (List.flatMap f) ≠ [] := by simp [splitOn_ne_nil]
      rw [List.map_cons, join_cons_of_ne_nil hrest]
      rfl
    · cases h : splitOn [d] s with
      | nil => exact absurd h (splitOn_ne_nil s)
      | cons piece pieces =>
        rw [extendFirst, List.map_cons, List.flatMap_cons, join_append_cons, List.map_cons]

/-! ## Taking joined texts apart -/

/-- The last piece is known from the text if the end of the separator does not stand in it, whatever
the other pieces are. -/
theorem flatMap_append_inj {pieces pieces' : List (List Char)} (hb : c ∉ b) (hb' : c ∉ b') :
    pieces.flatMap (· ++ (sep ++ [c])) ++ b = pieces'.flatMap (· ++ (sep ++ [c])) ++ b' ↔
      pieces.flatMap (· ++ (sep ++ [c])) = pieces'.flatMap (· ++ (sep ++ [c])) ∧ b = b' := by
  have hend : ∀ ps : List (List Char), ps.flatMap (· ++ (sep ++ [c])) = [] ∨
      ∃ x, ps.flatMap (· ++ (sep ++ [c])) = x ++ [c] := by
    intro ps
    by_cases h : ps = []
    · exact .inl (by rw [h]; rfl)
    · exact .inr ⟨join (sep ++ [c]) ps ++ sep, by rw [flatMap_append_eq_join h, List.append_assoc]⟩
  rcases hend pieces with h | ⟨x, h⟩ <;> rcases hend pieces' with h' | ⟨x', h'⟩
  · simp [h, h']
  · -- Only the second text has a separator, and with it a character that is not in the first.
    rw [h, h', List.nil_append, List.append_assoc, List.singleton_append]
    constructor
    · rintro rfl
      simp at hb
    · simp
  · rw [h, h', List.nil_append, List.append_assoc, List.singleton_append]
    constructor
    · rintro rfl
      simp at hb'
    · simp
  · rw [h, h', List.append_assoc, List.append_assoc, List.singleton_append, List.singleton_append,
      append_cons_inj_of_last hb hb', List.append_left_inj]

/-- Pieces in which the separator does not begin are known from the text. -/
theorem join_injective {pieces pieces' : List (List Char)} (hne : pieces ≠ [])
    (hne' : pieces' ≠ []) (h : ∀ s ∈ pieces, c ∉ s) (h' : ∀ s ∈ pieces', c ∉ s)
    (hjoin : join (c :: sep) pieces = join (c :: sep) pieces') : pieces = pieces' := by
  have hcons : ∀ {s : List Char} {ps : List (List Char)}, ps ≠ [] →
      join (c :: sep) (s :: ps) = s ++ c :: (sep ++ join (c :: sep) ps) := by
    intro s ps hps
    rw [join_cons_of_ne_nil hps, List.append_assoc, List.cons_append]
  induction pieces generalizing pieces' with
  | nil => exact absurd rfl hne
  | cons s rest ih =>
    cases pieces' with
    | nil => exact absurd rfl hne'
    | cons s' rest' =>
      obtain ⟨hs, hrest⟩ := List.forall_mem_cons.1 h
      obtain ⟨hs', hrest'⟩ := List.forall_mem_cons.1 h'
      by_cases hnil : rest = [] <;> by_cases hnil' : rest' = []
      · subst hnil hnil'
        rw [join, join] at hjoin
        rw [hjoin]
      · -- A single piece has no separator in it.
        subst hnil
        rw [hcons hnil', join] at hjoin
        simp [hjoin] at hs
      · subst hnil'
        rw [hcons hnil, join] at hjoin
        simp [← hjoin] at hs'
      · rw [hcons hnil, hcons hnil', append_cons_inj hs hs', List.append_right_inj] at hjoin
        rw [hjoin.1, ih hnil hnil' hrest hrest' hjoin.2]

end ProofHarness.Text
