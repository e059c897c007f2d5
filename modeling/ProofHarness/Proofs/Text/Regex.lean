import ProofHarness.Text.Regex

/-!
# What a regular expression matches

What items take of a text is told by what stands in front of it and behind it (`Takes`), for the
anchors look at these.  The row of items is filled in for all places at once, but what stands in it
for one place depends on that place only (`row_cons`), and is whether the items take something from
there on (`matchesAt_iff`).  So a search finds a stretch that the items take, wherever it is
(`isMatch_iff`).

An escaped character is read as this character, whatever comes after it
(`signs?_escapeChar_append`).
-/

set_option autoImplicit false

namespace ProofHarness.Text.Regex

variable {items : List Item} {a : Atom} {before taken after s : List Char}

/-- The items take a stretch of a text, one after the other, with `before` in front of the stretch
and `after` behind it. -/
inductive Takes : List Item → List Char → List Char → List Char → Prop
  | nil {before after : List Char} : Takes [] before [] after
  | start {items : List Item} {taken after : List Char} (hrest : Takes items [] taken after) :
    Takes (.start :: items) [] taken after
  | stop {items : List Item} {before : List Char} (hrest : Takes items before [] []) :
    Takes (.stop :: items) before [] []
  | one {items : List Item} {a : Atom} {c : Char} {before taken after : List Char}
    (hc : a.accepts c = true) (hrest : Takes items (before ++ [c]) taken after) :
    Takes (.one a :: items) before (c :: taken) after
  | many {items : List Item} {a : Atom} {x before taken after : List Char}
    (hx : ∀ c ∈ x, a.accepts c = true) (hrest : Takes items (before ++ x) taken after) :
    Takes (.many a :: items) before (x ++ taken) after

/-- Whether the items match from a place on, which is the start of the text if `first` holds. -/
def matchesAt (items : List Item) (first : Bool) (s : List Char) : Bool :=
  (row items first s).headD false

/-- At the end of a text there is one place. -/
theorem row_nil (items : List Item) (first : Bool) :
    row items first [] = [matchesAt items first []] := by
  rw [matchesAt]
  induction items with
  | nil => rfl
  | cons item items ih =>
    cases item with
    | start | stop | one | many =>
      rw [row, ih]
      rfl

/-- The row of the places of a text is what its start has, and then the row of the places after its
first character. -/
theorem row_cons (items : List Item) (first : Bool) (c : Char) (cs : List Char) :
    row items first (c :: cs) = matchesAt items first (c :: cs) :: row items false cs := by
  rw [matchesAt]
  induction items with
  | nil => rfl
  | cons item items ih =>
    cases item with
    | start =>
      rw [row, row, ih]
      cases row items false cs <;> simp [startRow]
    | stop | one | many =>
      rw [row, row, ih]
      rfl

/-! ## One item -/

/-- The start of the text is at its first place only. -/
theorem matchesAt_start (first : Bool) (s : List Char) :
    matchesAt (.start :: items) first s = (first && matchesAt items first s) := by
  rw [matchesAt, matchesAt, row]
  cases row items first s with
  | nil => simp [startRow]
  | cons here later => rfl

/-- The end of the text is where nothing more comes. -/
theorem matchesAt_stop (first : Bool) (s : List Char) :
    matchesAt (.stop :: items) first s = (s.isEmpty && matchesAt items first s) := by
  cases s <;> rfl

/-- A character is taken, and the next items match from the place after it. -/
theorem matchesAt_one_cons (first : Bool) (c : Char) (cs : List Char) :
    matchesAt (.one a :: items) first (c :: cs) = (a.accepts c && matchesAt items false cs) := by
  rw [matchesAt, row, row_cons]
  rfl

/-- Any number of characters is none, or one and then again any number. -/
theorem matchesAt_many_cons (first : Bool) (c : Char) (cs : List Char) :
    matchesAt (.many a :: items) first (c :: cs) =
      (matchesAt items first (c :: cs) ||
        (a.accepts c && matchesAt (.many a :: items) false cs)) := by
  rw [matchesAt, row, row_cons, manyRow]
  rfl

/-- An empty text can be cut in one way. -/
theorem exists_cut_nil_iff {P : List Char → List Char → Prop} :
    (∃ x rest, [] = x ++ rest ∧ P x rest) ↔ P [] [] := by
  constructor
  · rintro ⟨x, rest, hs, h⟩
    obtain ⟨rfl, rfl⟩ := List.append_eq_nil_iff.1 hs.symm
    exact h
  · exact fun h => ⟨[], [], rfl, h⟩

/-- Another text can be cut at its start, or after its first character. -/
theorem exists_cut_cons_iff {P : List Char → List Char → Prop} {c : Char} {cs : List Char} :
    (∃ x rest, c :: cs = x ++ rest ∧ P x rest) ↔
      P [] (c :: cs) ∨ ∃ x rest, cs = x ++ rest ∧ P (c :: x) rest := by
  constructor
  · rintro ⟨x, rest, hs, h⟩
    obtain ⟨rfl, rfl⟩ | ⟨x, rfl, rfl⟩ := List.cons_eq_append_iff.1 hs
    · exact .inl h
    · exact .inr ⟨x, rest, rfl, h⟩
  · rintro (h | ⟨x, rest, rfl, h⟩)
    · exact ⟨[], c :: cs, rfl, h⟩
    · exact ⟨c :: x, rest, rfl, h⟩

/-- Any number of characters, and then what the next items match. -/
theorem matchesAt_many_iff :
    matchesAt (.many a :: items) before.isEmpty s = true ↔
      ∃ x rest, s = x ++ rest ∧ (∀ c ∈ x, a.accepts c = true) ∧
        matchesAt items (before ++ x).isEmpty rest = true := by
  -- Either the rest of the items matches here, or one more character is taken.
  induction s generalizing before with
  | nil =>
    have hsame : matchesAt (.many a :: items) before.isEmpty [] =
        matchesAt items before.isEmpty [] := rfl
    rw [hsame, exists_cut_nil_iff]
    simp
  | cons c cs ih =>
    have hlater : (before ++ [c]).isEmpty = false := by simp
    rw [matchesAt_many_cons, Bool.or_eq_true, Bool.and_eq_true, ← hlater, ih, exists_cut_cons_iff,
      List.append_nil]
    constructor
    · rintro (h | ⟨hc, x, rest, hcs, hx, h⟩)
      · exact .inl ⟨by simp, h⟩
      · exact .inr ⟨x, rest, hcs, List.forall_mem_cons.2 ⟨hc, hx⟩, by simpa using h⟩
    · rintro (⟨-, h⟩ | ⟨x, rest, hcs, hx, h⟩)
      · exact .inl h
      · obtain ⟨hc, hx⟩ := List.forall_mem_cons.1 hx
        exact .inr ⟨hc, x, rest, hcs, hx, by simpa using h⟩

/-! ## Searching -/

/-- Items match from a place on if they take what comes next up to some other place. -/
theorem matchesAt_iff :
    matchesAt items before.isEmpty s = true ↔
      ∃ taken after, s = taken ++ after ∧ Takes items before taken after := by
  -- On the items: the text in front grows by what an item takes, for the anchors look at it.
  induction items generalizing before s with
  | nil =>
    have htrue : matchesAt [] before.isEmpty s = true := by cases s <;> rfl
    exact iff_of_true htrue ⟨[], s, rfl, .nil⟩
  | cons item items ih =>
    cases item with
    | start =>
      rw [matchesAt_start, Bool.and_eq_true, List.isEmpty_iff, ih]
      constructor
      · rintro ⟨rfl, taken, after, rfl, h⟩
        exact ⟨taken, after, rfl, .start h⟩
      · rintro ⟨taken, after, rfl, h⟩
        cases h with
        | start hrest => exact ⟨rfl, taken, after, rfl, hrest⟩
    | stop =>
      rw [matchesAt_stop, Bool.and_eq_true, List.isEmpty_iff, ih]
      constructor
      · rintro ⟨rfl, taken, after, hs, h⟩
        obtain ⟨rfl, rfl⟩ := List.append_eq_nil_iff.1 hs.symm
        exact ⟨[], [], rfl, .stop h⟩
      · rintro ⟨taken, after, rfl, h⟩
        cases h with
        | stop hrest => exact ⟨rfl, [], [], rfl, hrest⟩
    | one a =>
      cases s with
      | nil =>
        have hfalse : matchesAt (.one a :: items) before.isEmpty [] = false := rfl
        rw [hfalse]
        refine iff_of_false Bool.false_ne_true ?_
        rintro ⟨taken, after, hs, h⟩
        obtain ⟨rfl, rfl⟩ := List.append_eq_nil_iff.1 hs.symm
        cases h
      | cons c cs =>
        have hlater : (before ++ [c]).isEmpty = false := by simp
        rw [matchesAt_one_cons, Bool.and_eq_true, ← hlater, ih]
        constructor
        · rintro ⟨hc, taken, after, rfl, h⟩
          exact ⟨c :: taken, after, rfl, .one hc h⟩
        · rintro ⟨taken, after, hs, h⟩
          cases h with
          | one hc hrest =>
            obtain ⟨rfl, rfl⟩ := List.cons.inj hs
            exact ⟨hc, _, after, rfl, hrest⟩
    | many a =>
      rw [matchesAt_many_iff]
      simp only [ih]
      constructor
      · rintro ⟨x, rest, rfl, hx, taken, after, rfl, h⟩
        exact ⟨x ++ taken, after, (List.append_assoc x taken after).symm, .many hx h⟩
      · rintro ⟨taken, after, rfl, h⟩
        cases h with
        | many hx hrest => exact ⟨_, _, List.append_assoc _ _ after, hx, _, after, rfl, hrest⟩

/-- Some place has a match if one comes after some characters. -/
theorem any_row_iff (before : List Char) :
    (row items before.isEmpty s).any id = true ↔
      ∃ x rest, s = x ++ rest ∧ matchesAt items (before ++ x).isEmpty rest = true := by
  -- On the text: a place of the row is the first one, or a place after its first character.
  induction s generalizing before with
  | nil =>
    rw [row_nil, List.any_cons, List.any_nil, Bool.or_false, exists_cut_nil_iff, List.append_nil]
    rfl
  | cons c cs ih =>
    have hcs := ih (before ++ [c])
    rw [List.isEmpty_eq_false_iff.2 (List.append_ne_nil_of_right_ne_nil before
      (List.cons_ne_nil c []))] at hcs
    rw [row_cons, List.any_cons, Bool.or_eq_true, hcs, exists_cut_cons_iff, List.append_nil]
    simp only [List.append_assoc, List.singleton_append]
    rfl

/-- An expression matches a text if its items take some stretch of it. -/
theorem isMatch_iff {r : Regex} :
    r.isMatch s = true ↔
      ∃ before taken after, s = before ++ (taken ++ after) ∧ Takes r.items before taken after := by
  have hsearch : (row r.items true s).any id = true ↔
      ∃ x rest, s = x ++ rest ∧ matchesAt r.items ([] ++ x).isEmpty rest = true := any_row_iff []
  rw [isMatch, hsearch]
  simp only [List.nil_append, matchesAt_iff]
  constructor
  · rintro ⟨before, rest, rfl, taken, after, rfl, h⟩
    exact ⟨before, taken, after, rfl, h⟩
  · rintro ⟨before, taken, after, rfl, h⟩
    exact ⟨before, taken ++ after, rfl, taken, after, rfl, h⟩

/-! ## Reading -/

/-- A character without a meaning of its own is a sign for itself. -/
theorem sign?_of_isMeta_eq_false {c : Char} (hc : isMeta c = false) :
    sign? c = some (.atom (.literal c)) := by
  have hne : ∀ d ∈ metaCharacters, c ≠ d := by
    rintro d hd rfl
    rw [isMeta, List.contains_iff_mem.2 hd] at hc
    cases hc
  simp only [metaCharacters, List.forall_mem_cons] at hne
  simp [sign?, hne]

/-- A sign that is written without a backslash. -/
theorem signs?_cons {c : Char} (hc : c ≠ '\\') (s : List Char) :
    signs? (c :: s) = (sign? c).bind fun sign => (signs? s).map fun signs => sign :: signs := by
  rw [signs?]
  intro d cs h
  exact absurd h hc

/-- An escaped character is a sign for itself. -/
theorem signs?_escapeChar_append (c : Char) (s : List Char) :
    signs? (escapeChar c ++ s) = (signs? s).map fun signs => .atom (.literal c) :: signs := by
  rw [escapeChar]
  cases hc : isMeta c with
  | true =>
    rw [if_pos rfl, List.cons_append, List.singleton_append, signs?, if_pos hc]
  | false =>
    have hne : c ≠ '\\' := by
      rintro rfl
      cases hc
    rw [if_neg Bool.false_ne_true, List.singleton_append, signs?_cons hne,
      sign?_of_isMeta_eq_false hc, Option.bind_some]

/-- A character with no star after it stands for one character. -/
theorem items?_atom_cons {signs : List Sign} (h : signs.head? ≠ some .star) :
    items? (.atom a :: signs) = (items? signs).map fun items => .one a :: items := by
  cases signs with
  | nil => rfl
  | cons sign signs =>
    cases sign with
    | star => exact absurd rfl h
    | start | stop | atom => rfl

end ProofHarness.Text.Regex
