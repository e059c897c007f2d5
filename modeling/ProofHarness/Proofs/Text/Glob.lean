import ProofHarness.Text.Glob
import ProofHarness.Proofs.Text.Join
import ProofHarness.Proofs.Text.Regex

/-!
# Which names a pattern matches

The regular expression of a pattern is read back character by character: a star of the pattern has
become any number of characters that are no line feeds, and another character itself
(`ofText?_expressionText`).  Since it has to match from the start of a name to its end, a name is
accepted if it is the pattern with texts in the places of its stars (`accepts_compile_iff`).  In
terms of the pieces between the stars, a name is accepted if it is these pieces with some texts
between them (`accepts_exact`).
-/

set_option autoImplicit false

namespace ProofHarness.Text

variable {q : Char} {p s : List Char} {fits : List Char → Bool}

/-! ## Patterns character by character -/

/-- The name is the pattern with texts in the places of its stars, none of them with a line feed. -/
inductive Matches : List Char → List Char → Prop
  | nil : Matches [] []
  | char {q : Char} {p s : List Char} (hq : q ≠ '*') (hrest : Matches p s) :
      Matches (q :: p) (q :: s)
  | star {x p s : List Char} (hx : '\n' ∉ x) (hrest : Matches p s) : Matches ('*' :: p) (x ++ s)

/-- The empty pattern matches the empty name. -/
theorem matches_nil_iff : Matches [] s ↔ s = [] := by
  constructor
  · rintro ⟨⟩
    rfl
  · rintro rfl
    exact .nil

/-- A character other than a star matches itself. -/
theorem matches_cons_iff (hq : q ≠ '*') : Matches (q :: p) s ↔ ∃ r, s = q :: r ∧ Matches p r := by
  constructor
  · intro h
    cases h with
    | char _ hrest => exact ⟨_, rfl, hrest⟩
    | star _ _ => exact absurd rfl hq
  · rintro ⟨r, rfl, hrest⟩
    exact .char hq hrest

/-- A star matches any text without a line feed. -/
theorem matches_star_iff :
    Matches ('*' :: p) s ↔ ∃ x r, s = x ++ r ∧ '\n' ∉ x ∧ Matches p r := by
  constructor
  · intro h
    cases h with
    | char hq _ => exact absurd rfl hq
    | star hx hrest => exact ⟨_, _, rfl, hx, hrest⟩
  · rintro ⟨x, r, rfl, hx, hrest⟩
    exact .star hx hrest

/-- What stands for a character of a pattern in its expression. -/
def globItem (q : Char) : Regex.Item := if q = '*' then .many .any else .one (.literal q)

/-- The expression that a pattern becomes: its characters between the two anchors. -/
def globRegex (p : List Char) : Regex := ⟨.start :: (p.map globItem ++ [.stop])⟩

/-- Escaping the pieces of a pattern escapes its characters one by one. -/
theorem expressionText_eq (p : List Char) : NamePattern.expressionText p =
    '^' :: (p.flatMap (fun q => if q = '*' then ['.', '*'] else Regex.escapeChar q) ++ ['$']) := by
  have hpieces : Regex.escape = List.flatMap Regex.escapeChar := rfl
  rw [NamePattern.expressionText, hpieces, join_map_splitOn]
  rfl

/-- The signs of an expression, character of the pattern by character. -/
theorem signs?_flatMap_append (p t : List Char) :
    Regex.signs?
        (p.flatMap (fun q => if q = '*' then ['.', '*'] else Regex.escapeChar q) ++ t) =
      (Regex.signs? t).map fun signs =>
        p.flatMap (fun q => if q = '*' then [.atom .any, .star] else [.atom (.literal q)]) ++
          signs := by
  induction p with
  | nil => simp
  | cons q p ih =>
    rw [List.flatMap_cons, List.append_assoc]
    by_cases hq : q = '*'
    · rw [if_pos hq, List.cons_append, List.singleton_append,
        Regex.signs?_cons (by decide), Regex.signs?_cons (by decide), ih]
      cases Regex.signs? t <;> simp [Regex.sign?, hq]
    · rw [if_neg hq, Regex.signs?_escapeChar_append, ih]
      cases Regex.signs? t <;> simp [hq]

/-- The items of these signs. -/
theorem items?_flatMap_append (p : List Char) {signs : List Regex.Sign}
    (hsigns : signs.head? ≠ some .star) :
    Regex.items?
        (p.flatMap (fun q => if q = '*' then [.atom .any, .star] else [.atom (.literal q)]) ++
          signs) =
      (Regex.items? signs).map fun items => p.map globItem ++ items := by
  induction p with
  | nil => simp
  | cons q p ih =>
    rw [List.flatMap_cons, List.append_assoc]
    by_cases hq : q = '*'
    · rw [if_pos hq, List.cons_append, List.singleton_append, Regex.items?, ih]
      cases Regex.items? signs <;> simp [globItem, hq]
    · have hnext : (p.flatMap (fun q =>
          if q = '*' then [.atom .any, .star] else [Regex.Sign.atom (.literal q)]) ++
            signs).head? ≠ some .star := by
        cases p with
        | nil => exact hsigns
        | cons r p =>
          rw [List.flatMap_cons]
          split <;> simp
      rw [if_neg hq, List.singleton_append, Regex.items?_atom_cons hnext, ih]
      cases Regex.items? signs <;> simp [globItem, hq]

/-- The expression of a pattern is read as the pattern between the two anchors. -/
theorem ofText?_expressionText (hfits : fits (NamePattern.expressionText p) = true) :
    Regex.ofText? fits (NamePattern.expressionText p) = some (globRegex p) := by
  have hstop : Regex.signs? ['$'] = some [.stop] := rfl
  have hend : Regex.items? [.stop] = some [.stop] := rfl
  rw [Regex.ofText?, if_pos hfits, expressionText_eq, Regex.signs?_cons (by decide),
    signs?_flatMap_append, hstop]
  simp only [Regex.sign?, Option.map_some]
  rw [if_pos (by decide), Option.bind_some, Option.bind_some, Regex.items?,
    items?_flatMap_append p (by decide), hend]
  rfl

/-- Between the anchors the whole rest of the name has to match. -/
theorem takes_globItems_iff {before taken after : List Char} :
    Regex.Takes (p.map globItem ++ [.stop]) before taken after ↔ after = [] ∧ Matches p taken := by
  -- With an anchor at the end nothing is left behind; what is in front does not matter.
  induction p generalizing before taken with
  | nil =>
    rw [matches_nil_iff]
    constructor
    · intro h
      cases h with
      | stop _ => exact ⟨rfl, rfl⟩
    · rintro ⟨rfl, rfl⟩
      exact .stop .nil
  | cons q p ih =>
    rw [List.map_cons, List.cons_append, globItem]
    by_cases hq : q = '*'
    · rw [if_pos hq, hq, matches_star_iff]
      constructor
      · intro h
        cases h with
        | many hx hrest =>
          obtain ⟨hafter, hmatches⟩ := ih.1 hrest
          refine ⟨hafter, _, _, rfl, fun hfeed => ?_, hmatches⟩
          exact absurd (hx '\n' hfeed) (by decide)
      · rintro ⟨rfl, x, r, rfl, hx, hmatches⟩
        refine .many (fun c hc => ?_) (ih.2 ⟨rfl, hmatches⟩)
        rw [Regex.Atom.accepts, bne_iff_ne]
        rintro rfl
        exact hx hc
    · rw [if_neg hq, matches_cons_iff hq]
      constructor
      · intro h
        cases h with
        | one hc hrest =>
          obtain ⟨hafter, hmatches⟩ := ih.1 hrest
          rw [Regex.Atom.accepts, beq_iff_eq] at hc
          exact ⟨hafter, _, by rw [hc], hmatches⟩
      · rintro ⟨rfl, r, rfl, hmatches⟩
        exact .one (beq_self_eq_true q) (ih.2 ⟨rfl, hmatches⟩)

/-- A search for the expression of a pattern tells whether the pattern matches the whole name. -/
theorem isMatch_globRegex_iff : (globRegex p).isMatch s = true ↔ Matches p s := by
  rw [Regex.isMatch_iff, globRegex]
  constructor
  · rintro ⟨before, taken, after, rfl, h⟩
    cases h with
    | start hrest =>
      obtain ⟨rfl, hmatches⟩ := takes_globItems_iff.1 hrest
      rwa [List.append_nil]
  · intro h
    exact ⟨[], s, [], by simp, .start (takes_globItems_iff.2 ⟨rfl, h⟩)⟩

instance (p s : List Char) : Decidable (Matches p s) :=
  decidable_of_iff _ isMatch_globRegex_iff

/-! ## Pieces of a pattern -/

/-- A piece without a star stands in the name as it is. -/
theorem matches_append_iff {piece : List Char} (hpiece : '*' ∉ piece) :
    Matches (piece ++ p) s ↔ ∃ r, s = piece ++ r ∧ Matches p r := by
  induction piece generalizing s with
  | nil => simp
  | cons q piece ih =>
    obtain ⟨hq, hpiece⟩ := List.ne_and_not_mem_of_not_mem_cons hpiece
    rw [List.cons_append, matches_cons_iff hq.symm]
    constructor
    · rintro ⟨t, rfl, ht⟩
      obtain ⟨r, rfl, hr⟩ := (ih hpiece).1 ht
      exact ⟨r, rfl, hr⟩
    · rintro ⟨r, rfl, hr⟩
      exact ⟨piece ++ r, rfl, (ih hpiece).2 ⟨r, rfl, hr⟩⟩

/-- A pattern without a star matches itself only. -/
theorem matches_iff_eq_of_not_mem (hp : '*' ∉ p) : Matches p s ↔ s = p := by
  have h := matches_append_iff (p := []) (s := s) hp
  rw [List.append_nil] at h
  simpa [matches_nil_iff] using h

/-- A name that a pattern of pieces matches is the pieces with texts between them. -/
theorem matches_join_iff {piece : List Char} {pieces : List (List Char)}
    (hpieces : ∀ t ∈ piece :: pieces, '*' ∉ t) :
    Matches (join ['*'] (piece :: pieces)) s ↔
      ∃ xs, xs.length = pieces.length ∧ (∀ x ∈ xs, '\n' ∉ x) ∧
        s = piece ++ (List.zipWith (· ++ ·) xs pieces).flatten := by
  -- On the pieces after the first: each has a star in front of it, for which there is one text.
  induction pieces generalizing piece s with
  | nil =>
    have hpiece : '*' ∉ piece := hpieces piece List.mem_cons_self
    rw [join, ← List.append_nil piece, matches_append_iff hpiece]
    simp [matches_nil_iff]
  | cons next pieces ih =>
    obtain ⟨hpiece, hnext⟩ := List.forall_mem_cons.1 hpieces
    rw [join, List.append_assoc, List.singleton_append, matches_append_iff hpiece]
    constructor
    · rintro ⟨r, rfl, h⟩
      obtain ⟨x, r, rfl, hx, h⟩ := matches_star_iff.1 h
      obtain ⟨xs, hlength, hxs, rfl⟩ := (ih hnext).1 h
      exact ⟨x :: xs, congrArg (· + 1) hlength, List.forall_mem_cons.2 ⟨hx, hxs⟩, by simp⟩
    · rintro ⟨xs, hlength, hxs, rfl⟩
      cases xs with
      | nil => cases hlength
      | cons x xs =>
        obtain ⟨hx, hxs⟩ := List.forall_mem_cons.1 hxs
        have hrest : Matches (join ['*'] (next :: pieces))
            (next ++ (List.zipWith (· ++ ·) xs pieces).flatten) :=
          (ih hnext).2 ⟨xs, Nat.succ.inj hlength, hxs, rfl⟩
        exact ⟨_, rfl, matches_star_iff.2 ⟨x, _, by simp, hx, hrest⟩⟩

/-! ## Name patterns -/

/-- A matcher that is made of a text without a star, or of one whose expression does not fit,
accepts this text only. -/
theorem accepts_compile_iff_eq {pattern name : String}
    (h : '*' ∉ pattern.toList ∨ fits (NamePattern.expressionText pattern.toList) = false) :
    (NamePattern.compile fits pattern).accepts name = true ↔ name = pattern := by
  have hexact : NamePattern.compile fits pattern = .exact pattern.toList := by
    rw [NamePattern.compile]
    split
    · next hstar =>
      have hfits := h.resolve_left (not_not_intro (List.contains_iff_mem.1 hstar))
      rw [Regex.ofText?, hfits]
      rfl
    · rfl
  rw [hexact, NamePattern.accepts, beq_iff_eq, String.toList_inj]

/-- A matcher whose expression fits accepts the names that its pattern matches. -/
theorem accepts_compile_iff {pattern name : String}
    (hfits : fits (NamePattern.expressionText pattern.toList) = true) :
    (NamePattern.compile fits pattern).accepts name = true ↔
      Matches pattern.toList name.toList := by
  by_cases hstar : '*' ∈ pattern.toList
  · rw [NamePattern.compile, if_pos (List.contains_iff_mem.2 hstar), ofText?_expressionText hfits]
    exact isMatch_globRegex_iff
  · rw [accepts_compile_iff_eq (.inl hstar), matches_iff_eq_of_not_mem hstar, String.toList_inj]

/-- A text with stars whose expression fits matches the names that are its pieces with any texts in
the places of the stars.  A text without a star, or one whose expression does not fit, matches
itself only. -/
theorem accepts_exact (fits : List Char → Bool) :
    (∀ (piece : List Char) (pieces : List (List Char)) (name : String),
      (∀ t ∈ piece :: pieces, '*' ∉ t) → '\n' ∉ name.toList →
        fits (NamePattern.expressionText (join ['*'] (piece :: pieces))) = true →
          ((NamePattern.compile fits (String.ofList (join ['*'] (piece :: pieces)))).accepts name =
              true ↔
            ∃ xs : List (List Char), xs.length = pieces.length ∧
              name.toList = piece ++ (List.zipWith (· ++ ·) xs pieces).flatten)) ∧
      ∀ pattern name : String,
        '*' ∉ pattern.toList ∨ fits (NamePattern.expressionText pattern.toList) = false →
          ((NamePattern.compile fits pattern).accepts name = true ↔ name = pattern) := by
  constructor
  · intro piece pieces name hpieces hname hfits
    rw [accepts_compile_iff (by rwa [String.toList_ofList]), String.toList_ofList,
      matches_join_iff hpieces]
    constructor
    · rintro ⟨xs, hlength, -, heq⟩
      exact ⟨xs, hlength, heq⟩
    · rintro ⟨xs, hlength, heq⟩
      refine ⟨xs, hlength, fun x hx hfeed => hname ?_, heq⟩
      -- Each text stands in the name, which has no line feed.
      obtain ⟨i, hi, rfl⟩ := List.getElem_of_mem hx
      have hzip : xs[i] ++ pieces[i] ∈ List.zipWith (· ++ ·) xs pieces :=
        List.mem_iff_getElem.2 ⟨i, by simp [hi, ← hlength], by simp⟩
      rw [heq]
      exact List.mem_append_right _
        (List.mem_flatten.2 ⟨_, hzip, List.mem_append_left _ hfeed⟩)
  · exact fun pattern name => accepts_compile_iff_eq

/-- Characters other than the star stand for themselves, and a star may take a character that comes
again in the piece after it; where only short expressions fit, a long one is matched as it is. -/
theorem accepts_exact_dot_plus :
    let fits : List Char → Bool := fun text => text.length < 14
    NamePattern.expressionText "a.*+*".toList = "^a\\..*\\+.*$".toList ∧
      (NamePattern.compile fits "a.*+*").accepts "a.++b" = true ∧
      (NamePattern.compile fits "a.*+*").accepts "ab+" = false ∧
      (NamePattern.compile fits "a.+").accepts "a.+" = true ∧
      (NamePattern.compile fits "a*b*c*d*e").accepts "abcde" = false := by
  intro fits
  have hpieces : ∀ t ∈ [['a', '.'], ['+'], []], '*' ∉ t := by decide
  refine ⟨by decide +kernel, ?_, by decide +kernel,
    ((accepts_exact fits).2 "a.+" "a.+" (.inl (by decide))).2 rfl, ?_⟩
  · exact ((accepts_exact fits).1 ['a', '.'] [['+'], []] "a.++b" hpieces (by decide)
      (by decide +kernel)).2 ⟨[['+'], ['b']], rfl, rfl⟩
  · rw [Bool.eq_false_iff, Ne, (accepts_exact fits).2 _ _ (.inr (by decide +kernel))]
    decide

end ProofHarness.Text
