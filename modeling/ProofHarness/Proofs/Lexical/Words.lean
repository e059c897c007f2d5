import ProofHarness.Proofs.Lexical.Ahead
import ProofHarness.Proofs.Lexical.TokenPlace

/-!
# Words and first trees

Each word among the trees of a text begins as identifiers do
(`exists_isIdentStart_of_mem_words`): it is a token of the text, or the name of the attribute for
which a documentation comment stands.  The tree that comes first begins where the text does, unless
a gap stands there (`eq_of_trees?_mark`).
-/

set_option autoImplicit false

namespace ProofHarness.Lexical

open Text

/-! ## Words -/

namespace TokenTree

mutual

/-- The words of a tree, those inside its brackets included. -/
def words : TokenTree → List (List Char)
  | .word w => [w]
  | .group _ inner => wordsAll inner
  | .mark _ _ | .lifetime _ | .literal _ => []

/-- The words of several trees. -/
def wordsAll : List TokenTree → List (List Char)
  | [] => []
  | t :: ts => t.words ++ wordsAll ts

end

/-- The words of trees are those of each tree. -/
theorem mem_wordsAll_iff {w : List Char} {ts : List TokenTree} :
    w ∈ wordsAll ts ↔ ∃ t ∈ ts, w ∈ t.words := by
  induction ts with
  | nil => simp [wordsAll]
  | cons t ts ih => simp [wordsAll, ih]

/-- The words of two lists of trees. -/
theorem mem_wordsAll_append {w : List Char} {ts us : List TokenTree} :
    w ∈ wordsAll (ts ++ us) ↔ w ∈ wordsAll ts ∨ w ∈ wordsAll us := by
  simp [mem_wordsAll_iff, or_and_right, exists_or]

/-- The order of the trees does not matter. -/
theorem mem_wordsAll_reverse {w : List Char} {ts : List TokenTree} :
    w ∈ wordsAll ts.reverse ↔ w ∈ wordsAll ts := by
  simp [mem_wordsAll_iff]

/-- The words of a group are those of the trees in it. -/
theorem mem_words_group {w : List Char} {d : Delimiter} {inner : List TokenTree} :
    w ∈ (TokenTree.group d inner).words ↔ w ∈ wordsAll inner := by
  rw [words]

end TokenTree

open TokenTree

/-- A documentation has one word. -/
theorem mem_wordsAll_documentationTrees {inner : Bool} {content w : List Char}
    (hw : w ∈ wordsAll (documentationTrees inner content)) : w = "doc".toList := by
  cases inner <;> simpa [documentationTrees, wordsAll, words] using hw

namespace Groups

variable {g h : Groups} {t : Token} {ts : List Token} {trees : List TokenTree} {w : List Char}

/-- The word is among the trees that are built so far, in open groups or not. -/
def HasWord (g : Groups) (w : List Char) : Prop :=
  (∃ o ∈ g.outer, w ∈ wordsAll o.2) ∨ w ∈ wordsAll g.done

/-- A word that comes into the groups is the token, or the name of documentation. -/
theorem hasWord_of_step {joint : Bool} (hstep : g.step t joint = some h) (hw : h.HasWord w) :
    g.HasWord w ∨ (t.kind = .word ∧ t.text = w) ∨ w = "doc".toList := by
  rcases step_cases hstep with ⟨-, rfl⟩ | ⟨-, trees, htrees, rfl⟩ | ⟨d, -, rfl⟩ |
    ⟨d, before, rest, -, houter, rfl⟩ | ⟨x, hx, rfl⟩
  · exact .inl hw
  · rcases hw with hw | hw
    · exact .inl (.inl hw)
    · rw [mem_wordsAll_append, mem_wordsAll_reverse] at hw
      rcases hw with hw | hw
      -- The only words that a comment brings are those of the documentation it becomes.
      · rcases commentTrees?_cases htrees with rfl | ⟨inner, content, rfl⟩
        · cases hw
        · exact .inr (.inr (mem_wordsAll_documentationTrees hw))
      · exact .inl (.inr hw)
  · rcases hw with ⟨o, ho, hw⟩ | hw
    · rcases List.mem_cons.1 ho with rfl | ho
      · exact .inl (.inr hw)
      · exact .inl (.inl ⟨o, ho, hw⟩)
    · cases hw
  · left
    rcases hw with ⟨o, ho, hw⟩ | hw
    · exact .inl ⟨o, houter ▸ List.mem_cons_of_mem _ ho, hw⟩
    · rw [push, wordsAll, List.mem_append, mem_words_group, mem_wordsAll_reverse] at hw
      rcases hw with hw | hw
      · exact .inr hw
      · exact .inl ⟨(d, before), houter ▸ List.mem_cons_self, hw⟩
  · rcases hw with hw | hw
    · exact .inl (.inl hw)
    · rw [push, wordsAll, List.mem_append] at hw
      rcases hw with hw | hw
      · cases x with
        | word v =>
          obtain rfl : w = v := by simpa [words] using hw
          exact .inr (.inl (Token.leaf?_eq_some_word.1 hx))
        | group d inner => exact absurd hx (t.leaf?_ne_group joint d inner)
        | _ => cases hw
      · exact .inl (.inr hw)

/-- Words of the trees are words of the tokens, but for that of documentations. -/
theorem hasWord_of_trees? (htrees : g.trees? ts = some trees) (hw : w ∈ wordsAll trees) :
    g.HasWord w ∨ (∃ t ∈ ts, t.kind = .word ∧ t.text = w) ∨ w = "doc".toList := by
  induction ts generalizing g with
  | nil =>
    rw [trees?_nil_of_some htrees]
    exact .inl (.inr (mem_wordsAll_reverse.2 hw))
  | cons t ts ih =>
    rw [trees?_cons] at htrees
    obtain ⟨h, hstep, hrest⟩ := Option.bind_eq_some_iff.1 htrees
    rcases ih hrest with hthere | ⟨u, hu, hword⟩ | hdoc
    · rcases hasWord_of_step hstep hthere with hthere | hword | hdoc
      · exact .inl hthere
      · exact .inr (.inl ⟨t, List.mem_cons_self, hword⟩)
      · exact .inr (.inr hdoc)
    · exact .inr (.inl ⟨u, List.mem_cons_of_mem t hu, hword⟩)
    · exact .inr (.inr hdoc)

end Groups

/-- The text of a word starts as identifiers do. -/
theorem Token.Cut.exists_isIdentStart {t : Token} (ht : t.Cut) (hword : t.kind = .word) :
    ∃ c cs, t.text = c :: cs ∧ isIdentStart c = true := by
  obtain ⟨c, cs, shape, hshape, hkind, htext, -⟩ := ht
  exact ⟨c, _, htext, isIdentStart_of_wordLength? ((extent_of_shape? hshape).word (hkind ▸ hword))⟩

variable {s : List Char} {trees : List TokenTree}

/-- Each word among the trees of a text begins as identifiers do. -/
theorem exists_isIdentStart_of_mem_words (h : trees? s = some trees) {w : List Char}
    (hw : w ∈ wordsAll trees) : ∃ c cs, w = c :: cs ∧ isIdentStart c = true := by
  obtain ⟨ts, hts, htrees⟩ := Option.bind_eq_some_iff.1 h
  obtain ⟨skip, hcut⟩ := exists_tokensFrom_of_tokens? hts
  rcases Groups.hasWord_of_trees? (g := ⟨[], []⟩) htrees hw with hthere | ⟨t, ht, hword, rfl⟩ | rfl
  · rcases hthere with ⟨o, ho, -⟩ | hthere
    · cases ho
    · cases hthere
  · exact (cut_of_tokensFrom hcut t ht).exists_isIdentStart hword
  · exact ⟨'d', ['o', 'c'], rfl, by decide⟩

/-! ## The first tree -/

/-- Whether no gap begins with the character, and it is not passed over in front of a text. -/
def startsTree (c : Char) : Bool := !isSpacing c && c != '/' && c != byteOrderMark

/-- What starts a tree is no blank, no comment and no byte order mark. -/
theorem startsTree_iff {c : Char} :
    startsTree c = true ↔ isSpacing c = false ∧ c ≠ '/' ∧ c ≠ byteOrderMark := by
  simp [startsTree, and_assoc]

/-- A mark that comes first is the character that the text begins with. -/
theorem eq_of_trees?_mark {c d : Char} {cs : List Char} {joint : Bool} {more : List TokenTree}
    (hc : startsTree c = true) (h : trees? (c :: cs) = some (.mark d joint :: more)) : c = d := by
  obtain ⟨hspacing, hslash, hpassed⟩ := startsTree_iff.1 hc
  obtain ⟨ts, hts, htrees⟩ := Option.bind_eq_some_iff.1 h
  rw [tokens?, if_neg (by simpa using hpassed), tokensFrom] at hts
  obtain ⟨shape, hshape, hts⟩ := Option.bind_eq_some_iff.1 hts
  obtain ⟨rest, -, rfl⟩ := Option.map_eq_some_iff.1 hts
  have hextent := extent_of_shape? hshape
  -- What the first token leaves to come are all trees, or all but the first.
  have hahead : (Groups.mk [] []).Ahead (.mark d joint :: more) (.mark d joint :: more) := rfl
  obtain ⟨g, hstep, hrest⟩ := Option.bind_eq_some_iff.1
    ((Groups.trees?_cons ⟨[], []⟩ _ rest).symm.trans htrees)
  obtain ⟨later, hlater⟩ := Groups.exists_ahead_of_trees? hrest
  rcases Groups.step_cases hstep with ⟨hblank, -⟩ | ⟨hcomment, -⟩ | ⟨b, -, rfl⟩ |
    ⟨b, before, outer, -, houter, -⟩ | ⟨x, hx, rfl⟩
  · rw [(hextent.blank hblank).1] at hspacing
    cases hspacing
  · rw [Token.isComment, Bool.or_eq_true, beq_iff_eq, beq_iff_eq] at hcomment
    exact absurd (hcomment.elim hextent.lineComment hextent.blockComment) hslash
  · obtain ⟨after, hafter⟩ := Groups.ahead_opening_iff.1 hlater
    cases hahead.unique hafter
  · cases houter
  · cases hahead.unique (Groups.ahead_push_iff.1 hlater)
    exact (Token.leaf?_eq_some_mark.1 hx).2.1

end ProofHarness.Lexical
