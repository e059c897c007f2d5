import ProofHarness.Proofs.Lexical.Cutting

/-!
# Grouping composed texts

Tokens that make whole trees on their own make the same trees wherever they stand
(`Groups.trees?_onto_append`), except that a punctuation character at their end may be joint with
what comes after it.
-/

set_option autoImplicit false

namespace ProofHarness.Lexical

open Text

/-! ## Step by step -/

/-- The groups that are open, each with what stands before it, and the trees of the innermost one;
trees are held backwards. -/
structure Groups where
  outer : List (Delimiter × List TokenTree)
  done : List TokenTree

namespace Groups

/-- One more tree in the innermost group. -/
def push (g : Groups) (t : TokenTree) : Groups := { g with done := t :: g.done }

/-- What a token changes in the groups; `joint` if a punctuation character comes after it. -/
def step (g : Groups) (t : Token) (joint : Bool) : Option Groups :=
  if !t.sound then none
  else match t.kind with
  | .blank => some g
  | .lineComment | .blockComment =>
    (commentTrees? t.text).map fun trees => { g with done := trees.reverse ++ g.done }
  | .opening d => some ⟨(d, g.done) :: g.outer, []⟩
  | .closing d =>
    match g.outer with
    | [] => none
    | (opened, before) :: rest =>
      if opened == d then some (push ⟨rest, before⟩ (.group d g.done.reverse)) else none
  | .literal => some (g.push (.literal t.text))
  | .mark => some (g.push (.mark (t.text.headD ' ') joint))
  | .lifetime => some (g.push (.lifetime t.text))
  | .word => some (g.push (.word t.text))

/-- The trees that the groups and some tokens make. -/
def trees? (g : Groups) (ts : List Token) : Option (List TokenTree) := groupFrom g.outer g.done ts

/-- The first token takes one step. -/
theorem trees?_cons (g : Groups) (t : Token) (ts : List Token) :
    g.trees? (t :: ts) = (g.step t (followsJoint ts)).bind fun h => h.trees? ts := by
  rw [trees?, groupFrom, step]
  by_cases hsound : (!t.sound) = true
  · rw [if_pos hsound, if_pos hsound]
    rfl
  · rw [if_neg hsound, if_neg hsound]
    cases t.kind with
    | lineComment => cases commentTrees? t.text <;> rfl
    | blockComment => cases commentTrees? t.text <;> rfl
    | closing d =>
      cases g.outer with
      | nil => rfl
      | cons o rest =>
        simp only
        split <;> rfl
    | _ => rfl

/-- At the end no group may be open. -/
theorem trees?_nil_of_some {g : Groups} {trees : List TokenTree} (h : g.trees? [] = some trees) :
    g = ⟨[], trees.reverse⟩ := by
  cases g with
  | mk outer done =>
    cases outer with
    | nil =>
      have hdone : done.reverse = trees := Option.some.inj h
      rw [← hdone, List.reverse_reverse]
    | cons o rest => cases h

/-- Only a mark is read with an eye on what comes after it. -/
theorem step_joint (g : Groups) {t : Token} (ht : t.kind ≠ .mark) (joint joint' : Bool) :
    g.step t joint = g.step t joint' := by
  rw [step, step]
  cases hkind : t.kind with
  | mark => exact absurd hkind ht
  | _ => rfl

/-- Whether a mark is joint can be told from what comes after it only. -/
theorem step_mark {g h : Groups} {t : Token} (ht : t.kind = .mark) {joint : Bool}
    (hstep : g.step t joint = some h) (base : Groups) (joint' : Bool) :
    base.step t joint' = some (base.push (.mark (t.text.headD ' ') joint')) := by
  rw [step] at hstep
  split at hstep
  · cases hstep
  · next hsound => rw [step, if_neg hsound, ht]

/-! ## Groups inside other groups -/

/-- Groups inside the innermost one of others. -/
def ontoFrom (base : Groups) : List (Delimiter × List TokenTree) → List TokenTree → Groups
  | [], done => ⟨base.outer, done ++ base.done⟩
  | (d, before) :: rest, done =>
    let below := ontoFrom base rest before
    ⟨(d, below.done) :: below.outer, done⟩

/-- Groups inside the innermost one of others. -/
def onto (g base : Groups) : Groups := ontoFrom base g.outer g.done

/-- Pushing a tree and putting groups on others can be exchanged. -/
theorem onto_push (g base : Groups) (t : TokenTree) :
    (g.push t).onto base = (g.onto base).push t := by
  cases g with
  | mk outer done => cases outer <;> rfl

/-- Trees that were there before may be counted to the groups below. -/
theorem onto_append (g base : Groups) (ts : List TokenTree) :
    ({ g with done := ts ++ g.done } : Groups).onto base =
      { g.onto base with done := ts ++ (g.onto base).done } := by
  cases g with
  | mk outer done =>
    cases outer with
    | nil => simp [onto, ontoFrom]
    | cons o rest => rfl

/-- What stands around the groups has no part in a step. -/
theorem step_onto {g h : Groups} {t : Token} {joint : Bool} (hstep : g.step t joint = some h)
    (base : Groups) : (g.onto base).step t joint = some (h.onto base) := by
  rw [step] at hstep ⊢
  split at hstep
  · cases hstep
  next hsound =>
  rw [if_neg hsound]
  cases hkind : t.kind with
  | blank =>
    rw [hkind] at hstep
    rw [← Option.some.inj hstep]
  | lineComment =>
    rw [hkind] at hstep
    obtain ⟨trees, htrees, rfl⟩ := Option.map_eq_some_iff.1 hstep
    simp only [htrees, Option.map_some, onto_append]
  | blockComment =>
    rw [hkind] at hstep
    obtain ⟨trees, htrees, rfl⟩ := Option.map_eq_some_iff.1 hstep
    simp only [htrees, Option.map_some, onto_append]
  | opening d =>
    rw [hkind] at hstep
    rw [← Option.some.inj hstep]
    rfl
  | closing d =>
    rw [hkind] at hstep
    -- The group that is closed is one of those that `g` has opened, never one of the base below.
    cases g with
    | mk outer done =>
      cases outer with
      | nil => cases hstep
      | cons o rest =>
        simp only at hstep
        split at hstep
        · next hd =>
          rw [← Option.some.inj hstep, onto_push]
          simp only [onto, ontoFrom, if_pos hd]
        · cases hstep
  | _ =>
    rw [hkind] at hstep
    rw [← Option.some.inj hstep, onto_push]

end Groups

/-- Trees that differ at most in whether the mark at their end is joint with what comes next. -/
inductive SameButEnd : List TokenTree → List TokenTree → Prop
  | nil : SameButEnd [] []
  | last (c : Char) (joint joint' : Bool) : SameButEnd [.mark c joint] [.mark c joint']
  | cons (t : TokenTree) {trees trees' : List TokenTree} :
      SameButEnd trees trees' → SameButEnd (t :: trees) (t :: trees')

namespace SameButEnd

/-- Trees are the same as themselves. -/
theorem refl (trees : List TokenTree) : SameButEnd trees trees := by
  induction trees with
  | nil => exact nil
  | cons t trees ih => exact ih.cons t

/-- What comes before may be any trees. -/
theorem append (before : List TokenTree) {trees trees' : List TokenTree}
    (h : SameButEnd trees trees') : SameButEnd (before ++ trees) (before ++ trees') := by
  induction before with
  | nil => exact h
  | cons t before ih => exact ih.cons t

/-- Such trees are written alike. -/
theorem compactAll_eq {trees trees' : List TokenTree} (h : SameButEnd trees trees') :
    TokenTree.compactAll trees = TokenTree.compactAll trees' := by
  induction h with
  | nil => rfl
  | last => rfl
  | cons t _ ih => rw [TokenTree.compactAll, TokenTree.compactAll, ih]

end SameButEnd

/-- Tokens that make whole trees on their own make them, up to the joint of a mark at the end, also
inside other groups and in front of other tokens. -/
theorem Groups.trees?_onto_append {g : Groups} {ts : List Token} {trees : List TokenTree}
    (h : g.trees? ts = some trees) (base : Groups) (after : List Token) :
    ∃ trees', SameButEnd trees trees' ∧ (g.onto base).trees? (ts ++ after) =
      ({ base with done := trees'.reverse ++ base.done } : Groups).trees? after := by
  induction ts generalizing g with
  | nil =>
    refine ⟨trees, .refl trees, ?_⟩
    rw [Groups.trees?_nil_of_some h]
    rfl
  | cons t ts ih =>
    rw [Groups.trees?_cons] at h
    obtain ⟨next, hstep, h⟩ := Option.bind_eq_some_iff.1 h
    by_cases hend : ts = [] ∧ t.kind = .mark
    · obtain ⟨rfl, hmark⟩ := hend
      -- The mark is the last token, and is joint if what comes next begins with another mark.
      have hpush : g.push (.mark (t.text.headD ' ') (followsJoint [])) = ⟨[], trees.reverse⟩ := by
        rw [← Groups.trees?_nil_of_some h, ← Option.some.injEq, ← hstep,
          Groups.step_mark hmark hstep]
      have hdone : trees = g.done.reverse ++ [.mark (t.text.headD ' ') (followsJoint [])] := by
        have hreverse := congrArg (fun g : Groups => g.done.reverse) hpush
        simpa [Groups.push] using hreverse.symm
      have honto : g.onto base = { base with done := g.done ++ base.done } := by
        have houter : g.outer = [] := congrArg Groups.outer hpush
        rw [Groups.onto, houter]
        rfl
      refine ⟨g.done.reverse ++ [.mark (t.text.headD ' ') (followsJoint after)], ?_, ?_⟩
      · rw [hdone]
        exact (SameButEnd.last _ _ _).append _
      · rw [List.singleton_append, Groups.trees?_cons, Groups.step_mark hmark hstep, honto]
        simp [Groups.push]
    · have hsame : (g.onto base).step t (followsJoint (ts ++ after)) =
          (g.onto base).step t (followsJoint ts) := by
        cases ts with
        | nil => exact Groups.step_joint _ (fun hmark => hend ⟨rfl, hmark⟩) _ _
        | cons u us => rfl
      obtain ⟨trees', htrees', hgo⟩ := ih h
      refine ⟨trees', htrees', ?_⟩
      rw [List.cons_append, Groups.trees?_cons, hsame, Groups.step_onto hstep, Option.bind_some,
        hgo]


/-! ## Texts in groups -/

/-- A text makes whole trees on its own, and no comment is open at its end. -/
def Reads (s : List Char) (trees : List TokenTree) : Prop :=
  ∃ ts, bareTokens s = some ts ∧ EndsClosed ts ∧ (Groups.mk [] []).trees? ts = some trees

namespace Groups

variable {c d : Char} {cs s : List Char}

/-- The trees that the groups and the tokens of a text make. -/
def read (g : Groups) (s : List Char) : Option (List TokenTree) := (bareTokens s).bind g.trees?

/-- Places do not matter to the trees. -/
theorem trees?_map_bare (g : Groups) (ts : List Token) :
    g.trees? (ts.map Token.bare) = g.trees? ts := by
  induction ts generalizing g with
  | nil => rfl
  | cons t ts ih =>
    have hjoint : followsJoint (ts.map Token.bare) = followsJoint ts := by cases ts <;> rfl
    rw [List.map_cons, trees?_cons, trees?_cons, hjoint]
    congr 1
    funext h
    exact ih h

/-- Where no byte order mark is in front, reading starts with no groups. -/
theorem trees?_eq_read (hc : c ≠ byteOrderMark) (cs : List Char) :
    Lexical.trees? (c :: cs) = (Groups.mk [] []).read (c :: cs) := by
  rw [Lexical.trees?, tokens?, if_neg (by simpa using hc), read, bareTokens]
  cases tokensFrom 0 Reached.zero (c :: cs) with
  | none => rfl
  | some ts => exact (trees?_map_bare ⟨[], []⟩ ts).symm

/-- At the end of a text there are no more tokens. -/
theorem read_nil (g : Groups) : g.read [] = g.trees? [] := rfl

/-- The token that a text starts with is read first. -/
theorem read_cons (g : Groups) {shape : Shape} (hshape : shape? c cs = some shape) {h : Groups}
    (hstep : ∀ joint, g.step (shape.token (c :: cs.take shape.more)) joint = some h) :
    g.read (c :: cs) = h.read (cs.drop shape.more) := by
  rw [read, read, bareTokens_cons, hshape, Option.bind_some]
  cases bareTokens (cs.drop shape.more) with
  | none => rfl
  | some ts =>
    rw [Option.map_some, Option.bind_some, Option.bind_some, trees?_cons, hstep, Option.bind_some]

/-- An opening bracket starts a group. -/
theorem read_opening (g : Groups) {b : Delimiter} (hc : c = b.opening) (s : List Char) :
    g.read (c :: s) = (Groups.mk ((b, g.done) :: g.outer) []).read s := by
  have hshape : shape? c s = some ⟨.opening b, 0, true⟩ := by
    rw [hc]
    cases b <;> rfl
  exact g.read_cons hshape fun _ => rfl

/-- A closing bracket ends the group of its kind. -/
theorem read_closing {b : Delimiter} {outer : List (Delimiter × List TokenTree)}
    {before done : List TokenTree} (hc : c = b.closing) (s : List Char) :
    (Groups.mk ((b, before) :: outer) done).read (c :: s) =
      (Groups.mk outer (.group b done.reverse :: before)).read s := by
  have hshape : shape? c s = some ⟨.closing b, 0, true⟩ := by
    rw [hc]
    cases b <;> rfl
  exact read_cons _ hshape fun _ => by simp [step, Shape.token, push]

/-- A mark is not joint with a character that is no mark and no quote. -/
theorem read_mark (g : Groups) (hshape : shape? c (d :: s) = some ⟨.mark, 0, true⟩)
    (hd : d ∉ marks ∧ d ≠ '\x27') :
    g.read (c :: d :: s) = (g.push (.mark c false)).read (d :: s) := by
  rw [read, read, bareTokens_cons, hshape, Option.bind_some, List.drop_zero, bareTokens_cons]
  cases shape? d s with
  | none => rfl
  | some shape =>
    rw [Option.bind_some]
    cases bareTokens (s.drop shape.more) with
    | none => rfl
    | some ts =>
      have hjoint : followsJoint (shape.token (d :: s.take shape.more) :: ts) = false := by
        simp [followsJoint, Shape.token, hd]
      rw [Option.map_some, Option.map_some, Option.bind_some, Option.bind_some, trees?_cons, hjoint]
      rfl

/-- A text that makes whole trees on its own makes them inside other groups. -/
theorem read_append (g : Groups) {trees : List TokenTree} (hs : Reads s trees)
    (hc : isStop c = true) (b : List Char) :
    ∃ trees', SameButEnd trees trees' ∧ g.read (s ++ c :: b) =
      ({ g with done := trees'.reverse ++ g.done } : Groups).read (c :: b) := by
  obtain ⟨ts, hts, hclosed, htrees⟩ := hs
  have honto : (Groups.mk [] []).onto g = g := rfl
  rw [read, bareTokens_append hc hts hclosed]
  cases hafter : bareTokens (c :: b) with
  | none =>
    obtain ⟨trees', hsame, -⟩ := trees?_onto_append htrees g []
    exact ⟨trees', hsame, by rw [read, hafter]; rfl⟩
  | some after =>
    obtain ⟨trees', hsame, hgo⟩ := trees?_onto_append htrees g after
    refine ⟨trees', hsame, ?_⟩
    rw [honto] at hgo
    rw [read, hafter, Option.map_some, Option.bind_some, Option.bind_some, hgo]

/-- A text that makes whole trees on its own makes them also at the end of a text. -/
theorem read_of_reads {trees done : List TokenTree} (hs : Reads s trees) :
    ∃ trees', SameButEnd trees trees' ∧
      (Groups.mk [] done).read s = some (done.reverse ++ trees') := by
  obtain ⟨ts, hts, -, htrees⟩ := hs
  obtain ⟨trees', hsame, hgo⟩ := trees?_onto_append htrees ⟨[], done⟩ []
  have honto : (Groups.mk [] []).onto ⟨[], done⟩ = ⟨[], done⟩ := rfl
  refine ⟨trees', hsame, ?_⟩
  rw [honto, List.append_nil] at hgo
  rw [read, hts, Option.bind_some, hgo]
  simp [trees?, groupFrom]

/-- Blanks make no trees. -/
theorem read_blanks (g : Groups) {blanks : List Char} (h : ∀ c ∈ blanks, isBlank c = true)
    (s : List Char) : g.read (blanks ++ s) = g.read s := by
  induction blanks with
  | nil => rfl
  | cons c cs ih =>
    obtain ⟨hc, hcs⟩ := List.forall_mem_cons.1 h
    have hshape : shape? c (cs ++ s) = some ⟨.blank, 0, true⟩ := by
      rw [shape?, isSpacing, hc, Bool.true_or, Bool.true_or, if_pos rfl]
    rw [List.cons_append, read_cons g hshape fun _ => rfl, List.drop_zero, ih hcs]

/-- A mark is joint or not. -/
theorem exists_read_mark (g : Groups) (hshape : shape? c s = some ⟨.mark, 0, true⟩) :
    ∃ joint, g.read (c :: s) = (g.push (.mark c joint)).read s := by
  rw [read, bareTokens_cons, hshape, Option.bind_some, List.drop_zero]
  cases hs : bareTokens s with
  | none => exact ⟨false, by rw [read, hs]; rfl⟩
  | some ts =>
    refine ⟨followsJoint ts, ?_⟩
    rw [read, hs, Option.map_some, Option.bind_some, Option.bind_some, trees?_cons]
    rfl

end Groups

/-- A text is read on its own when its last token is no comment to the end of a line. -/
theorem reads_of_read {s : List Char} {trees : List TokenTree}
    (h : (Groups.mk [] []).read s = some trees)
    (hlast : (bareTokens s).all (fun ts => ts.getLast?.all (·.kind != .lineComment)) = true) :
    Reads s trees := by
  obtain ⟨ts, hts, htrees⟩ := Option.bind_eq_some_iff.1 h
  refine ⟨ts, hts, ?_, htrees⟩
  intro t ht
  rw [hts, Option.all_some, ht, Option.all_some] at hlast
  simpa using hlast

end ProofHarness.Lexical
