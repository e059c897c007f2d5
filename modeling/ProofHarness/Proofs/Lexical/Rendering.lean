import ProofHarness.Proofs.Lexical.Ahead
import ProofHarness.Proofs.Lexical.TokenPlace
import ProofHarness.Proofs.Text.Blank

/-!
# Trees without white space

The trees that a text is grouped into are, without white space, what the text is without it
(`IsSpelled.compactAll_eq`), if there are no comments between its tokens; and so they are without
all that is in no tree (`seenOf_compactAll`).  What the open groups hold grows by each token, which
is the step that carries this.
-/

set_option autoImplicit false

namespace ProofHarness.Lexical

open Text

/-- Whether a token is no comment and, if it is a blank, white space. -/
def Token.isOrdinary (t : Token) : Bool :=
  !t.isComment && (t.kind != .blank || t.text.all isBlank)

/-- A text of tokens with white space between them, and the trees that they make. -/
def IsSpelled (s : List Char) (trees : List TokenTree) : Prop :=
  ∃ ts, tokensFrom 0 .zero s = some ts ∧ groupFrom [] [] ts = some trees ∧
    ∀ t ∈ ts, t.isOrdinary = true

/-- An ordinary token is no comment, and if it is a blank one, has blanks only. -/
theorem Token.isOrdinary_iff {t : Token} : t.isOrdinary = true ↔
    t.isComment = false ∧ (t.kind = .blank → ∀ c ∈ t.text, isBlank c = true) := by
  rw [Token.isOrdinary, Bool.and_eq_true, Bool.not_eq_true', Bool.or_eq_true, bne_iff_ne,
    List.all_eq_true, imp_iff_not_or]

namespace TokenTree

/-- Lists of trees are written one after the other. -/
theorem compactAll_append (ts us : List TokenTree) :
    compactAll (ts ++ us) = compactAll ts ++ compactAll us := by
  induction ts with
  | nil => rfl
  | cons t ts ih => rw [List.cons_append, compactAll, compactAll, ih, List.append_assoc]

/-- One tree is written by itself. -/
theorem compactAll_singleton (t : TokenTree) : compactAll [t] = t.compact :=
  List.append_nil _

end TokenTree

namespace Groups

variable {g h : Groups} {t : Token} {ts : List Token} {trees : List TokenTree}

/-- The text of open groups without blanks, from the outermost on. -/
def compactFrom : List (Delimiter × List TokenTree) → List TokenTree → List Char
  | [], done => TokenTree.compactAll done.reverse
  | (d, before) :: rest, done =>
    compactFrom rest before ++ d.opening :: TokenTree.compactAll done.reverse

/-- The text of the groups without blanks. -/
def compact (g : Groups) : List Char := compactFrom g.outer g.done

/-- A pushed tree is written at the end. -/
theorem compact_push (g : Groups) (x : TokenTree) :
    (g.push x).compact = g.compact ++ x.compact := by
  obtain ⟨outer, done⟩ := g
  have hdone : TokenTree.compactAll (x :: done).reverse =
      TokenTree.compactAll done.reverse ++ x.compact := by
    rw [List.reverse_cons, TokenTree.compactAll_append, TokenTree.compactAll_singleton]
  cases outer with
  | nil => exact hdone
  | cons o rest =>
    rw [compact, push, compactFrom, hdone]
    simp [compact, compactFrom]

/-- Brackets are no blanks. -/
theorem isBlank_bracket (d : Delimiter) :
    isBlank d.opening = false ∧ isBlank d.closing = false := by
  cases d <;> decide

/-- Marks are no blanks. -/
theorem isBlank_of_mem_marks {c : Char} (h : c ∈ marks) : isBlank c = false := by
  have hmarks : marks.all (fun c => !isBlank c) = true := by decide
  simpa using List.all_eq_true.1 hmarks c h

/-- A leaf is written as its token, without its blanks. -/
theorem compact_of_leaf? {joint : Bool} {x : TokenTree} (ht : t.Cut) (hx : t.leaf? joint = some x) :
    x.compact = Text.compact t.text := by
  rw [Token.leaf?] at hx
  cases hkind : t.kind with
  | mark =>
    rw [hkind] at hx
    obtain ⟨c, hc, htext⟩ := ht.exists_text_eq_mark hkind
    rw [← Option.some.inj hx, htext, compact_cons_of_not_isBlank (isBlank_of_mem_marks hc)]
    rfl
  | literal | lifetime | word =>
    rw [hkind] at hx
    rw [← Option.some.inj hx]
    rfl
  | _ =>
    rw [hkind] at hx
    cases hx

/-- A token that is no comment adds its text to that of the groups, as far as the characters are
concerned that are kept; these are not in blanks. -/
theorem filter_compact_step {joint : Bool} (hstep : g.step t joint = some h) (ht : t.Cut)
    (hcomment : t.isComment = false) (keep : Char → Bool)
    (hblank : t.kind = .blank → (Text.compact t.text).filter keep = []) :
    h.compact.filter keep = g.compact.filter keep ++ (Text.compact t.text).filter keep := by
  -- A blank adds nothing, a bracket itself, and any other token the one tree that it makes.
  rcases step_cases hstep with ⟨hkind, rfl⟩ | ⟨hkind, -⟩ | ⟨d, hkind, rfl⟩ |
    ⟨d, before, rest, hkind, houter, rfl⟩ | ⟨x, hx, rfl⟩
  · rw [hblank hkind, List.append_nil]
  · rw [hcomment] at hkind
    cases hkind
  · rw [ht.text_eq_opening hkind, compact_cons_of_not_isBlank (isBlank_bracket d).1,
      ← List.filter_append]
    rfl
  · obtain ⟨outer, done⟩ := g
    cases houter
    rw [ht.text_eq_closing hkind, compact_cons_of_not_isBlank (isBlank_bracket d).2, compact_push,
      ← List.filter_append]
    simp [compact, compactFrom, TokenTree.compact, Text.compact]
  · rw [compact_push, compact_of_leaf? ht hx, List.filter_append]

/-- Tokens that are no comments have the text of the trees that they make, as far as the characters
are concerned that are kept. -/
theorem filter_compactAll_of_trees? (htrees : g.trees? ts = some trees) (hcuts : ∀ t ∈ ts, t.Cut)
    (hcomment : ∀ t ∈ ts, t.isComment = false) (keep : Char → Bool)
    (hblank : ∀ t ∈ ts, t.kind = .blank → (Text.compact t.text).filter keep = []) :
    (TokenTree.compactAll trees).filter keep =
      g.compact.filter keep ++ (Text.compact (ts.flatMap Token.text)).filter keep := by
  induction ts generalizing g with
  | nil =>
    rw [trees?_nil_of_some htrees]
    simp [compact, compactFrom, Text.compact]
  | cons t ts ih =>
    rw [trees?_cons] at htrees
    obtain ⟨h, hstep, hrest⟩ := Option.bind_eq_some_iff.1 htrees
    obtain ⟨ht, hts⟩ := List.forall_mem_cons.1 hcuts
    obtain ⟨hfirst, hcomment⟩ := List.forall_mem_cons.1 hcomment
    obtain ⟨hnothing, hblank⟩ := List.forall_mem_cons.1 hblank
    rw [ih hrest hts hcomment hblank, filter_compact_step hstep ht hfirst keep hnothing,
      List.flatMap_cons, compact_append, List.filter_append, List.append_assoc]

end Groups

variable {s : List Char} {trees : List TokenTree}

/-- The trees of a text are, without white space, what the text is without it. -/
theorem IsSpelled.compactAll_eq (h : IsSpelled s trees) :
    TokenTree.compactAll trees = compact s := by
  obtain ⟨ts, hts, htrees, hordinary⟩ := h
  have htext : ts.flatMap Token.text = s := flatMap_text_tokensFrom hts
  have hcomment : ∀ t ∈ ts, t.isComment = false := fun t ht =>
    (Token.isOrdinary_iff.1 (hordinary t ht)).1
  have hblank : ∀ t ∈ ts, t.kind = .blank → (Text.compact t.text).filter (fun _ => true) = [] := by
    intro t ht hkind
    rw [compact_eq_nil_of_all ((Token.isOrdinary_iff.1 (hordinary t ht)).2 hkind), List.filter_nil]
  have hall := Groups.filter_compactAll_of_trees? (g := ⟨[], []⟩) htrees (cut_of_tokensFrom hts)
    hcomment (fun _ => true) hblank
  rw [List.filter_true, List.filter_true, List.filter_true, htext] at hall
  exact hall

/-- What may stand in a text and is in no tree, comments apart: blanks and a mark in front. -/
def isUnseen (c : Char) : Bool := isSpacing c || c == byteOrderMark

/-- A text without anything of that kind. -/
def seenOf (s : List Char) : List Char := s.filter fun c => !isUnseen c

/-- What is seen of a text is seen without its blanks. -/
theorem seenOf_compact (s : List Char) : seenOf (compact s) = seenOf s := by
  rw [seenOf, compact, List.filter_filter]
  apply List.filter_congr
  intro c _
  cases hc : isBlank c <;> simp [isUnseen, isSpacing, hc]

/-- The trees of a text without comments are all that may be seen of it. -/
theorem seenOf_compactAll {ts : List Token} (hts : tokens? s = some ts)
    (htrees : groupFrom [] [] ts = some trees) (hcomment : ∀ t ∈ ts, t.isComment = false) :
    seenOf (TokenTree.compactAll trees) = seenOf s := by
  obtain ⟨skip, hcut⟩ := exists_tokensFrom_of_tokens? hts
  have hcuts := cut_of_tokensFrom hcut
  have hblank : ∀ t ∈ ts, t.kind = .blank →
      (Text.compact t.text).filter (fun c => !isUnseen c) = [] := by
    intro t ht hkind
    obtain ⟨c, hc, htext⟩ := (hcuts t ht).exists_text_eq_blank hkind
    rw [← seenOf, seenOf_compact, htext]
    simp [seenOf, isUnseen, hc]
  have hall := Groups.filter_compactAll_of_trees? (g := ⟨[], []⟩) htrees hcuts hcomment
    (fun c => !isUnseen c) hblank
  have hsame : seenOf (TokenTree.compactAll trees) = seenOf (ts.flatMap Token.text) := by
    rw [← seenOf_compact (ts.flatMap Token.text)]
    exact hall
  rw [hsame]
  -- A mark of byte order in front is in no token, and is not seen either.
  cases s with
  | nil =>
    cases hts
    rfl
  | cons c cs =>
    rw [flatMap_text_tokensFrom hts]
    split
    · next hmark =>
      rw [List.drop_one, List.tail_cons, seenOf, seenOf, List.filter_cons_of_neg]
      simp [isUnseen, hmark]
    · rfl

/-- A text without comments is read on its own. -/
theorem IsSpelled.reads (h : IsSpelled s trees) : Reads s trees := by
  obtain ⟨ts, hts, htrees, hordinary⟩ := h
  refine ⟨ts.map Token.bare, by rw [bareTokens, hts]; rfl, ?_, ?_⟩
  · intro t ht hkind
    obtain ⟨u, hu, rfl⟩ := List.mem_map.1 (List.mem_of_getLast? ht)
    have hcomment := (Token.isOrdinary_iff.1 (hordinary u hu)).1
    have hline : u.kind = .lineComment := hkind
    simp [Token.isComment, hline] at hcomment
  · rw [Groups.trees?_map_bare]
    exact htrees

end ProofHarness.Lexical
