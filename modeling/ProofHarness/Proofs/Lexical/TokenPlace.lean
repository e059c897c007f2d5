import Mathlib.Data.List.TakeWhile
import ProofHarness.Lexical.Token

/-!
# Where tokens stand

Each token of a text stands in it between what it says is before it and what it says is after it,
and starts at the place that comes after the former (`placedIn_of_tokensFrom`).  A token that is a
word has no line feed in it, and no identifier goes on after it (`Token.Cut.head?_after`).
-/

set_option autoImplicit false

namespace ProofHarness.Lexical

open Text

/-! ## Words -/

/-- No identifier goes over the end of a line. -/
theorem isIdentContinue_newline : isIdentContinue '\n' = false := by decide

/-- All characters of the identifier that a text starts with may stand in an identifier. -/
theorem isIdentContinue_of_mem_take {s : List Char} {n : Nat} (h : identLength s = some n)
    {c : Char} (hc : c ∈ s.take n) : isIdentContinue c = true := by
  cases s with
  | nil => simp [identLength] at h
  | cons d ds =>
    rw [identLength] at h
    split at h
    · next hd =>
      rw [Option.some.injEq] at h
      subst h
      rw [List.take_succ_cons, List.mem_cons] at hc
      rcases hc with rfl | hc
      · exact isIdentContinue_of_isIdentStart hd
      · rw [← List.prefix_iff_eq_take.1 (List.takeWhile_prefix isIdentContinue)] at hc
        exact List.mem_takeWhile_imp hc
    · simp at h

/-- All characters of the word that a text starts with may stand in an identifier, but for the
number sign of a raw one. -/
theorem isIdentContinue_of_mem_take_wordLength {s : List Char} {n : Nat}
    (h : wordLength? s = some n) {c : Char} (hc : c ∈ s.take n) :
    isIdentContinue c = true ∨ c = '#' := by
  unfold wordLength? at h
  split at h
  · next cs =>
    obtain ⟨m, hm, h⟩ := Option.bind_eq_some_iff.1 h
    split at h
    · cases h
    · rw [← Option.some.inj h, List.take_succ_cons, List.take_succ_cons, List.mem_cons,
        List.mem_cons] at hc
      rcases hc with rfl | rfl | hc
      · exact .inl (by decide)
      · exact .inr rfl
      · exact .inl (isIdentContinue_of_mem_take hm hc)
  · exact .inl (isIdentContinue_of_mem_take h hc)

/-- A word, raw or not, has no line feed in it. -/
theorem newline_notMem_take_wordLength {s : List Char} {n : Nat} (h : wordLength? s = some n) :
    '\n' ∉ s.take n := by
  intro hmem
  rcases isIdentContinue_of_mem_take_wordLength h hmem with hc | hc
  · rw [isIdentContinue_newline] at hc
    cases hc
  · cases hc

/-- What reads as a literal is a literal. -/
theorem kind_of_literalShape? {s : List Char} {shape : Shape} (h : literalShape? s = some shape) :
    shape.kind = .literal := by
  unfold literalShape? at h
  split at h
  · cases h
    rfl
  · split at h
    · cases h
      rfl
    · obtain ⟨n, -, rfl⟩ := Option.map_eq_some_iff.1 h
      rfl

/-- Identifiers are not empty. -/
theorem identLength_pos {s : List Char} {n : Nat} (h : identLength s = some n) : 0 < n := by
  cases s with
  | nil => cases h
  | cons c cs =>
    rw [identLength] at h
    split at h
    · rw [← Option.some.inj h]
      exact Nat.succ_pos _
    · cases h

/-- Words are not empty. -/
theorem wordLength?_pos {s : List Char} {n : Nat} (h : wordLength? s = some n) : 0 < n := by
  unfold wordLength? at h
  split at h
  · obtain ⟨m, -, h⟩ := Option.bind_eq_some_iff.1 h
    split at h
    · cases h
    · rw [Option.some.injEq] at h
      omega
  · exact identLength_pos h

/-- How far a token of each kind reaches, and with what a gap begins. -/
structure Shape.Extent (shape : Shape) (c : Char) (cs : List Char) : Prop where
  /-- A word takes all that reads as a word. -/
  word : shape.kind = .word → wordLength? (c :: cs) = some (shape.more + 1)
  mark : shape.kind = .mark → c ∈ marks ∧ shape.more = 0
  closing : ∀ d, shape.kind = .closing d → c = d.closing ∧ shape.more = 0
  opening : ∀ d, shape.kind = .opening d → c = d.opening ∧ shape.more = 0
  blank : shape.kind = .blank → isSpacing c = true ∧ shape.more = 0
  lineComment : shape.kind = .lineComment → c = '/'
  blockComment : shape.kind = .blockComment → c = '/'

/-- The shape of a token says how far it goes. -/
theorem extent_of_shape? {c : Char} {cs : List Char} {shape : Shape}
    (h : shape? c cs = some shape) : shape.Extent c cs := by
  unfold shape? at h
  split at h
  · next hspacing =>
    cases h
    exact ⟨nofun, nofun, nofun, nofun, fun _ => ⟨hspacing, rfl⟩, nofun, nofun⟩
  split at h
  · next hline =>
    cases h
    rw [Bool.and_eq_true, beq_iff_eq] at hline
    exact ⟨nofun, nofun, nofun, nofun, nofun, fun _ => hline.1, nofun⟩
  split at h
  · next hblock =>
    obtain ⟨n, -, rfl⟩ := Option.map_eq_some_iff.1 h
    rw [Bool.and_eq_true, beq_iff_eq] at hblock
    exact ⟨nofun, nofun, nofun, nofun, nofun, nofun, fun _ => hblock.1⟩
  split at h
  · next d hopened =>
    cases h
    refine ⟨nofun, nofun, nofun, ?_, nofun, nofun, nofun⟩
    intro d' hkind
    have hfound := List.find?_some hopened
    rw [beq_iff_eq] at hfound
    rw [← TokenKind.opening.inj hkind, hfound]
    exact ⟨rfl, rfl⟩
  split at h
  · next d hclosed =>
    cases h
    refine ⟨nofun, nofun, ?_, nofun, nofun, nofun, nofun⟩
    intro d' hkind
    have hfound := List.find?_some hclosed
    rw [beq_iff_eq] at hfound
    rw [← TokenKind.closing.inj hkind, hfound]
    exact ⟨rfl, rfl⟩
  split at h
  · next hliteral =>
    cases h
    have hkind := kind_of_literalShape? hliteral
    constructor <;> simp [hkind]
  split at h
  · next hmark =>
    cases h
    exact ⟨nofun, fun _ => ⟨by simpa using hmark, rfl⟩, nofun, nofun, nofun, nofun, nofun⟩
  split at h
  · obtain ⟨n, -, rfl⟩ := Option.map_eq_some_iff.1 h
    exact ⟨nofun, nofun, nofun, nofun, nofun, nofun, nofun⟩
  split at h
  · cases h
  -- Only here is the token a word; its first character is counted apart from the others.
  obtain ⟨n, hn, rfl⟩ := Option.map_eq_some_iff.1 h
  refine ⟨fun _ => ?_, nofun, nofun, nofun, nofun, nofun, nofun⟩
  rw [hn, Nat.sub_add_cancel (wordLength?_pos hn)]

/-- A token that is a word has no line feed in it. -/
theorem newline_notMem_of_shape? {c : Char} {cs : List Char} {shape : Shape}
    (h : shape? c cs = some shape) (hword : shape.kind = .word) :
    '\n' ∉ c :: cs.take shape.more :=
  newline_notMem_take_wordLength ((extent_of_shape? h).word hword)

/-- A token stands in a text where it says, and is on one line if it is a word. -/
structure Token.PlacedIn (s : List Char) (t : Token) : Prop where
  text : s = t.before.reverse ++ t.text ++ t.after
  start : t.start = Position.after t.before
  word : t.kind = .word → '\n' ∉ t.text

/-- The tokens that are read of the rest of a text stand in the text. -/
theorem placedIn_of_tokensFrom {skip : Nat} {r : Reached} {s : List Char} {ts : List Token}
    (h : tokensFrom skip r s = some ts) (hr : r.Sound) :
    ∀ t ∈ ts, t.PlacedIn (r.before.reverse ++ s) := by
  induction s generalizing skip r ts with
  | nil =>
    simp only [tokensFrom, Option.some.injEq] at h
    subst h
    simp
  | cons c cs ih =>
    -- The text read and the text to come are always the whole text.
    have hnext : (r.next c).before.reverse ++ cs = r.before.reverse ++ c :: cs := by
      simp [Reached.next]
    cases skip with
    | succ skip =>
      rw [tokensFrom] at h
      rw [← hnext]
      exact ih h (hr.next c)
    | zero =>
      rw [tokensFrom] at h
      obtain ⟨shape, hshape, h⟩ := Option.bind_eq_some_iff.1 h
      obtain ⟨rest, hrest, rfl⟩ := Option.map_eq_some_iff.1 h
      intro t ht
      rcases List.mem_cons.1 ht with rfl | ht
      · refine ⟨?_, hr.1, ?_⟩
        · simp
        · intro hword
          exact newline_notMem_of_shape? hshape hword
      · rw [← hnext]
        exact ih hrest (hr.next c) t ht

/-- The tokens of a text stand in it. -/
theorem placedIn_of_tokens? {s : List Char} {ts : List Token} (h : tokens? s = some ts) :
    ∀ t ∈ ts, t.PlacedIn s := by
  cases s with
  | nil =>
    simp only [tokens?, Option.some.injEq] at h
    subst h
    simp
  | cons c cs =>
    rw [tokens?] at h
    simpa [Reached.zero] using placedIn_of_tokensFrom h Reached.sound_zero

/-! ## Cuts -/

/-- A token is what the text from its start on begins with. -/
def Token.Cut (t : Token) : Prop :=
  ∃ c cs shape, shape? c cs = some shape ∧ t.kind = shape.kind ∧ t.text = c :: cs.take shape.more ∧
    t.after = cs.drop shape.more

/-- A token that is a mark is one character. -/
theorem Token.Cut.exists_text_eq_mark {t : Token} (ht : t.Cut) (hmark : t.kind = .mark) :
    ∃ c ∈ marks, t.text = [c] := by
  obtain ⟨c, cs, shape, hshape, hkind, htext, -⟩ := ht
  obtain ⟨hc, hmore⟩ := (extent_of_shape? hshape).mark (hkind ▸ hmark)
  exact ⟨c, hc, by rw [htext, hmore]; rfl⟩

/-- A token that closes a group is its closing bracket. -/
theorem Token.Cut.text_eq_closing {t : Token} (ht : t.Cut) {d : Delimiter}
    (hclosing : t.kind = .closing d) : t.text = [d.closing] := by
  obtain ⟨c, cs, shape, hshape, hkind, htext, -⟩ := ht
  obtain ⟨hc, hmore⟩ := (extent_of_shape? hshape).closing d (hkind ▸ hclosing)
  rw [htext, hc, hmore]
  rfl

/-- A token that opens a group is its opening bracket. -/
theorem Token.Cut.text_eq_opening {t : Token} (ht : t.Cut) {d : Delimiter}
    (hopening : t.kind = .opening d) : t.text = [d.opening] := by
  obtain ⟨c, cs, shape, hshape, hkind, htext, -⟩ := ht
  obtain ⟨hc, hmore⟩ := (extent_of_shape? hshape).opening d (hkind ▸ hopening)
  rw [htext, hc, hmore]
  rfl

/-- A blank is one character. -/
theorem Token.Cut.exists_text_eq_blank {t : Token} (ht : t.Cut) (hblank : t.kind = .blank) :
    ∃ c, isSpacing c = true ∧ t.text = [c] := by
  obtain ⟨c, cs, shape, hshape, hkind, htext, -⟩ := ht
  obtain ⟨hc, hmore⟩ := (extent_of_shape? hshape).blank (hkind ▸ hblank)
  exact ⟨c, hc, by rw [htext, hmore]; rfl⟩

/-- Tokens are cut out of the text by their shapes. -/
theorem cut_of_tokensFrom {skip : Nat} {r : Reached} {s : List Char} {ts : List Token}
    (h : tokensFrom skip r s = some ts) : ∀ t ∈ ts, t.Cut := by
  induction s generalizing skip r ts with
  | nil =>
    rw [tokensFrom, Option.some.injEq] at h
    subst h
    simp
  | cons c cs ih =>
    cases skip with
    | succ skip => exact ih (by simpa [tokensFrom] using h)
    | zero =>
      rw [tokensFrom] at h
      obtain ⟨shape, hshape, h⟩ := Option.bind_eq_some_iff.1 h
      obtain ⟨rest, hrest, rfl⟩ := Option.map_eq_some_iff.1 h
      rw [List.forall_mem_cons]
      exact ⟨⟨c, cs, shape, hshape, rfl, rfl, rfl⟩, ih hrest⟩

/-- The tokens of a text are those that are read from some of its characters on. -/
theorem exists_tokensFrom_of_tokens? {s : List Char} {ts : List Token} (h : tokens? s = some ts) :
    ∃ skip, tokensFrom skip .zero s = some ts := by
  cases s with
  | nil => exact ⟨0, h⟩
  | cons c cs => exact ⟨_, h⟩

end ProofHarness.Lexical
