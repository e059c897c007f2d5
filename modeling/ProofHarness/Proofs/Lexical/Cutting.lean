import ProofHarness.Lexical.TokenTree
import ProofHarness.Proofs.Lexical.TokenExtent

/-!
# Cutting composed texts

The tokens of a text that is put together are those of its parts, but for the places that they
keep (`bareTokens_append`).  Places do not matter to the trees that tokens are grouped into.
-/

set_option autoImplicit false

namespace ProofHarness.Lexical

open Text

/-- A token that keeps nothing of its place. -/
def Token.bare (t : Token) : Token :=
  { t with start := .zero, index := 0, before := [], after := [] }

/-- The tokens of a text without their places. -/
def bareTokens (s : List Char) : Option (List Token) :=
  (tokensFrom 0 .zero s).map (List.map Token.bare)

/-- The token of a given shape with a given text. -/
def Shape.token (shape : Shape) (text : List Char) : Token where
  kind := shape.kind
  sound := shape.sound
  start := .zero
  index := 0
  before := []
  text := text
  after := []

/-- The tokens without their places do not depend on where the text stands. -/
theorem map_bare_tokensFrom (skip : Nat) (r : Reached) (s : List Char) :
    (tokensFrom skip r s).map (List.map Token.bare) = bareTokens (s.drop skip) := by
  -- What was read before is kept in the places only, so that any two such beginnings agree.
  have hsame : ∀ (s : List Char) (skip : Nat) (r r' : Reached),
      (tokensFrom skip r s).map (List.map Token.bare) =
        (tokensFrom skip r' s).map (List.map Token.bare) := by
    intro s
    induction s with
    | nil =>
      intro skip r r'
      rw [tokensFrom, tokensFrom]
    | cons c cs ih =>
      intro skip r r'
      cases skip with
      | succ skip => exact ih skip (r.next c) (r'.next c)
      | zero =>
        rw [tokensFrom, tokensFrom, Option.map_bind, Option.map_bind]
        congr 1
        funext shape
        have h := ih shape.more (r.next c) (r'.next c)
        have hcons : ∀ (o : Option (List Token)) (t : Token),
            (o.map (t :: ·)).map (List.map Token.bare) =
              (o.map (List.map Token.bare)).map (t.bare :: ·) := by
          intro o t
          cases o <;> rfl
        simp only [Function.comp_apply, hcons, h]
        rfl
  induction s generalizing skip r with
  | nil =>
    rw [tokensFrom, List.drop_nil]
    rfl
  | cons c cs ih =>
    cases skip with
    | zero => exact hsame (c :: cs) 0 r .zero
    | succ skip => exact ih skip (r.next c)

/-- The tokens of a text are that with which it starts and those of what comes after it. -/
theorem bareTokens_cons (c : Char) (cs : List Char) :
    bareTokens (c :: cs) = (shape? c cs).bind fun shape =>
      (bareTokens (cs.drop shape.more)).map (shape.token (c :: cs.take shape.more) :: ·) := by
  rw [bareTokens, tokensFrom, Option.map_bind]
  congr 1
  funext shape
  rw [← map_bare_tokensFrom shape.more (Reached.zero.next c) cs, Function.comp_apply]
  generalize tokensFrom shape.more (Reached.zero.next c) cs = rest
  cases rest <;> rfl

/-- No comment is open at the end of some tokens. -/
def EndsClosed (ts : List Token) : Prop := ∀ t, ts.getLast? = some t → t.kind ≠ .lineComment

/-- Before a character at which tokens end, a text is cut as it is cut alone. -/
theorem bareTokens_append {c : Char} (hc : isStop c = true) {s : List Char} {ts : List Token}
    (hs : bareTokens s = some ts) (hts : EndsClosed ts) (b : List Char) :
    bareTokens (s ++ c :: b) = (bareTokens (c :: b)).map (ts ++ ·) := by
  match s with
  | [] =>
    rw [← Option.some.inj hs]
    simp
  | d :: ds =>
    rw [bareTokens_cons] at hs
    obtain ⟨shape, hshape, hs⟩ := Option.bind_eq_some_iff.1 hs
    obtain ⟨rest, hrest, rfl⟩ := Option.map_eq_some_iff.1 hs
    have hle := shape?_le hshape
    -- A line comment up to the end would be the last token, and go on with the stop.
    have hopen : shape.kind = .lineComment → shape.more < ds.length := by
      intro hkind
      refine Nat.lt_of_not_le fun hnot => ?_
      have hend : ds.drop shape.more = [] := List.drop_eq_nil_of_le hnot
      rw [hend] at hrest
      have hnil : rest = [] := (Option.some.inj hrest).symm
      subst hnil
      exact hts _ rfl hkind
    have hrests : EndsClosed rest := by
      intro t ht
      apply hts t
      rw [List.getLast?_cons, ht]
      rfl
    have ih := bareTokens_append hc hrest hrests b
    rw [List.cons_append, bareTokens_cons, shape?_append hc hshape hopen, Option.bind_some,
      List.drop_append_of_le_length hle, List.take_append_of_le_length hle, ih, Option.map_map]
    rfl
termination_by s.length
decreasing_by
  rw [List.length_drop, List.length_cons]
  omega

end ProofHarness.Lexical
