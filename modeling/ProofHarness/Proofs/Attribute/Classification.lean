import ProofHarness.Proofs.Attribute.Leftmost
import ProofHarness.Proofs.Attribute.PathPlace
import ProofHarness.Proofs.Attribute.Squeezed

/-!
# Directives by their paths

A directive is read off a text by the names that stand in it, wherever that is: the first name in a
fixed order decides, where that of a bound counts only if there is a payload for it
(`ofText_eq_find?`).  A path that is written without white space and comments stands in the text, so
that its own name is found there.  Where no name that would count before it stands elsewhere, the
directive is the one for which the path asks (`ofText_follows_path`), whatever else the attribute
says.
-/

set_option autoImplicit false

namespace ProofHarness.Attribute

open Text Lexical

variable {text : String} {m : Meta} {w : List Char}

/-! ## Directives of paths -/

/-- Whether a meta item is one identifier. -/
def Meta.isIdent (name : String) : Meta → Bool
  | .path p => p.isIdent name
  | _ => false

/-! ## Names that count -/

/-- The words after the name of the tool by which directives are told apart, in the order in which
they count. -/
def segmentNames : List (List Char) :=
  ["proof", "unwind", "solver", "stub", "should_panic", "cover"].map String.toList

/-- Whether a path speaks by a name: the segment `w` begins with it, and for a bound is this name
and has an argument. -/
def speaksBy (w : List Char) (argument : Option (List Char)) (p : List Char) : Bool :=
  p.isPrefixOf w && (p != "unwind".toList || w == "unwind".toList && argument.isSome)

/-- The names that count before that of a path; these are all if the path has none. -/
def outranking (w : List Char) (argument : Option (List Char)) : List (List Char) :=
  segmentNames.takeWhile fun p => !speaksBy w argument p

/-- Whether a name stands before a path or after the name of the tool with which the path starts. -/
def standsElsewhere (text : String) (w p : List Char) : Bool :=
  contains (toolName.toList ++ p) (beforePath text) ||
    contains (toolName.toList ++ p) (w ++ afterPath text)

/-- Nothing in an attribute talks over its path. -/
structure SpeaksByPath (text : String) (m : Meta) (w : List Char) : Prop where
  /-- No name that counts before that of the path stands elsewhere. -/
  names : ∀ p ∈ outranking w (argument? text), standsElsewhere text w p = true →
    p = "unwind".toList ∧ payload? "unwind".toList text.toList = none
  /-- No other argument is taken for that of the path. -/
  payload : ∀ word ∈ payloadNames, word.isPrefixOf w = true →
    opensAfter word (beforePath text) = false ∧
      (w = word ∧ (argument? text).isSome = true ∨ opensAfter word (w ++ afterPath text) = false)
  /-- An argument that is read off the text is found behind its word. -/
  argument : w ∈ payloadNames → m.isCall = true → (argument? text).isSome = true

/-- The directive for which a name asks, with a bound and a solver in case it asks for these. -/
def Directive.ofName (bound : UnwindBound) (choice : String) (p : List Char) : Directive :=
  if p == "proof".toList then .proof
  else if p == "unwind".toList then .unwind bound
  else if p == "solver".toList then .solver choice
  else if p == "stub".toList then .stub
  else if p == "should_panic".toList then .shouldPanic
  else .cover

/-- A word of which all characters may stand in an identifier does not reach over its end. -/
theorem isPrefixOf_append_of_stop {p s b : List Char} (hp : ∀ c ∈ p, isIdentContinue c = true)
    (hb : ∀ c, b.head? = some c → isIdentContinue c = false) :
    p.isPrefixOf (s ++ b) = p.isPrefixOf s := by
  cases b with
  | nil => rw [List.append_nil]
  | cons c cs =>
    apply isPrefixOf_append_cons
    intro hc
    have hstop := hb c rfl
    rw [hp c hc] at hstop
    cases hstop

/-- What two texts start with does not matter where it is the same. -/
theorem isPrefixOf_append_left (a p s : List Char) :
    (a ++ p).isPrefixOf (a ++ s) = p.isPrefixOf s := by
  rw [Bool.eq_iff_iff, List.isPrefixOf_iff_prefix, List.isPrefixOf_iff_prefix,
    List.prefix_append_right_inj]

/-- A name is in the text if the path begins with it or if it stands elsewhere. -/
theorem PlacedPath.contains_eq (h : PlacedPath text m w) {p : List Char} (hp : p ∈ segmentNames) :
    contains (toolName.toList ++ p) text.toList = (p.isPrefixOf w || standsElsewhere text w p) := by
  have hnames : ∀ p ∈ segmentNames, toolName.toList ++ p ∈ directiveNames ∧
      'k' ∉ "ani::".toList ++ p ∧ p.all isIdentContinue = true := by decide +kernel
  obtain ⟨hname, hfresh, hword⟩ := hnames p hp
  have htool : toolName.toList = 'k' :: "ani::".toList := rfl
  rw [standsElsewhere, ← contains_trim (isWord_of_mem (List.mem_append_left _ hname)).isSolid, h.eq]
  rw [htool, List.cons_append]
  rw [List.cons_append, contains_append_cons_of_fresh hfresh,
    contains_append_of_not_mem (by decide), isPrefixOf_append_left,
    isPrefixOf_append_of_stop (List.all_eq_true.1 hword) h.stop]
  exact Bool.or_left_comm _ _ _

/-! ## Arguments -/

/-- Blanks around a text do not matter to a payload. -/
theorem payload?_trim (hw : IsWord w) (s : List Char) : payload? w (trim s) = payload? w s := by
  obtain ⟨front, back, hfront, hback, hs⟩ := exists_trim_append s
  -- Blanks are neither in the word nor parentheses, so that they are passed over.
  have hstart : ∀ front : List Char, (∀ c ∈ front, isBlank c = true) → ∀ t,
      payload? w (front ++ t) = payload? w t := by
    intro front hfront t
    induction front with
    | nil => rfl
    | cons c cs ih =>
      have hc : c ∉ w := hw.not_mem_of_isBlank (hfront c List.mem_cons_self)
      rw [List.cons_append, payload?_cons_of_not_mem hc hw.ne_nil,
        ih (List.forall_mem_cons.1 hfront).2]
  have hstop : ∀ back : List Char, (∀ c ∈ back, isBlank c = true) → ∀ t,
      payload? w (t ++ back) = payload? w t := by
    intro back hback
    induction back with
    | nil => simp
    | cons c cs ih =>
      intro t
      have hc : c ∉ w := hw.not_mem_of_isBlank (hback c List.mem_cons_self)
      have hparens : c ≠ '(' ∧ c ≠ ')' := by
        have hblank := hback c List.mem_cons_self
        constructor
        · rintro rfl
          exact absurd hblank (by decide)
        · rintro rfl
          exact absurd hblank (by decide)
      have hsame : t ++ c :: cs = t ++ [c] ++ cs := by simp
      rw [hsame, ih (List.forall_mem_cons.1 hback).2,
        payload?_append_singleton hc hw.ne_nil hparens]
  calc payload? w (trim s) = payload? w (front ++ (trim s ++ back)) := by
        rw [hstart front hfront, hstop back hback]
    _ = payload? w s := by rw [hs]

/-- The payload of a segment that goes on after the word is not that of the word. -/
theorem PlacedPath.payloadHere?_eq (h : PlacedPath text m w) {word : List Char}
    (hw : word.isPrefixOf w = true) :
    payloadHere? word (w ++ afterPath text) = if w == word then argument? text else none := by
  obtain ⟨v, rfl⟩ := List.isPrefixOf_iff_prefix.1 hw
  have hstrip : stripPrefix word (word ++ v ++ afterPath text) = some (v ++ afterPath text) := by
    rw [stripPrefix_eq_some_iff, List.append_assoc]
  rw [Attribute.payloadHere?_eq, hstrip, Option.bind_some]
  cases v with
  | nil =>
    rw [List.append_nil, if_pos (by simp)]
    rfl
  | cons c cs =>
    have hc : isBlank c = false ∧ c ≠ '(' := by
      rcases h.word c (by simp) with hc | rfl
      · constructor
        · rw [Bool.eq_false_iff]
          intro hblank
          rw [isIdentContinue_of_isBlank hblank] at hc
          cases hc
        · rintro rfl
          exact absurd hc (by decide)
      · decide
    rw [if_neg (by simp), List.cons_append, trimStart_cons_of_not_isBlank hc.1,
      parenthesized?_cons_of_ne hc.2]

/-- The payload that is found is the argument of the path. -/
theorem PlacedPath.payload?_eq (h : PlacedPath text m w) {word : List Char}
    (hword : word ∈ payloadNames) (hw : word.isPrefixOf w = true)
    (hbefore : opensAfter word (beforePath text) = false)
    (hafter : w = word ∧ (argument? text).isSome = true ∨
      opensAfter word (w ++ afterPath text) = false) :
    payload? word text.toList = if w == word then argument? text else none := by
  have hwords : ∀ word ∈ payloadNames, word.headD ' ' ∉ word.tail ∧
      isBlank (word.headD ' ') = false ∧ word.headD ' ' ≠ '(' := by decide
  obtain ⟨hfresh, hplain⟩ := hwords word hword
  have hisWord := isWord_of_mem (List.mem_append_right directiveNames hword)
  have hfront : opensAfter word (beforePath text ++ toolName.toList) = false := by
    rw [opensAfter_append_of_not_mem (by decide), hbefore]
  -- Nothing in front opens a payload of the word, so that the search gets to the path.
  have hplace : payload? word (trim text.toList) = payload? word (w ++ afterPath text) := by
    rw [h.eq, ← List.append_assoc]
    cases word with
    | nil => exact absurd rfl hisWord.ne_nil
    | cons d ds =>
      obtain ⟨v, rfl⟩ := List.isPrefixOf_iff_prefix.1 hw
      exact payload?_append_cons_of_fresh hfresh hplain hfront _
  have hne : w ++ afterPath text ≠ [] := by
    intro hnil
    rw [(List.append_eq_nil_iff.1 hnil).1, List.isPrefixOf_iff_prefix, List.prefix_nil] at hw
    exact hisWord.ne_nil hw
  have hhere : (payloadHere? word (w ++ afterPath text)).isSome = true ∨
      opensAfter word (w ++ afterPath text) = false := by
    refine hafter.imp_left ?_
    rintro ⟨hsame, hargument⟩
    rw [h.payloadHere?_eq hw, hsame, if_pos (beq_self_eq_true word), hargument]
  calc payload? word text.toList = payload? word (trim text.toList) :=
        (payload?_trim hisWord text.toList).symm
    _ = payloadHere? word (w ++ afterPath text) := by
        rw [hplace, payload?_eq_payloadHere? hne hhere]
    _ = if w == word then argument? text else none := h.payloadHere?_eq hw

/-- Where nothing talks over the path, the payload of a word with which its segment begins is its
argument. -/
theorem SpeaksByPath.payload?_eq (h : SpeaksByPath text m w) (hplace : PlacedPath text m w)
    {word : List Char} (hword : word ∈ payloadNames) (hstarts : word.isPrefixOf w = true) :
    payload? word text.toList = if w == word then argument? text else none := by
  obtain ⟨hbefore, hafter⟩ := h.payload word hword hstarts
  exact hplace.payload?_eq hword hstarts hbefore hafter

end ProofHarness.Attribute
