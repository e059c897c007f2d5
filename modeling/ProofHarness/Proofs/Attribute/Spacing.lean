import ProofHarness.Attribute.Directive
import ProofHarness.Proofs.Text.Blank
import ProofHarness.Proofs.Text.Marker

/-!
# Squeezing the blanks out of a text

A word stays whole in a text if it is nowhere made by squeezing the blanks out.  Such a word
(`contains_compact`) and its payload (`payload?_compact`) are found in the squeezed text where they
are found in the text, and so is the first number of a text in which no blank stands between it and
another digit (`firstDecimals_compact`).
-/

set_option autoImplicit false

namespace ProofHarness.Attribute

open Text Lexical

/-! ## Words -/

/-- Whether a text starts with a word without its blanks only if it does with them. -/
def startsWhole (w s : List Char) : Bool := !w.isPrefixOf (compact s) || w.isPrefixOf s

/-- Whether squeezing the blanks out of a text puts a word nowhere where it was not. -/
def staysWhole (w : List Char) : List Char → Bool
  | [] => true
  | c :: cs => (isBlank c || startsWhole w (c :: cs)) && staysWhole w cs

/-- A word stays whole if it does so at the start, unless a blank is there, and in the rest. -/
theorem staysWhole_cons {w : List Char} {c : Char} {cs : List Char} :
    staysWhole w (c :: cs) = true ↔
      (isBlank c = false → startsWhole w (c :: cs) = true) ∧ staysWhole w cs = true := by
  rw [staysWhole, Bool.and_eq_true]
  cases isBlank c <;> simp

/-- A word without blanks. -/
structure IsWord (w : List Char) : Prop where
  ne_nil : w ≠ []
  isBlank : ∀ c ∈ w, isBlank c = false

variable {w s : List Char}

namespace IsWord

/-- Words have no blanks. -/
theorem not_mem_of_isBlank (hw : IsWord w) {c : Char} (hc : Text.isBlank c = true) : c ∉ w := by
  intro hmem
  rw [hw.isBlank c hmem] at hc
  cases hc

/-- A word has no blanks at its ends. -/
theorem isSolid (hw : IsWord w) : IsSolid w := by
  constructor
  · rw [List.head?_eq_some_head hw.ne_nil, Option.map_some, hw.isBlank _ (List.head_mem _)]
  · rw [List.getLast?_eq_some_getLast hw.ne_nil, Option.map_some,
      hw.isBlank _ (List.getLast_mem _)]

end IsWord

/-- A word does not start with a blank. -/
theorem stripPrefix_eq_none_of_isBlank (hw : IsWord w) {c : Char} (hc : isBlank c = true)
    (cs : List Char) : stripPrefix w (c :: cs) = none := by
  cases w with
  | nil => exact absurd rfl hw.ne_nil
  | cons p ps =>
    have hp := hw.isBlank p List.mem_cons_self
    rw [stripPrefix, if_neg]
    rw [beq_iff_eq]
    rintro rfl
    rw [hp] at hc
    cases hc

/-- Where a word is not torn it stands in front before and after blanks are left out. -/
theorem stripPrefix_compact (hw : IsWord w) (hs : startsWhole w s = true) :
    stripPrefix w (compact s) = (stripPrefix w s).map compact := by
  cases hstrip : stripPrefix w s with
  | some rest =>
    rw [stripPrefix_eq_some_iff] at hstrip
    rw [hstrip, compact_append, compact_eq_self_of_all hw.isBlank, Option.map_some,
      stripPrefix_eq_some_iff]
  | none =>
    rw [Option.map_none, Option.eq_none_iff_forall_ne_some]
    intro rest hrest
    rw [stripPrefix_eq_some_iff] at hrest
    rw [startsWhole, hrest, List.isPrefixOf_iff_prefix.2 (List.prefix_append w rest), Bool.not_true,
      Bool.false_or, List.isPrefixOf_iff_prefix] at hs
    obtain ⟨rest', rfl⟩ := hs
    rw [stripPrefix_eq_some_iff.2 rfl] at hstrip
    cases hstrip

/-- A word occurs at the start of a text or in the rest. -/
theorem contains_cons (w : List Char) (c : Char) (cs : List Char) :
    contains w (c :: cs) = ((stripPrefix w (c :: cs)).isSome || contains w cs) := by
  rw [contains, splitOnce]
  cases stripPrefix w (c :: cs) with
  | none => simp [contains]
  | some r => rfl

/-- A word that stays whole is in the squeezed text if it is in the text. -/
theorem contains_compact (hw : IsWord w) (hs : staysWhole w s = true) :
    contains w (compact s) = contains w s := by
  induction s with
  | nil => rfl
  | cons c cs ih =>
    obtain ⟨hstart, hs⟩ := staysWhole_cons.1 hs
    cases hc : isBlank c with
    | true =>
      rw [compact_cons_of_isBlank hc, ih hs, contains_cons, stripPrefix_eq_none_of_isBlank hw hc]
      rfl
    | false =>
      have hstrip := stripPrefix_compact hw (hstart hc)
      rw [compact_cons_of_not_isBlank hc] at hstrip ⊢
      rw [contains_cons, contains_cons, hstrip, Option.isSome_map, ih hs]

/-! ## Payloads -/

/-- What stands between a parenthesis that opens a text and the first one that closes. -/
def parenthesized? : List Char → Option (List Char)
  | '(' :: inner => if inner.contains ')' then some (inner.takeWhile (· != ')')) else none
  | _ => none

/-- The payload of a text is in the parentheses after the word and some blanks. -/
theorem payloadHere?_eq (w s : List Char) :
    payloadHere? w s = (stripPrefix w s).bind fun rest => parenthesized? (trimStart rest) := rfl

/-- Parentheses start with an opening one. -/
theorem parenthesized?_cons_of_ne {c : Char} (hc : c ≠ '(') (cs : List Char) :
    parenthesized? (c :: cs) = none := by
  unfold parenthesized?
  split
  · next heq => exact absurd (List.cons.inj heq).1 hc
  · rfl

/-- Parentheses are no blanks, so that leaving these out keeps the payload but for its own. -/
theorem parenthesized?_compact (s : List Char) :
    parenthesized? (compact s) = (parenthesized? (trimStart s)).map compact := by
  rw [← compact_dropWhile s, trimStart]
  cases hs : s.dropWhile isBlank with
  | nil => rfl
  | cons c inner =>
    have hc : isBlank c = false := by
      have hhead := List.head?_dropWhile_not isBlank s
      rw [hs] at hhead
      simpa using hhead
    rw [compact_cons_of_not_isBlank hc]
    by_cases hparen : c = '('
    · subst hparen
      have hclosing : isBlank ')' = false := by decide
      have hcontains : (compact inner).contains ')' = inner.contains ')' := by
        rw [Bool.eq_iff_iff, List.contains_iff_mem, List.contains_iff_mem, compact, List.mem_filter]
        simp [hclosing]
      -- The closing parenthesis is not blank, so that the payload ends at the same one.
      have htake : (compact inner).takeWhile (· != ')') = compact (inner.takeWhile (· != ')')) := by
        apply takeWhile_compact
        intro d hd
        rw [bne_iff_ne]
        rintro rfl
        rw [hclosing] at hd
        cases hd
      rw [parenthesized?, parenthesized?, hcontains, htake]
      split <;> rfl
    · rw [parenthesized?_cons_of_ne hparen, parenthesized?_cons_of_ne hparen]
      rfl

/-- The payload at the start of a text stays, but for its blanks. -/
theorem payloadHere?_compact (hw : IsWord w) (hs : startsWhole w s = true) :
    payloadHere? w (compact s) = (payloadHere? w s).map compact := by
  rw [payloadHere?_eq, stripPrefix_compact hw hs, payloadHere?_eq]
  cases stripPrefix w s with
  | none => rfl
  | some rest =>
    rw [Option.map_some, Option.bind_some, Option.bind_some, trimStart_compact,
      parenthesized?_compact]

/-- The payload of a word that stays whole is squeezed with the text. -/
theorem payload?_compact (hw : IsWord w) (hs : staysWhole w s = true) :
    payload? w (compact s) = (payload? w s).map compact := by
  induction s with
  | nil => rfl
  | cons c cs ih =>
    obtain ⟨hstart, hs⟩ := staysWhole_cons.1 hs
    cases hc : isBlank c with
    | true =>
      rw [compact_cons_of_isBlank hc, ih hs, payload?, payloadHere?_eq,
        stripPrefix_eq_none_of_isBlank hw hc]
      rfl
    | false =>
      have hhere := payloadHere?_compact hw (hstart hc)
      rw [compact_cons_of_not_isBlank hc] at hhere ⊢
      rw [payload?, payload?, hhere, ih hs]
      cases payloadHere? w (c :: cs) <;> rfl

/-! ## Numbers -/

/-- What comes after the first number of a text. -/
def afterDecimals (s : List Char) : List Char :=
  (s.dropWhile fun c => !isDecimal c).dropWhile isDecimal

/-- Whether no digit comes after the first number of a text and some blanks. -/
def numberStaysWhole (s : List Char) : Bool := !(trimStart (afterDecimals s)).head?.any isDecimal

/-- The first number is the same without blanks. -/
theorem firstDecimals_compact (hs : numberStaysWhole s = true) :
    firstDecimals (compact s) = firstDecimals s := by
  have hparts : s.dropWhile (fun c => !isDecimal c) = firstDecimals s ++ afterDecimals s :=
    List.takeWhile_append_dropWhile.symm
  have hdecimals : ∀ c ∈ firstDecimals s, isDecimal c = true := fun c hc =>
    List.mem_takeWhile_imp hc
  have hwhole : compact (firstDecimals s) = firstDecimals s := by
    apply compact_eq_self_of_all
    intro c hc
    rw [Bool.eq_false_iff]
    intro hblank
    have hdecimal := hdecimals c hc
    rw [isDecimal_of_isBlank hblank] at hdecimal
    cases hdecimal
  have hafter : (compact (afterDecimals s)).takeWhile isDecimal = [] := by
    rw [numberStaysWhole, trimStart, ← head?_compact] at hs
    cases hrest : compact (afterDecimals s) with
    | nil => rfl
    | cons d ds =>
      rw [hrest] at hs
      exact List.takeWhile_cons_of_neg (by simpa using hs)
  rw [firstDecimals, dropWhile_not_compact fun c => isDecimal_of_isBlank, hparts, compact_append,
    hwhole, List.takeWhile_append_of_pos hdecimals, hafter, List.append_nil]

end ProofHarness.Attribute
