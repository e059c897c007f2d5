import ProofHarness.Proofs.Attribute.Frame
import ProofHarness.Proofs.Lexical.Rendering

/-!
# Splitting conditional attributes

A conditional attribute that concerns the verifier is split into the items after its predicate, each
without its white space (`bundled?_exact`).  An item is a path of identifiers, with arguments in
brackets or a literal for its value or alone; commas inside brackets do not split it.  Nothing but a
conditional attribute is split.
-/

set_option autoImplicit false

namespace ProofHarness.Attribute

open Text Lexical

variable {ts v rest : List TokenTree}

/-! ## Items -/

/-- Identifiers that are no keywords, with double colons between them. -/
inductive IsSegments : List TokenTree → Prop
  | word {w : List Char} (hw : isIdentifier w = true) : IsSegments [.word w]
  | cons {w : List Char} (hw : isIdentifier w = true) (joint : Bool) {ts : List TokenTree}
      (h : IsSegments ts) : IsSegments (.word w :: .mark ':' true :: .mark ':' joint :: ts)

/-- A path of identifiers, which may start with a double colon. -/
inductive IsPath : List TokenTree → Prop
  | relative {ts : List TokenTree} (h : IsSegments ts) : IsPath ts
  | absolute (joint : Bool) {ts : List TokenTree} (h : IsSegments ts) :
      IsPath (.mark ':' true :: .mark ':' joint :: ts)

/-- A literal, which may have a sign. -/
inductive IsLiteral : List TokenTree → Prop
  | literal (text : List Char) : IsLiteral [.literal text]
  | truth {w : List Char} (hw : w ∈ ["true".toList, "false".toList]) : IsLiteral [.word w]
  | negative (joint : Bool) (text : List Char) : IsLiteral [.mark '-' joint, .literal text]

/-- A path, a path with a bracketed group of arguments, or a path with a literal for its value. -/
inductive IsItem : List TokenTree → Prop
  | path {ts : List TokenTree} (h : IsPath ts) : IsItem ts
  | list {ts : List TokenTree} (h : IsPath ts) (d : Delimiter) (arguments : List TokenTree) :
      IsItem (ts ++ [.group d arguments])
  | value {ts v : List TokenTree} (h : IsPath ts) (joint : Bool) (hv : IsLiteral v) :
      IsItem (ts ++ .mark '=' joint :: v)

/-- A text is an item, with white space between its tokens and around them. -/
def IsItemText (s : List Char) : Prop := ∃ trees, IsSpelled s trees ∧ IsItem trees

/-- Segments are read to their end. -/
theorem IsSegments.exists_segmentsFrom? (h : IsSegments ts)
    (hrest : startsWithColons rest = false) :
    ∃ segments, segmentsFrom? (ts ++ rest) = some (segments, rest) := by
  induction h with
  | @word w hw =>
    refine ⟨[w], ?_⟩
    rw [List.singleton_append, segmentsFrom?_word hrest, if_pos (by simp [isSegment, hw])]
  | @cons w hw joint ts _ ih =>
    obtain ⟨segments, hsegments⟩ := ih
    refine ⟨w :: segments, ?_⟩
    rw [List.cons_append, List.cons_append, List.cons_append, segmentsFrom?,
      if_pos (by simp [isSegment, hw]), hsegments]
    rfl

/-- They begin with an identifier. -/
theorem IsSegments.exists_eq_cons (h : IsSegments ts) :
    ∃ w more, ts = .word w :: more ∧ isIdentifier w = true := by
  cases h with
  | word hw => exact ⟨_, [], rfl, hw⟩
  | cons hw joint h => exact ⟨_, _, rfl, hw⟩

/-- A path is read to its end. -/
theorem IsPath.exists_pathFrom? (h : IsPath ts) (hrest : startsWithColons rest = false) :
    ∃ p, pathFrom? (ts ++ rest) = some (p, rest) := by
  cases h with
  | relative h =>
    obtain ⟨segments, hsegments⟩ := h.exists_segmentsFrom? hrest
    -- The word `unsafe` would be a path of its own, but it is a keyword.
    obtain ⟨w, more, rfl, hw⟩ := h.exists_eq_cons
    have hunsafe : w ≠ "unsafe".toList := by
      rintro rfl
      exact absurd hw (by decide)
    rw [List.cons_append] at hsegments ⊢
    rw [pathFrom?_word, if_neg (by simpa using hunsafe), hsegments]
    exact ⟨_, rfl⟩
  | absolute joint h =>
    obtain ⟨segments, hsegments⟩ := h.exists_segmentsFrom? hrest
    rw [List.cons_append, List.cons_append, pathFrom?, hsegments]
    exact ⟨_, rfl⟩

/-- Literals are expressions. -/
theorem IsLiteral.isExpression (h : IsLiteral v) : isExpression v = true := by
  cases h with
  | literal text => rfl
  | negative joint text => rfl
  | truth hw =>
    rw [List.mem_cons, List.mem_singleton] at hw
    rcases hw with rfl | rfl <;> rfl

/-- Items are read as such. -/
theorem IsItem.isSome_ofTrees? (h : IsItem ts) : (Meta.ofTrees? ts).isSome = true := by
  have hread : ∀ {ts rest : List TokenTree}, IsPath ts → startsWithColons rest = false →
      (∀ p, (Meta.ofRest? p rest).isSome = true) → (Meta.ofTrees? (ts ++ rest)).isSome = true := by
    intro ts rest hts hrest hsome
    obtain ⟨p, hp⟩ := hts.exists_pathFrom? hrest
    rw [Meta.ofTrees?, hp]
    exact hsome p
  cases h with
  | path h =>
    rw [← List.append_nil ts]
    exact hread h rfl fun _ => rfl
  | list h d arguments => exact hread h rfl fun _ => rfl
  | @value ts v h joint hv =>
    refine hread h (by cases v with | nil => rfl | cons t _ => cases t <;> rfl) fun p => ?_
    rw [Meta.ofRest?, if_pos hv.isExpression]
    rfl

/-- The items of a list are meta items whose trees are they themselves without white space. -/
theorem exists_forall₂_isMeta {items : List (List Char)} (h : ∀ d ∈ items, IsItemText d) :
    ∃ readings, List.Forall₂ IsMeta items readings ∧
      readings.map TokenTree.compactAll = items.map compact := by
  induction items with
  | nil => exact ⟨[], .nil, rfl⟩
  | cons d items ih =>
    obtain ⟨⟨trees, hspelled, hitem⟩, hitems⟩ := List.forall_mem_cons.1 h
    obtain ⟨readings, hreadings, hcompact⟩ := ih hitems
    refine ⟨trees :: readings, .cons ⟨hspelled.reads, hitem.isSome_ofTrees?⟩ hreadings, ?_⟩
    rw [List.map_cons, List.map_cons, hcompact, hspelled.compactAll_eq]

/-! ## Attributes -/

/-- A text is exactly one outer attribute, which says something. -/
def IsAttribute (text : String) (m : Meta) : Prop :=
  ∃ joint inner, trees? (trim text.toList) = some [.mark '#' joint, .group .bracket inner] ∧
    Meta.ofTrees? inner = some m

/-- What is read as an attribute, said without the reader. -/
theorem ofAttribute?_eq_some_iff {text : String} {m : Meta} :
    Meta.ofAttribute? text.toList = some m ↔ IsAttribute text m := by
  rw [Meta.ofAttribute?]
  constructor
  · intro h
    split at h
    · next joint inner htrees => exact ⟨joint, inner, htrees, h⟩
    · cases h
  · rintro ⟨joint, inner, htrees, hm⟩
    rw [htrees]
    exact hm

/-- Only an attribute with the path of a conditional one bundles something. -/
theorem exists_isAttribute_of_bundled? {text : String} {parts : List String}
    (h : bundled? text = some parts) :
    ∃ m, IsAttribute text m ∧ m.name.isIdent "cfg_attr" = true := by
  rw [bundled?] at h
  split at h
  · obtain ⟨arguments, harguments, -⟩ := Option.bind_eq_some_iff.1 h
    obtain ⟨m, hm, hconditional⟩ := Option.bind_eq_some_iff.1 harguments
    refine ⟨m, ofAttribute?_eq_some_iff.1 hm, ?_⟩
    cases m with
    | list p d arguments =>
      rw [conditionalArguments?] at hconditional
      split at hconditional
      · assumption
      · cases hconditional
    | _ => cases hconditional
  · cases h

/-- A conditional attribute of items bundles the items after the first, each without its white
space, if the name of the tool is in its text, and nothing otherwise.  A text that is not exactly
one attribute, or one with another path, bundles nothing. -/
theorem bundled?_exact :
    (∀ (f : Frame) (p : List Char) (items : List (List Char)), IsItemText p →
      (∀ d ∈ items, IsItemText d) →
        bundled? (String.ofList (f.text p items)) =
          if contains "kani::".toList (f.text p items) then
            some (items.map fun d => String.ofList (compact d))
          else none) ∧
      ∀ text : String, (∀ m, IsAttribute text m → m.name.isIdent "cfg_attr" = false) →
        bundled? text = none := by
  constructor
  · intro f p items hp hitems
    obtain ⟨condition, hspelled, hcondition⟩ := hp
    -- What each item is read as is written down again without its blanks.
    obtain ⟨readings, hreadings, hcompact⟩ := exists_forall₂_isMeta hitems
    split
    · next htool =>
      have hstrings := congrArg (List.map String.ofList) hcompact
      rw [List.map_map, List.map_map] at hstrings
      rw [f.bundled?_text ⟨hspelled.reads, hcondition.isSome_ofTrees?⟩ hreadings htool]
      exact congrArg some hstrings
    · next htool =>
      rw [bundled?, mentions, String.toList_ofList]
      exact if_neg htool
  · intro text hother
    rw [Option.eq_none_iff_forall_ne_some]
    intro parts hparts
    obtain ⟨m, hm, hident⟩ := exists_isAttribute_of_bundled? hparts
    rw [hother m hm] at hident
    cases hident

/-- Commas in brackets, white space and a comma at the end do not split the items. -/
theorem bundled?_exact_stub :
    bundled? (String.ofList (Frame.text ⟨.empty, .empty, .space, .empty, some .space, .empty, .space⟩
      "all(kani, test)".toList [" kani::proof".toList, "\tkani::stub(a, b) ".toList])) =
        some (["kani::proof".toList, "kani::stub(a,b)".toList].map String.ofList) := by
  have hcondition : IsItemText "all(kani, test)".toList :=
    ⟨_, ⟨_, rfl, rfl, by decide⟩, .list (.relative (.word (by decide))) .paren _⟩
  have hproof : IsItemText " kani::proof".toList :=
    ⟨_, ⟨_, rfl, rfl, by decide⟩, .path (.relative (.cons (by decide) _ (.word (by decide))))⟩
  have hstub : IsItemText "\tkani::stub(a, b) ".toList :=
    ⟨_, ⟨_, rfl, rfl, by decide⟩,
      .list (.relative (.cons (by decide) _ (.word (by decide)))) .paren _⟩
  rw [bundled?_exact.1 _ _ _ hcondition
    (List.forall_mem_cons.2 ⟨hproof, List.forall_mem_singleton.2 hstub⟩), if_pos (by decide)]
  have hproofText : compact " kani::proof".toList = "kani::proof".toList := by decide
  have hstubText : compact "\tkani::stub(a, b) ".toList = "kani::stub(a,b)".toList := by decide
  rw [List.map_cons, List.map_singleton, hproofText, hstubText]
  rfl

end ProofHarness.Attribute
