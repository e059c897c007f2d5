import ProofHarness.Proofs.Attribute.Frame
import ProofHarness.Proofs.Text.Occurrence

/-!
# Attributes that are put together

A conditional attribute that is put together from a predicate and meta items bundles these items
(`bundled?_conditionalText`).  A meta item that is made an attribute of its own is read as that
item.
-/

set_option autoImplicit false

namespace ProofHarness.Attribute

open Text Lexical

/-- The attribute that says one thing. -/
def attributeText (s : List Char) : List Char := '#' :: '[' :: (s ++ [']'])

/-- The items after the predicate of a conditional attribute, up to its closing brackets. -/
def itemsText (items : List (List Char)) : List Char :=
  items.flatMap (fun d => ',' :: ' ' :: d) ++ [')', ']']

/-- The attribute that says some things under a condition. -/
def conditionalText (p : List Char) (items : List (List Char)) : List Char :=
  '#' :: '[' :: ("cfg_attr".toList ++ '(' :: (p ++ itemsText items))

/-- The items of a conditional attribute are parts of it. -/
theorem isInfix_conditionalText {d : List Char} (p : List Char) {items : List (List Char)}
    (hd : d ∈ items) : d <:+: conditionalText p items := by
  obtain ⟨before, after, rfl⟩ := List.append_of_mem hd
  refine ⟨'#' :: '[' :: ("cfg_attr".toList ++ '(' ::
    (p ++ (before.flatMap (fun d => ',' :: ' ' :: d) ++ [',', ' ']))), itemsText after, ?_⟩
  simp [conditionalText, itemsText]

/-! ## Conditional attributes -/

/-- The white space in such an attribute stands in front of its items only. -/
def plainFrame : Frame := ⟨.empty, .empty, .empty, .empty, none, .empty, .empty⟩

/-- The plain way to write a conditional attribute is that of a frame without further blanks. -/
theorem conditionalText_eq (p : List Char) (items : List (List Char)) :
    conditionalText p items = plainFrame.text p (items.map (' ' :: ·)) := by
  simp [conditionalText, itemsText, plainFrame, Frame.text, Frame.ending, Gap.empty,
    List.flatMap_map]

/-- A blank in front of an item has no part in it. -/
theorem reads_cons_space {d : List Char} {trees : List TokenTree} (h : Reads d trees) :
    Reads (' ' :: d) trees := by
  obtain ⟨ts, hts, hclosed, htrees⟩ := h
  have hshape : shape? ' ' d = some ⟨.blank, 0, true⟩ := rfl
  refine ⟨Shape.token ⟨.blank, 0, true⟩ [' '] :: ts, ?_, ?_, htrees⟩
  · rw [bareTokens_cons, hshape, Option.bind_some, List.drop_zero, hts]
    rfl
  · intro t ht
    cases ts with
    | nil =>
      rw [List.getLast?_singleton, Option.some.injEq] at ht
      rw [← ht]
      exact TokenKind.noConfusion
    | cons u us =>
      rw [List.getLast?_cons_cons] at ht
      exact hclosed t ht

/-- A conditional attribute is read as one. -/
theorem exists_ofAttribute?_conditionalText {p : List Char} {condition : List TokenTree}
    (hp : Reads p condition) {items : List (List Char)} {trees : List (List TokenTree)}
    (h : List.Forall₂ Reads items trees) :
    ∃ arguments, Meta.ofAttribute? (conditionalText p items) =
      some (.list ⟨false, ["cfg_attr".toList]⟩ .paren arguments) := by
  have hitems : List.Forall₂ Reads (items.map (' ' :: ·)) trees :=
    List.forall₂_map_left_iff.2 (h.imp fun _ _ => reads_cons_space)
  obtain ⟨condition', rest, last, -, -, -, hread⟩ := plainFrame.ofAttribute?_text hp hitems
  rw [conditionalText_eq]
  exact ⟨_, hread⟩

/-- The directives of a conditional attribute are its items without their blanks. -/
theorem bundled?_conditionalText {p : List Char} {condition : List TokenTree}
    (hp : IsMeta p condition) {items : List (List Char)} {trees : List (List TokenTree)}
    (h : List.Forall₂ IsMeta items trees)
    (htool : contains toolName.toList (conditionalText p items) = true) :
    bundled? (String.ofList (conditionalText p items)) =
      some (trees.map fun ts => String.ofList (TokenTree.compactAll ts)) := by
  have hitems : List.Forall₂ IsMeta (items.map (' ' :: ·)) trees :=
    List.forall₂_map_left_iff.2 (h.imp fun _ _ h => ⟨reads_cons_space h.1, h.2⟩)
  rw [conditionalText_eq] at htool ⊢
  exact plainFrame.bundled?_text hp hitems htool

/-! ## Single items -/

/-- The attribute that says one thing is read as the meta item that it says. -/
theorem ofAttribute?_attributeText {s : List Char} {trees : List TokenTree} (h : Reads s trees) :
    ∃ trees', SameButEnd trees trees' ∧
      Meta.ofAttribute? (attributeText s) = Meta.ofTrees? trees' := by
  obtain ⟨trees', hsame, hread⟩ :=
    (Groups.mk [(.bracket, [.mark '#' false])] []).read_append h (c := ']') (by decide) []
  refine ⟨trees', hsame, ?_⟩
  have htrim : trim (attributeText s) = attributeText s := trim_attribute ('[' :: s)
  have hstart : trees? (attributeText s) = (Groups.mk [] []).read (attributeText s) :=
    Groups.trees?_eq_read (by decide) _
  have htrees : trees? (attributeText s) = some [.mark '#' false, .group .bracket trees'] := by
    rw [hstart, attributeText, Groups.read_mark _ rfl (by decide),
      Groups.read_opening _ (c := '[') (b := .bracket) rfl, Groups.push, hread,
      Groups.read_closing (c := ']') rfl]
    simp [Groups.read_nil, Groups.trees?, groupFrom]
  rw [Meta.ofAttribute?, htrim, htrees]
  rfl

end ProofHarness.Attribute
