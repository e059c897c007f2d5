import Mathlib.Data.List.Forall2
import ProofHarness.Attribute.Directive
import ProofHarness.Proofs.Attribute.Pieces
import ProofHarness.Proofs.Lexical.Spelling

/-!
# Conditional attributes with white space

A conditional attribute that says some meta items under a condition bundles these items
(`Frame.bundled?_text`), whatever white space there is around its parts and whether or not there is
a comma at the end of its list.
-/

set_option autoImplicit false

namespace ProofHarness.Attribute

open Text Lexical

/-- A text is a meta item. -/
def IsMeta (s : List Char) (trees : List TokenTree) : Prop :=
  Reads s trees ∧ (Meta.ofTrees? trees).isSome = true

/-- No blanks stand around an attribute. -/
theorem trim_attribute (s : List Char) : trim ('#' :: (s ++ [']'])) = '#' :: (s ++ [']']) :=
  trim_cons_append_cons (by decide) (by decide) s []

/-- What a conditional attribute has apart from the items of its list. -/
structure Frame where
  front : Gap
  /-- After the number sign. -/
  sign : Gap
  /-- After the opening bracket. -/
  opening : Gap
  /-- After the name. -/
  name : Gap
  /-- After a comma at the end of the list, if there is one. -/
  last : Option Gap
  /-- After the list. -/
  list : Gap
  back : Gap

namespace Frame

/-- The end of the list and of the attribute. -/
def ending (f : Frame) : List Char :=
  (f.last.elim [] fun gap => ',' :: gap.text) ++ ')' :: (f.list.text ++ [']'])

/-- The attribute that says some things under a condition. -/
def text (f : Frame) (p : List Char) (items : List (List Char)) : List Char :=
  f.front.text ++ (('#' :: (f.sign.text ++ '[' :: (f.opening.text ++ ("cfg_attr".toList ++
    (f.name.text ++ '(' :: (p ++ (items.flatMap (fun d => ',' :: d) ++ f.ending))))))) ++
      f.back.text)

variable {p : List Char} {condition : List TokenTree} {items : List (List Char)}
  {trees : List (List TokenTree)}

/-! ## Trees -/

/-- What ends the arguments starts with a character at which words and numbers end. -/
theorem exists_ending_eq_cons (f : Frame) : ∃ c b, f.ending = c :: b ∧ isStop c = true := by
  rw [ending]
  cases f.last with
  | none => exact ⟨')', _, rfl, by decide⟩
  | some gap => exact ⟨',', _, rfl, by decide⟩

/-- The items are followed by a character that ends tokens. -/
theorem exists_items_eq_cons (f : Frame) (items : List (List Char)) :
    ∃ c b, items.flatMap (fun d => ',' :: d) ++ f.ending = c :: b ∧ isStop c = true := by
  cases items with
  | nil => exact f.exists_ending_eq_cons
  | cons d items => exact ⟨',', _, rfl, by decide⟩

/-- The items are read one after the other, each with the comma before it. -/
theorem exists_read_items (f : Frame) (h : List.Forall₂ Reads items trees) (g : Groups) :
    ∃ rest, List.Forall₂ SameButEnd trees (rest.map Prod.snd) ∧
      g.read (items.flatMap (fun d => ',' :: d) ++ f.ending) =
        ({ g with done := (followed rest).reverse ++ g.done } : Groups).read f.ending := by
  induction h generalizing g with
  | nil => exact ⟨[], .nil, rfl⟩
  | @cons d trees items more hd _ ih =>
    obtain ⟨c, b, hnext, hc⟩ := f.exists_items_eq_cons items
    -- The comma is joint with the item if that starts with a double colon.
    obtain ⟨joint, hcomma⟩ := g.exists_read_mark (c := ',') (s := d ++ c :: b) rfl
    obtain ⟨trees', hsame, hread⟩ := (g.push (.mark ',' joint)).read_append hd hc b
    obtain ⟨rest, hrest, hgo⟩ :=
      ih { g with done := trees'.reverse ++ .mark ',' joint :: g.done }
    refine ⟨(joint, trees') :: rest, .cons hsame hrest, ?_⟩
    have htext : (d :: items).flatMap (fun d => ',' :: d) ++ f.ending = ',' :: (d ++ c :: b) := by
      rw [← hnext, List.flatMap_cons, List.cons_append, List.cons_append, List.append_assoc]
    have hdone : (followed ((joint, trees') :: rest)).reverse ++ g.done =
        (followed rest).reverse ++ (trees'.reverse ++ .mark ',' joint :: g.done) := by
      simp [followed]
    rw [htext, hcomma, hread, ← hnext, hdone]
    exact hgo

/-- The ending closes both groups, and may leave a comma behind the last item. -/
theorem exists_read_ending (f : Frame) (name : TokenTree) (outer done : List TokenTree) :
    ∃ last, (last = [] ∨ ∃ joint, last = [.mark ',' joint]) ∧
      (Groups.mk [(.paren, [name]), (.bracket, outer)] done).read f.ending =
        some (outer.reverse ++
          [.group .bracket [name, .group .paren (done.reverse ++ last)]]) := by
  have hclose : ∀ done, (Groups.mk [(.paren, [name]), (.bracket, outer)] done).read
      (')' :: (f.list.text ++ [']'])) =
        some (outer.reverse ++ [.group .bracket [name, .group .paren done.reverse]]) := by
    intro done
    rw [Groups.read_closing (c := ')') rfl, Groups.read_blanks _ f.list.blank,
      Groups.read_closing (c := ']') rfl]
    simp [Groups.read_nil, Groups.trees?, groupFrom]
  rw [ending]
  cases f.last with
  | none => exact ⟨[], .inl rfl, by rw [List.append_nil]; exact hclose done⟩
  | some gap =>
    obtain ⟨joint, hcomma⟩ :=
      (Groups.mk [(.paren, [name]), (.bracket, outer)] done).exists_read_mark (c := ',')
        (s := gap.text ++ ')' :: (f.list.text ++ [']'])) rfl
    refine ⟨[.mark ',' joint], .inr ⟨joint, rfl⟩, ?_⟩
    rw [Option.elim_some, List.cons_append, hcomma, Groups.read_blanks _ gap.blank, Groups.push,
      hclose, List.reverse_cons]

/-- A word ends before a gap and an opening parenthesis. -/
theorem stopsWord_gap (gap : Gap) (s : List Char) : StopsWord (gap.text ++ '(' :: s) := by
  intro c hc
  cases htext : gap.text with
  | nil =>
    rw [htext, List.nil_append, List.head?_cons, Option.some.injEq] at hc
    subst hc
    decide
  | cons d ds =>
    rw [htext, List.cons_append, List.head?_cons, Option.some.injEq] at hc
    subst hc
    have hblank := gap.blank d (by simp [htext])
    refine ⟨isIdentContinue_of_isBlank hblank, ?_⟩
    simp only [List.mem_cons, List.not_mem_nil, or_false]
    rintro (rfl | rfl | rfl) <;> exact absurd hblank (by decide)

/-- Only the blanks around the attribute are cut off. -/
theorem trim_text (f : Frame) (p : List Char) (items : List (List Char)) :
    trim (f.text p items) = '#' :: (f.sign.text ++ '[' :: (f.opening.text ++
      ("cfg_attr".toList ++ (f.name.text ++ '(' ::
        (p ++ (items.flatMap (fun d => ',' :: d) ++ f.ending)))))) := by
  have hends : '#' :: (f.sign.text ++ '[' :: (f.opening.text ++ ("cfg_attr".toList ++
      (f.name.text ++ '(' :: (p ++ (items.flatMap (fun d => ',' :: d) ++ f.ending)))))) =
        '#' :: ((f.sign.text ++ '[' :: (f.opening.text ++ ("cfg_attr".toList ++
          (f.name.text ++ '(' :: (p ++ (items.flatMap (fun d => ',' :: d) ++
            ((f.last.elim [] fun gap => ',' :: gap.text) ++ ')' :: f.list.text))))))) ++
          [']']) := by
    rw [ending]
    simp only [List.append_assoc, List.cons_append]
  unfold text
  rw [Gap.trim_between, hends, trim_attribute]

/-- The whole attribute is read as the group of its arguments, items apart from each other. -/
theorem trees?_text (f : Frame) (hp : Reads p condition) (h : List.Forall₂ Reads items trees) :
    ∃ joint condition' rest last, SameButEnd condition condition' ∧
      List.Forall₂ SameButEnd trees (rest.map Prod.snd) ∧
      (last = [] ∨ ∃ joint, last = [.mark ',' joint]) ∧
      trees? (trim (f.text p items)) = some [.mark '#' joint, .group .bracket
        [.word "cfg_attr".toList, .group .paren (condition' ++ (followed rest ++ last))]] := by
  obtain ⟨c, b, hnext, hc⟩ := f.exists_items_eq_cons items
  obtain ⟨joint, hsign⟩ := (Groups.mk [] []).exists_read_mark (c := '#') (s := f.sign.text ++ '[' ::
    (f.opening.text ++ ("cfg_attr".toList ++ (f.name.text ++ '(' :: (p ++ c :: b))))) rfl
  obtain ⟨condition', hcondition, hread⟩ :=
    (Groups.mk [(.paren, [.word "cfg_attr".toList]), (.bracket, [.mark '#' joint])] []).read_append
      hp hc b
  obtain ⟨rest, hrest, hitems⟩ := f.exists_read_items h
    ⟨[(.paren, [.word "cfg_attr".toList]), (.bracket, [.mark '#' joint])], condition'.reverse ++ []⟩
  obtain ⟨last, hlast, hending⟩ := f.exists_read_ending (.word "cfg_attr".toList)
    [.mark '#' joint] ((followed rest).reverse ++ (condition'.reverse ++ []))
  refine ⟨joint, condition', rest, last, hcondition, hrest, hlast, ?_⟩
  have hmore : "fg_attr".toList.all isIdentContinue = true := by decide
  have hname : IsIdentText "cfg_attr".toList := .plain (by decide) (List.all_eq_true.1 hmore)
  rw [trim_text, hnext, Groups.trees?_eq_read (by decide), hsign,
    Groups.read_blanks _ f.sign.blank, Groups.read_opening _ (c := '[') (b := .bracket) rfl,
    Groups.read_blanks _ f.opening.blank, Groups.read_identText _ hname (stopsWord_gap f.name _),
    Groups.push, Groups.read_blanks _ f.name.blank,
    Groups.read_opening _ (c := '(') (b := .paren) rfl]
  simp only [Groups.push]
  rw [hread, ← hnext, hitems, hending]
  simp

/-- A conditional attribute is read as a list of meta items. -/
theorem ofAttribute?_text (f : Frame) (hp : Reads p condition)
    (h : List.Forall₂ Reads items trees) :
    ∃ condition' rest last, SameButEnd condition condition' ∧
      List.Forall₂ SameButEnd trees (rest.map Prod.snd) ∧
      (last = [] ∨ ∃ joint, last = [.mark ',' joint]) ∧
      Meta.ofAttribute? (f.text p items) = some (.list ⟨false, ["cfg_attr".toList]⟩ .paren
        (condition' ++ (followed rest ++ last))) := by
  obtain ⟨joint, condition', rest, last, hcondition, hrest, hlast, htrees⟩ := f.trees?_text hp h
  refine ⟨condition', rest, last, hcondition, hrest, hlast, ?_⟩
  rw [Meta.ofAttribute?, htrees]
  rfl

/-! ## Items -/

/-- Texts of items are read as items. -/
theorem isSome_ofTrees?_of_isMeta (h : List.Forall₂ IsMeta items trees) :
    ∀ ts ∈ trees, (Meta.ofTrees? ts).isSome = true := by
  induction h with
  | nil => simp
  | cons hd _ ih => exact List.forall_mem_cons.2 ⟨hd.2, ih⟩

/-- Whether the last mark of a text is joint decides about no item. -/
theorem isSome_ofTrees?_of_sameButEnd {trees' : List (List TokenTree)}
    (h : List.Forall₂ SameButEnd trees trees')
    (htrees : ∀ ts ∈ trees, (Meta.ofTrees? ts).isSome = true) :
    ∀ ts ∈ trees', (Meta.ofTrees? ts).isSome = true := by
  induction h with
  | nil => simp
  | cons hsame _ ih =>
    obtain ⟨hts, htrees⟩ := List.forall_mem_cons.1 htrees
    rw [List.forall_mem_cons, ← isSome_ofTrees?_congr hsame]
    exact ⟨hts, ih htrees⟩

/-- Nor does it show when the trees are written without their blanks. -/
theorem map_compactAll_of_sameButEnd {trees' : List (List TokenTree)}
    (h : List.Forall₂ SameButEnd trees trees') :
    trees'.map TokenTree.compactAll = trees.map TokenTree.compactAll := by
  induction h with
  | nil => rfl
  | cons hsame _ ih => rw [List.map_cons, List.map_cons, ih, hsame.compactAll_eq]

/-- The directives of a conditional attribute are its items without their blanks. -/
theorem bundled?_text (f : Frame) (hp : IsMeta p condition) (h : List.Forall₂ IsMeta items trees)
    (htool : contains toolName.toList (f.text p items) = true) :
    bundled? (String.ofList (f.text p items)) =
      some (trees.map fun ts => String.ofList (TokenTree.compactAll ts)) := by
  obtain ⟨condition', rest, last, hcondition, hrest, hlast, hattribute⟩ :=
    f.ofAttribute?_text hp.1 (h.imp fun _ _ h => h.1)
  have hpieces : ∀ piece ∈ condition' :: rest.map Prod.snd,
      (Meta.ofTrees? piece).isSome = true := by
    rw [List.forall_mem_cons, ← isSome_ofTrees?_congr hcondition]
    exact ⟨hp.2, isSome_ofTrees?_of_sameButEnd hrest (isSome_ofTrees?_of_isMeta h)⟩
  obtain ⟨items', hitems, hfst⟩ := exists_metaList?_followed hpieces hlast
  have htail : (items'.drop 1).map Prod.fst = rest.map Prod.snd := by
    rw [List.map_drop, hfst]
    rfl
  have hrendered : (items'.drop 1).map (fun item => String.ofList (TokenTree.compactAll item.1)) =
      trees.map fun ts => String.ofList (TokenTree.compactAll ts) := by
    have hstrings := congrArg (List.map String.ofList) (map_compactAll_of_sameButEnd hrest)
    rw [← htail, List.map_map, List.map_map, List.map_map] at hstrings
    exact hstrings
  rw [bundled?, mentions, String.toList_ofList, if_pos htool, hattribute, Option.bind_some]
  simp only [conditionalArguments?]
  rw [if_pos (by decide), Option.bind_some, hitems, Option.map_some, hrendered]

end Frame

end ProofHarness.Attribute
