import ProofHarness.Proofs.Attribute.PathPlace
import ProofHarness.Proofs.Lexical.Spelling
import ProofHarness.Proofs.Lexical.Words

/-!
# Bundled directives

A directive that a conditional attribute bundles begins with a word or a colon, so that it is no
attribute itself and bundles nothing (`bundled?_of_mem_bundled?`).
-/

set_option autoImplicit false

namespace ProofHarness.Attribute

open Text Lexical TokenTree

variable {c : Char} {cs : List Char} {text : String} {parts : List String}

/-- Whether the character may be the first of a path. -/
def startsPath (c : Char) : Bool := isIdentStart c || c == ':'

/-- What may start a path may start a tree. -/
theorem startsTree_of_startsPath (hc : startsPath c = true) : startsTree c = true := by
  rw [startsPath, Bool.or_eq_true, beq_iff_eq] at hc
  rcases hc with hc | rfl
  · exact startsTree_iff.2 ⟨isSpacing_of_isIdentStart hc, ne_of_isIdentStart hc (by decide),
      ne_of_isIdentStart hc (by decide +kernel)⟩
  · decide

/-- The sign of an attribute starts no path. -/
theorem ne_sign_of_startsPath (hc : startsPath c = true) : c ≠ '#' := by
  rintro rfl
  exact absurd hc (by decide)

/-- A text that begins as a path does is no attribute. -/
theorem ofAttribute?_of_startsPath (hc : startsPath c = true) :
    Meta.ofAttribute? (c :: cs) = none := by
  have htree := startsTree_of_startsPath hc
  have hblank : isBlank c = false := by
    have hspacing := (startsTree_iff.1 htree).1
    rw [isSpacing, Bool.or_eq_false_iff, Bool.or_eq_false_iff] at hspacing
    exact hspacing.1.1
  have htrim : trim (c :: cs) = c :: trimEnd cs := by
    rw [trim, trimStart_cons_of_not_isBlank hblank]
    exact trimEnd_append_cons hblank [] cs
  rw [Meta.ofAttribute?, htrim]
  split
  · next htrees => exact absurd (eq_of_trees?_mark htree htrees) (ne_sign_of_startsPath hc)
  · rfl

/-- A meta item of words that begin as identifiers do begins as a path does. -/
theorem exists_startsPath_of_ofTrees? {ts : List TokenTree} {m : Meta}
    (hm : Meta.ofTrees? ts = some m)
    (hwords : ∀ w ∈ wordsAll ts, ∃ c cs, w = c :: cs ∧ isIdentStart c = true) :
    ∃ c cs, compactAll ts = c :: cs ∧ startsPath c = true := by
  obtain ⟨⟨p, rest⟩, hpath, -⟩ := Option.bind_eq_some_iff.1 hm
  obtain ⟨path, rfl, hne, hparts⟩ := exists_append_of_pathFrom? hpath
  cases path with
  | nil => exact absurd rfl hne
  | cons t path =>
    have ht := hparts t List.mem_cons_self
    cases t with
    | word w =>
      obtain ⟨c, cs, rfl, hc⟩ := hwords w (mem_wordsAll_iff.2 ⟨.word w, List.mem_cons_self, by
        rw [words]
        exact List.mem_singleton_self w⟩)
      have hblank := isBlank_of_isIdentContinue (isIdentContinue_of_isIdentStart hc)
      refine ⟨c, Text.compact cs ++ compactAll (path ++ rest), ?_, by rw [startsPath, hc]; rfl⟩
      rw [List.cons_append, compactAll, TokenTree.compact, compact_cons_of_not_isBlank hblank,
        List.cons_append]
    | mark c joint =>
      refine ⟨c, compactAll (path ++ rest), rfl, ?_⟩
      rw [startsPath, Bool.or_eq_true]
      exact .inr ht
    | _ => cases ht

/-- The arguments of an item are one of its trees. -/
theorem mem_of_ofTrees?_list {ts arguments : List TokenTree} {p : MetaPath} {d : Delimiter}
    (h : Meta.ofTrees? ts = some (.list p d arguments)) : .group d arguments ∈ ts := by
  obtain ⟨⟨q, rest⟩, hpath, hrest⟩ := Option.bind_eq_some_iff.1 h
  obtain ⟨path, rfl, -, -⟩ := exists_append_of_pathFrom? hpath
  have hgroup : rest = [.group d arguments] := eq_singleton_of_ofRest?_list hrest
  rw [hgroup]
  exact List.mem_append_right path List.mem_cons_self

/-- Only lists are conditional attributes. -/
theorem exists_eq_list_of_conditionalArguments? {m : Meta} {arguments : List TokenTree}
    (h : conditionalArguments? m = some arguments) : ∃ p d, m = .list p d arguments := by
  unfold conditionalArguments? at h
  split at h
  · next p d _ =>
    split at h
    · cases h
      exact ⟨p, d, rfl⟩
    · cases h
  · cases h

/-- What is bundled are meta items that stand in the text. -/
theorem exists_of_mem_bundled? (h : bundled? text = some parts) {part : String}
    (hpart : part ∈ parts) : ∃ trees ts m, trees? (trim text.toList) = some trees ∧
      Meta.ofTrees? ts = some m ∧ (∀ w ∈ wordsAll ts, w ∈ wordsAll trees) ∧
        part = String.ofList (compactAll ts) := by
  rw [bundled?] at h
  split at h
  · obtain ⟨arguments, hbundle, hparts⟩ := Option.bind_eq_some_iff.1 h
    obtain ⟨m, hm, harguments⟩ := Option.bind_eq_some_iff.1 hbundle
    obtain ⟨items, hitems, rfl⟩ := Option.map_eq_some_iff.1 hparts
    obtain ⟨item, hitem, rfl⟩ := List.mem_map.1 hpart
    obtain ⟨hpiece, hread⟩ := mem_commaPieces_of_mem_metaList? hitems (List.mem_of_mem_drop hitem)
    unfold Meta.ofAttribute? at hm
    split at hm
    · next sign inner htrees =>
      obtain ⟨p, d, rfl⟩ := exists_eq_list_of_conditionalArguments? harguments
      refine ⟨_, item.1, item.2, htrees, hread, ?_, rfl⟩
      -- The item is a piece of the arguments, and these are a group inside that of the attribute.
      intro w hw
      obtain ⟨t, ht, hw⟩ := mem_wordsAll_iff.1 hw
      have hin : w ∈ wordsAll arguments :=
        mem_wordsAll_iff.2 ⟨t, mem_of_mem_commaPieces hpiece ht, hw⟩
      have hinner : w ∈ wordsAll inner :=
        mem_wordsAll_iff.2 ⟨_, mem_of_ofTrees?_list hm, mem_words_group.2 hin⟩
      exact mem_wordsAll_iff.2 ⟨_, List.mem_cons_of_mem _ List.mem_cons_self,
        mem_words_group.2 hinner⟩
    · cases hm
  · cases h

/-- What is bundled bundles nothing. -/
theorem bundled?_of_mem_bundled? (h : bundled? text = some parts) {part : String}
    (hpart : part ∈ parts) : bundled? part = none := by
  obtain ⟨trees, ts, m, htrees, hm, hwords, rfl⟩ := exists_of_mem_bundled? h hpart
  obtain ⟨c, cs, htext, hc⟩ := exists_startsPath_of_ofTrees? hm fun w hw =>
    exists_isIdentStart_of_mem_words htrees (hwords w hw)
  rw [bundled?, String.toList_ofList, htext, ofAttribute?_of_startsPath hc]
  split <;> rfl

end ProofHarness.Attribute
