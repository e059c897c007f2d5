import ProofHarness.Proofs.Attribute.Squeezed
import ProofHarness.Proofs.Lexical.Rendering

/-!
# Attributes that mark a proof and say nothing else

Such an attribute is recognized by its path, and what it asks for by the names that occur in its
text.  Without comments there is nothing to be seen in the text but the path and the brackets around
it (`seenOf_of_isBareProof`), so that no other name occurs in it
(`eq_of_mem_directives_of_isBareProof`).
-/

set_option autoImplicit false

namespace ProofHarness.Attribute

open Text Lexical

variable {text : String}

/-- Whether no token of an attribute is a comment. -/
def commentFree (text : String) : Bool :=
  (tokens? (trim text.toList)).all fun ts => ts.all fun t => !t.isComment

/-- What is to be seen of an attribute that marks a proof and says nothing else. -/
def bareProofTexts : List (List Char) := ["#[kani::proof]".toList, "#[::kani::proof]".toList]

/-- Such an attribute is read as that path, or is written like it but for blanks. -/
theorem ofAttribute?_of_isBareProof (hbare : isBareProof text = true) :
    (∃ p, Meta.ofAttribute? text.toList = some (.path p) ∧
      p.segments = ["kani".toList, "proof".toList]) ∨
    (Meta.ofAttribute? text.toList = none ∧
      compact text.toList = "#[kani::proof]".toList) := by
  rw [isBareProof] at hbare
  cases hm : Meta.ofAttribute? text.toList with
  | none =>
    rw [hm] at hbare
    exact .inr ⟨rfl, by simpa using hbare⟩
  | some m =>
    rw [hm] at hbare
    cases m with
    | path p => exact .inl ⟨p, rfl, by simpa using hbare⟩
    | _ => cases hbare

/-- Without its blanks such an attribute has one of a few spellings. -/
theorem seenOf_of_isBareProof (hbare : isBareProof text = true) (hfree : commentFree text = true) :
    seenOf text.toList ∈ bareProofTexts := by
  rcases ofAttribute?_of_isBareProof hbare with ⟨p, hm, hsegments⟩ | ⟨-, hcompact⟩
  · unfold Meta.ofAttribute? at hm
    split at hm
    · next sign inner htrees =>
      obtain ⟨ts, hts, hgroups⟩ := Option.bind_eq_some_iff.1 htrees
      have hcomment : ∀ t ∈ ts, t.isComment = false := by
        rw [commentFree, hts, Option.all_some, List.all_eq_true] at hfree
        intro t ht
        simpa using hfree t ht
      have htext : TokenTree.compactAll [.mark '#' sign, .group .bracket inner] =
          '#' :: '[' :: (p.compact ++ [']']) := by
        rw [← compactAll_of_ofTrees?_path hm]
        simp [TokenTree.compactAll, TokenTree.compact, Delimiter.opening, Delimiter.closing]
      -- All that is passed over between the tokens is left out, and so the path alone remains.
      rw [← seenOf_compact, ← compact_trim, seenOf_compact,
        ← seenOf_compactAll hts hgroups hcomment, htext, MetaPath.compact, hsegments]
      cases p.absolute <;> decide
    · cases hm
  · rw [← seenOf_compact, hcompact]
    decide

/-- No name of another directive occurs in such an attribute. -/
theorem mentions_of_isBareProof (hbare : isBareProof text = true)
    (hfree : commentFree text = true) {name : String} (hname : name.toList ∈ directiveNames)
    (hne : name.toList ≠ proofName.toList) : mentions name text = false := by
  have hnames : ∀ w ∈ directiveNames, w.all (fun c => !isUnseen c) = true ∧
      (w ≠ proofName.toList → ∀ s ∈ bareProofTexts, contains w s = false) := by
    decide
  obtain ⟨hseen, hother⟩ := hnames _ hname
  rw [mentions, Bool.eq_false_iff]
  intro hcontains
  have hoccurs := contains_filter (List.all_eq_true.1 hseen) hcontains
  rw [← seenOf, hother hne _ (seenOf_of_isBareProof hbare hfree)] at hoccurs
  cases hoccurs

/-- It marks no test. -/
theorem isTestMarker_of_isBareProof (hbare : isBareProof text = true) :
    isTestMarker text = false := by
  rw [isTestMarker]
  rcases ofAttribute?_of_isBareProof hbare with ⟨p, hm, hsegments⟩ | ⟨hm, hcompact⟩
  · rw [hm]
    simp [MetaPath.isIdent, hsegments]
  · rw [hm, hcompact]
    decide

/-- Such an attribute asks for one thing, which is to mark a proof, or for nothing. -/
theorem eq_of_mem_directives_of_isBareProof (hbare : isBareProof text = true)
    (hfree : commentFree text = true) {d : Directive} (hd : d ∈ directives text) :
    d = .proof ∨ d = .unrecognized := by
  have hbundled : bundled? text = none := by
    rw [bundled?]
    rcases ofAttribute?_of_isBareProof hbare with ⟨p, hm, -⟩ | ⟨hm, -⟩
    · rw [hm]
      split <;> rfl
    · rw [hm]
      split <;> rfl
  rw [directives_of_bundled?_eq_none hbundled, List.mem_singleton] at hd
  have hnone : ∀ name : String, name.toList ∈ directiveNames →
      name.toList ≠ proofName.toList → mentions name text = false := fun name hname hne =>
    mentions_of_isBareProof hbare hfree hname hne
  rw [hd, Directive.ofText, hnone "kani::unwind" (by decide) (by decide),
    hnone "kani::solver" (by decide) (by decide), hnone "kani::stub" (by decide) (by decide),
    hnone "kani::should_panic" (by decide) (by decide),
    hnone "kani::cover" (by decide) (by decide), isTestMarker_of_isBareProof hbare]
  cases mentions proofName text
  · exact .inr rfl
  · exact .inl rfl

end ProofHarness.Attribute
