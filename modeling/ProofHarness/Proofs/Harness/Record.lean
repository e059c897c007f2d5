import ProofHarness.Proofs.Harness.Extraction

/-!
# What a harness records

The record of a function is taken from the siblings between the first one that marks a proof, after
the function before it, and itself (`IsFirstMark`, `run`), and from its name.  Of the siblings
before these only the last one that is no comment counts, and only whether it marks a test
(`precedingSibling?`).  `Records` says field by field what is recorded, and `at?_exact` that this is
what is found at each place and that nothing else has a part in it.
-/

set_option autoImplicit false

namespace ProofHarness.Harness

open Attribute Syntax

/-! ## The parts of the siblings -/

/-- The sibling with number `k` is the first one that marks a proof after the last function before
the sibling with number `j`. -/
structure IsFirstMark (siblings : List Node) (j k : Nat) : Prop where
  lt : k < j
  marks : siblings[k]?.any Node.marksProof = true
  unbroken : ∀ i, k < i → i < j → siblings[i]?.any Node.isFunction = false
  first : ∀ i < k, siblings[i]?.any Node.marksProof = true →
    ∃ f, i < f ∧ f < k ∧ siblings[f]?.any Node.isFunction = true

/-- The siblings from number `k` on and before number `j`. -/
def run (siblings : List Node) (k j : Nat) : List Node := (siblings.take j).drop k

/-- The last of the siblings before number `k` that is no comment. -/
def precedingSibling? (siblings : List Node) (k : Nat) : Option Node :=
  ((siblings.take k).filter fun n => !n.isComment).getLast?

/-- Some attribute among siblings concerns the verifier and has a directive among its own. -/
def Asks (siblings : List Node) (d : Directive) : Prop :=
  ∃ n ∈ siblings, n.isAttribute = true ∧ concernsVerifier n.text = true ∧ d ∈ directives n.text

/-- What the harness records whose function has a name and stands at number `j`, and whose first
mark stands at number `k`. -/
structure Records (siblings : List Node) (k j : Nat) (g : Segment) (h : Harness) : Prop where
  function : h.FoundFor g
  attributes : h.attributes = ((run siblings k j).filter fun n =>
    n.isAttribute && (concernsVerifier n.text && !isBareProof n.text)).map Node.text
  hasStub : h.flags.hasStub = true ↔ Asks (run siblings k j) .stub
  isTest : h.flags.isTest = true ↔
    (precedingSibling? siblings k).any Node.marksTest = true ∨ Asks (run siblings k j) .test

/-! ## The first mark -/

/-- There is at most one first mark. -/
theorem IsFirstMark.eq {siblings : List Node} {j k k' : Nat} (h : IsFirstMark siblings j k)
    (h' : IsFirstMark siblings j k') : k = k' := by
  have hle : ∀ {k k' : Nat}, IsFirstMark siblings j k → IsFirstMark siblings j k' → k' ≤ k := by
    intro k k' h h'
    refine Nat.le_of_not_lt fun hlt => ?_
    obtain ⟨f, hkf, hfk', hfunction⟩ := h'.first k hlt h.marks
    have hbetween := h.unbroken f hkf (Nat.lt_trans hfk' h'.lt)
    rw [hfunction] at hbetween
    cases hbetween
  exact Nat.le_antisymm (hle h' h) (hle h h')

/-- A first mark is a mark. -/
theorem IsFirstMark.isMarked {siblings : List Node} {j k : Nat} (h : IsFirstMark siblings j k) :
    IsMarked siblings j :=
  ⟨k, h.lt, h.marks, fun i hi hki => h.unbroken i hki hi⟩

/-- A gap has no functions. -/
theorem isFunction_of_mem_gapBefore {siblings : List Node} {j : Nat} {n : Node}
    (hn : n ∈ gapBefore siblings j) : n.isFunction = false := by
  have hpass := List.mem_takeWhile_imp (List.mem_reverse.1 hn)
  simpa using hpass

/-- Siblings that are empty or end with a function. -/
def EndsWithFunction (siblings : List Node) : Prop :=
  siblings = [] ∨ ∃ init f, siblings = init ++ [f] ∧ f.isFunction = true

/-- What stands before the siblings between a function and the one before it ends with that one. -/
theorem exists_take_eq_append_gapBefore (siblings : List Node) (j : Nat) :
    ∃ earlier, EndsWithFunction earlier ∧ siblings.take j = earlier ++ gapBefore siblings j := by
  refine ⟨((siblings.take j).reverse.dropWhile fun n => !n.isFunction).reverse, ?_, ?_⟩
  · cases hdrop : (siblings.take j).reverse.dropWhile fun n => !n.isFunction with
    | nil => exact .inl rfl
    | cons f rest =>
      have hhead := List.head?_dropWhile_not (fun n : Node => !n.isFunction)
        (siblings.take j).reverse
      rw [hdrop] at hhead
      exact .inr ⟨rest.reverse, f, List.reverse_cons, by simpa using hhead⟩
  · rw [gapBefore, ← List.reverse_append, List.takeWhile_append_dropWhile, List.reverse_reverse]

/-- Where siblings end with a function, there is a function after each mark of a proof among them.
-/
theorem EndsWithFunction.exists_function_after {siblings : List Node}
    (h : EndsWithFunction siblings) {i : Nat}
    (hmark : siblings[i]?.any Node.marksProof = true) :
    ∃ f, i < f ∧ f < siblings.length ∧ siblings[f]?.any Node.isFunction = true := by
  rcases h with rfl | ⟨init, f, rfl, hfunction⟩
  · cases hmark
  · refine ⟨init.length, ?_, by simp, by simpa using hfunction⟩
    refine Nat.lt_of_not_le fun hle => ?_
    rw [List.getElem?_append_right hle, List.getElem?_singleton] at hmark
    split at hmark
    · rw [isFunction_of_marksProof hmark] at hfunction
      cases hfunction
    · cases hmark

/-- A function that siblings end with does not mark a test, and hides what stands before it. -/
theorem EndsWithFunction.any_getLast?_append {earlier : List Node} (h : EndsWithFunction earlier)
    (lead : List Node) :
    (((earlier ++ lead).filter fun n => !n.isComment).getLast?).any Node.marksTest =
      endsWithTest lead := by
  rw [endsWithTest, List.filter_append, List.getLast?_append]
  cases (lead.filter fun n => !n.isComment).getLast? with
  | some n => rfl
  | none =>
    rw [Option.none_or, Option.any_none]
    rcases h with rfl | ⟨init, f, rfl, hfunction⟩
    · rfl
    · have hkind : f.kind = .function := by simpa [Node.isFunction] using hfunction
      rw [List.filter_append, List.filter_cons_of_pos (by simp [Node.isComment, hkind]),
        List.filter_nil, List.getLast?_concat]
      simp [Node.marksTest, Node.isAttribute, hkind]

/-- Where some sibling marks a proof between a function and the one before it, there is a first such
mark; the run starts with it. -/
theorem exists_isFirstMark {siblings lead rest : List Node} {mark : Node} {j : Nat}
    (hj : j ≤ siblings.length) (hgap : gapBefore siblings j = lead ++ mark :: rest)
    (hmark : mark.marksProof = true) (hlead : ∀ n ∈ lead, n.marksProof = false) :
    ∃ k, IsFirstMark siblings j k ∧ run siblings k j = mark :: rest ∧
      (precedingSibling? siblings k).any Node.marksTest = endsWithTest lead := by
  obtain ⟨earlier, hearlier, htake⟩ := exists_take_eq_append_gapBefore siblings j
  have hsplit : siblings.take j = (earlier ++ lead) ++ mark :: rest := by
    rw [htake, hgap, List.append_assoc]
  have hlength : j = (earlier ++ lead).length + (rest.length + 1) := by
    have h := congrArg List.length hsplit
    rwa [List.length_take, Nat.min_eq_left hj, List.length_append, List.length_cons] at h
  have hsum : (earlier ++ lead).length = earlier.length + lead.length := List.length_append
  have hget : ∀ i < j, siblings[i]? = (earlier ++ gapBefore siblings j)[i]? := by
    intro i hi
    rw [← htake, List.getElem?_take_of_lt hi]
  have hbefore : siblings.take (earlier ++ lead).length = earlier ++ lead := by
    have h := congrArg (List.take (earlier ++ lead).length) hsplit
    rwa [List.take_take, Nat.min_eq_left (by omega), List.take_left] at h
  refine ⟨(earlier ++ lead).length, ⟨by omega, ?_, ?_, ?_⟩, ?_, ?_⟩
  · rw [hget _ (by omega), hgap, ← List.append_assoc, List.getElem?_append_right (Nat.le_refl _),
      Nat.sub_self]
    exact hmark
  · intro i hki hij
    rw [hget i hij, List.getElem?_append_right (by omega)]
    cases hn : (gapBefore siblings j)[i - earlier.length]? with
    | none => rfl
    | some n => exact isFunction_of_mem_gapBefore (List.mem_of_getElem? hn)
  · intro i hik hmarks
    rw [hget i (by omega), hgap, ← List.append_assoc, List.getElem?_append_left hik] at hmarks
    -- Up to the function before, each mark has that function after it; after it there is none.
    rcases Nat.lt_or_ge i earlier.length with hlt | hge
    · rw [List.getElem?_append_left hlt] at hmarks
      obtain ⟨f, hif, hf, hfunction⟩ := hearlier.exists_function_after hmarks
      refine ⟨f, hif, by omega, ?_⟩
      rwa [hget f (by omega), List.getElem?_append_left hf]
    · rw [List.getElem?_append_right hge] at hmarks
      cases hn : lead[i - earlier.length]? with
      | none => rw [hn] at hmarks; cases hmarks
      | some n =>
        rw [hn, Option.any_some, hlead n (List.mem_of_getElem? hn)] at hmarks
        cases hmarks
  · rw [run, hsplit, List.drop_left]
  · rw [precedingSibling?, hbefore]
    exact hearlier.any_getLast?_append lead

/-! ## The record -/

/-- The directives of a run are those for which its attributes ask. -/
theorem mem_flatMap_runTexts_iff {siblings : List Node} {d : Directive} :
    d ∈ (runTexts siblings).flatMap directives ↔ Asks siblings d := by
  simp [runTexts, Asks, and_assoc]

/-- Of the attributes that concern the verifier those are recorded that do not only mark a proof. -/
theorem filter_runTexts (nodes : List Node) :
    (runTexts nodes).filter (fun text => !isBareProof text) =
      (nodes.filter fun n =>
        n.isAttribute && (concernsVerifier n.text && !isBareProof n.text)).map Node.text := by
  rw [runTexts, List.filter_map, List.filter_filter]
  congr 1
  apply List.filter_congr
  intro n _
  rw [Function.comp_apply, Bool.and_comm, Bool.and_assoc]

/-- What is made of a run, what stands before it and a name is what they say. -/
theorem records_ofRun {siblings lead : List Node} {k j : Nat}
    (hlead : (precedingSibling? siblings k).any Node.marksTest = endsWithTest lead) (g : Segment) :
    Records siblings k j g (ofRun lead (run siblings k j) g) := by
  refine ⟨⟨rfl, rfl, rfl, rfl, rfl, rfl⟩, ?_, ?_, ?_⟩
  · exact filter_runTexts _
  · rw [← mem_flatMap_runTexts_iff]
    exact List.contains_iff_mem
  · rw [hlead, ← mem_flatMap_runTexts_iff, ← List.contains_iff_mem]
    exact Bool.or_eq_true_iff

/-- Two harnesses that record the same are the same. -/
theorem Records.eq {siblings : List Node} {k j : Nat} {g : Segment} {h h' : Harness}
    (hr : Records siblings k j g h) (hr' : Records siblings k j g h') : h = h' := by
  have hstub : h.flags.hasStub = h'.flags.hasStub := by
    rw [Bool.eq_iff_iff, hr.hasStub, hr'.hasStub]
  have htest : h.flags.isTest = h'.flags.isTest := by
    rw [Bool.eq_iff_iff, hr.isTest, hr'.isTest]
  have hflags : h.flags = h'.flags := by
    cases hf : h.flags
    cases hf' : h'.flags
    have hproof := hr.function.isProof.trans hr'.function.isProof.symm
    simp_all
  cases h
  cases h'
  obtain ⟨⟨hname, hline, hstop, -, harguments, hmodule⟩, hattributes, -, -⟩ := hr
  obtain ⟨⟨hname', hline', hstop', -, harguments', hmodule'⟩, hattributes', -, -⟩ := hr'
  simp_all

/-- The harness at a place is the one that records what its first mark, its run and its name say.
-/
theorem at?_eq_some_iff {siblings : List Node} {j : Nat} {h : Harness} :
    at? siblings j = some h ↔
      ∃ f g k, siblings[j]? = some f ∧ f.isFunction = true ∧ f.name = some g ∧
        IsFirstMark siblings j k ∧ Records siblings k j g h := by
  -- Both directions need this: a record tells of some mark, and the first one is unique.
  have hsome : ∀ {f : Node} {g : Segment}, siblings[j]? = some f → f.isFunction = true →
      f.name = some g → IsMarked siblings j →
      ∃ k, IsFirstMark siblings j k ∧ ∃ h, at? siblings j = some h ∧ Records siblings k j g h := by
    intro f g hf hfunction hname hmarked
    have hj : j ≤ siblings.length := Nat.le_of_lt (List.getElem?_eq_some_iff.1 hf).1
    have hany := (isMarked_iff_any_gapBefore hj).1 hmarked
    rcases forall_or_exists_firstMark (gapBefore siblings j) with
      hnone | ⟨lead, mark, rest, hgap, hmark, hlead⟩
    · obtain ⟨n, hn, hmark⟩ := List.any_eq_true.1 hany
      rw [hnone n hn] at hmark
      cases hmark
    · obtain ⟨k, hfirst, hrun, htest⟩ := exists_isFirstMark hj hgap hmark hlead
      refine ⟨k, hfirst, ofRun lead (run siblings k j) g, ?_, records_ofRun htest g⟩
      rw [at?, hf, Option.bind_some, if_pos hfunction, hgap, ofFunction?_append_cons hlead hmark,
        hname, hrun]
      rfl
  constructor
  · intro hat
    have hj : j < siblings.length := by
      obtain ⟨f, hf, -⟩ := Option.bind_eq_some_iff.1 hat
      exact (List.getElem?_eq_some_iff.1 hf).1
    have hrel := at?_rel_markedAt? hj
    rw [hat] at hrel
    cases hmarkedAt : markedAt? siblings j with
    | none =>
      rw [hmarkedAt] at hrel
      cases hrel
    | some f =>
      obtain ⟨hf, hfunction, hisSome, hmarked⟩ := markedAt?_eq_some_iff.1 hmarkedAt
      obtain ⟨g, hname⟩ := Option.isSome_iff_exists.1 hisSome
      obtain ⟨k, hfirst, h', hat', hrecords⟩ := hsome hf hfunction hname hmarked
      obtain rfl : h' = h := Option.some.inj (hat'.symm.trans hat)
      exact ⟨f, g, k, hf, hfunction, hname, hfirst, hrecords⟩
  · rintro ⟨f, g, k, hf, hfunction, hname, hfirst, hrecords⟩
    obtain ⟨k', hfirst', h', hat, hrecords'⟩ := hsome hf hfunction hname hfirst.isMarked
    obtain rfl := hfirst.eq hfirst'
    rw [hat, hrecords.eq hrecords']

/-- What is recorded depends on the run, the name and the mark in front of the run only. -/
theorem Records.congr {siblings siblings' : List Node} {j j' k k' : Nat} {g : Segment}
    {h : Harness} (hrun : run siblings k j = run siblings' k' j')
    (htest : (precedingSibling? siblings k).any Node.marksTest =
      (precedingSibling? siblings' k').any Node.marksTest)
    (hr : Records siblings k j g h) : Records siblings' k' j' g h := by
  obtain ⟨hfound, hattributes, hstub, hisTest⟩ := hr
  rw [hrun] at hattributes hstub hisTest
  rw [htest] at hisTest
  exact ⟨hfound, hattributes, hstub, hisTest⟩

/-- A harness at one place is that at another with the same run, name and mark in front. -/
theorem at?_eq_some_of_same {siblings siblings' : List Node} {j j' k k' : Nat} {f f' : Node}
    {h : Harness} (hf : siblings[j]? = some f) (hf' : siblings'[j']? = some f')
    (hfunction' : f'.isFunction = true) (hname : f.name = f'.name)
    (hfirst : IsFirstMark siblings j k) (hfirst' : IsFirstMark siblings' j' k')
    (hrun : run siblings k j = run siblings' k' j')
    (htest : (precedingSibling? siblings k).any Node.marksTest =
      (precedingSibling? siblings' k').any Node.marksTest)
    (hat : at? siblings j = some h) : at? siblings' j' = some h := by
  obtain ⟨n, g, l, hn, -, hg, hl, hr⟩ := at?_eq_some_iff.1 hat
  obtain rfl : f = n := Option.some.inj (hf.symm.trans hn)
  obtain rfl := hfirst.eq hl
  exact at?_eq_some_iff.2 ⟨f', g, k', hf', hfunction', hname ▸ hg, hfirst', hr.congr hrun htest⟩

/-- The harnesses among siblings are those at each place in turn.  At a place stands the harness
that records what its first mark, its run and its name say; two places, of one list of siblings or
of two, with the same run, the same name, and the same mark of a test in front of the run, if any,
have the same harness, whatever else stands before or after them. -/
theorem at?_exact (siblings : List Node) :
    ofSiblings siblings = (List.range siblings.length).filterMap (at? siblings) ∧
      (∀ j h, at? siblings j = some h ↔
        ∃ f g k, siblings[j]? = some f ∧ f.isFunction = true ∧ f.name = some g ∧
          IsFirstMark siblings j k ∧ Records siblings k j g h) ∧
      ∀ (siblings' : List Node) (j j' k k' : Nat) (f f' : Node),
        siblings[j]? = some f → siblings'[j']? = some f' →
        f.isFunction = true → f'.isFunction = true → f.name = f'.name →
        IsFirstMark siblings j k → IsFirstMark siblings' j' k' →
        run siblings k j = run siblings' k' j' →
        (precedingSibling? siblings k).any Node.marksTest =
          (precedingSibling? siblings' k').any Node.marksTest →
        at? siblings j = at? siblings' j' := by
  refine ⟨ofSiblings_eq_filterMap siblings, fun j h => at?_eq_some_iff, ?_⟩
  intro siblings' j j' k k' f f' hf hf' hfunction hfunction' hname hfirst hfirst' hrun htest
  apply Option.ext
  intro h
  exact ⟨at?_eq_some_of_same hf hf' hfunction' hname hfirst hfirst' hrun htest,
    at?_eq_some_of_same hf' hf hfunction hname.symm hfirst' hfirst hrun.symm htest.symm⟩

end ProofHarness.Harness
