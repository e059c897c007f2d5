import ProofHarness.Proofs.Attribute.Squeezed
import ProofHarness.Proofs.Harness.Arguments
import ProofHarness.Proofs.Harness.Extraction

/-!
# Bundled and stacked directives

A function whose directives are bundled in one conditional attribute is the same harness, as far as
stubs and arguments go, as the function on which these directives are stacked
(`bundled_agrees_with_stacked`), if the directives say the same without their blanks.  Blanks inside
the string of a solver are lost only where directives are bundled.
-/

set_option autoImplicit false

namespace ProofHarness

open Attribute Syntax

/-! ## Arguments -/

namespace Arguments

/-- Settling a directive keeps all that an update reads. -/
theorem update_settled (a : Arguments) (d : Directive) : a.update d.settled = a.update d := by
  cases d <;> rfl

/-- Whether tests are marked does not matter to the arguments. -/
theorem ofDirectives_congr {ds ds' : List Directive}
    (h : ds.map Directive.settled = ds'.map Directive.settled) :
    ofDirectives ds = ofDirectives ds' := by
  have hsettled : ∀ (ds : List Directive) (a : Arguments),
      (ds.map Directive.settled).foldl update a = ds.foldl update a := by
    intro ds a
    rw [List.foldl_map]
    congr 1
    funext a d
    exact update_settled a d
  rw [ofDirectives, ofDirectives, ← hsettled ds, h, hsettled]

end Arguments

/-- Whether tests are marked does not matter to stubs. -/
theorem contains_stub_congr {ds ds' : List Directive}
    (h : ds.map Directive.settled = ds'.map Directive.settled) :
    ds.contains .stub = ds'.contains .stub := by
  have hsettled : ∀ ds : List Directive,
      (ds.map Directive.settled).contains .stub = ds.contains .stub := by
    intro ds
    induction ds with
    | nil => rfl
    | cons d ds ih =>
      rw [List.map_cons, List.contains_cons, List.contains_cons, ih]
      cases d <;> rfl
  rw [← hsettled ds, h, hsettled]

/-! ## Extraction -/

namespace Harness

/-- What is not a function and marks no proof. -/
def IsPlain (n : Node) : Prop := n.isFunction = false ∧ n.marksProof = false

/-- The node is an attribute with a given text. -/
def Says (n : Node) (text : List Char) : Prop :=
  n.isAttribute = true ∧ n.text = String.ofList text

/-- A function with no other one before it is the only one that may be a harness. -/
theorem ofSiblingsFrom_append_singleton {f : Node} (hf : f.isFunction = true)
    {nodes : List Node} (h : ∀ n ∈ nodes, n.isFunction = false) (before : List Node) :
    ofSiblingsFrom before (nodes ++ [f]) =
      (ofFunction? (before.reverse ++ nodes) f).toList := by
  induction nodes generalizing before with
  | nil => simp [ofSiblingsFrom, hf]
  | cons n nodes ih =>
    obtain ⟨hn, hnodes⟩ := List.forall_mem_cons.1 h
    rw [List.cons_append, ofSiblingsFrom, hn, if_neg (by decide), ih hnodes, List.reverse_cons,
      List.append_assoc, List.singleton_append]

/-- A function after some attributes, of which the first marks a proof, is the harness of these
attributes. -/
theorem ofSiblings_append {f : Node} {g : Segment} (hf : f.isFunction = true)
    (hname : f.name = some g) {before : List Node} (hbefore : ∀ n ∈ before, IsPlain n) {mark : Node}
    (hmark : mark.marksProof = true) {run : List Node} (hrun : ∀ n ∈ run, n.isAttribute = true) :
    ofSiblings (before ++ mark :: run ++ [f]) = [ofRun before (mark :: run) g] := by
  have hattribute : ∀ n : Node, n.isAttribute = true → n.isFunction = false := by
    intro n hn
    rw [Node.isAttribute, beq_iff_eq] at hn
    simp [Node.isFunction, hn]
  have hnodes : ∀ n ∈ before ++ mark :: run, n.isFunction = false := by
    simp only [List.forall_mem_append, List.forall_mem_cons]
    refine ⟨fun n hn => (hbefore n hn).1, ?_, fun n hn => hattribute n (hrun n hn)⟩
    rw [Node.marksProof, Bool.and_eq_true] at hmark
    exact hattribute mark hmark.1
  rw [ofSiblings, ofSiblingsFrom_append_singleton hf hnodes, List.reverse_nil, List.nil_append,
    ofFunction?_append_cons (fun n hn => (hbefore n hn).2) hmark, hname]
  rfl

/-- Nodes that say texts are attributes. -/
theorem isAttribute_of_texts {run : List Node} {texts : List (List Char)}
    (h : List.Forall₂ Says run texts) : ∀ n ∈ run, n.isAttribute = true := by
  induction h with
  | nil => simp
  | cons hn _ ih => exact List.forall_mem_cons.2 ⟨hn.1, ih⟩

/-- The texts of a run of attributes that all concern the verifier. -/
theorem runTexts_of_texts {run : List Node} {texts : List (List Char)}
    (h : List.Forall₂ Says run texts)
    (hconcern : ∀ text ∈ texts, Text.contains toolName.toList text = true) :
    runTexts run = texts.map String.ofList := by
  induction h with
  | nil => rfl
  | @cons n text run texts hn _ ih =>
    obtain ⟨htext, htexts⟩ := List.forall_mem_cons.1 hconcern
    have hkept : (n.isAttribute && concernsVerifier n.text) = true := by
      rw [hn.1, hn.2, concernsVerifier, Text.mentions, String.toList_ofList]
      simpa using htext
    rw [runTexts, List.filter_cons_of_pos (by exact hkept), List.map_cons, List.map_cons, hn.2,
      ← ih htexts]
    rfl

/-- A function with attributes that concern the verifier, of which the first marks a proof, is a
harness that asks for what they ask for. -/
theorem exists_ofSiblings_of_texts {f : Node} (hf : f.isFunction = true)
    (hname : f.name.isSome = true) {before : List Node} (hbefore : ∀ n ∈ before, IsPlain n)
    {run : List Node} {first : List Char} {texts : List (List Char)}
    (hrun : List.Forall₂ Says run (first :: texts))
    (hproof : Text.contains proofName.toList first = true)
    (htool : ∀ text ∈ first :: texts, Text.contains toolName.toList text = true)
    (hbare : ∀ text ∈ first :: texts, isBareProof (String.ofList text) = true →
      directives (String.ofList text) = [.proof]) :
    ∃ h, ofSiblings (before ++ run ++ [f]) = [h] ∧
      h.flags.hasStub = (((first :: texts).map String.ofList).flatMap directives).contains .stub ∧
      h.withArguments.arguments =
        .ofDirectives (((first :: texts).map String.ofList).flatMap directives) := by
  obtain ⟨g, hg⟩ := Option.isSome_iff_exists.1 hname
  have htexts := runTexts_of_texts hrun htool
  have hattributes := isAttribute_of_texts hrun
  -- What bare marks would add is that this is a proof, on which no argument depends.
  have harguments : (ofRun before run g).withArguments.arguments =
      .ofDirectives ((runTexts run).flatMap directives) := by
    apply Arguments.ofAttributes_filter
    rw [htexts, List.forall_mem_map]
    intro text htext hmark d hd
    rw [hbare text htext (by simpa using hmark), List.mem_singleton] at hd
    rw [hd]
    exact ⟨rfl, rfl⟩
  cases hrun with
  | @cons mark _ run _ hmark hrest =>
    have hmarks : mark.marksProof = true := by
      rw [Node.marksProof, hmark.1, hmark.2, Attribute.marksProof, Text.mentions,
        String.toList_ofList, hproof]
      rfl
    rw [List.forall_mem_cons] at hattributes
    rw [← htexts, ofSiblings_append hf hg hbefore hmarks hattributes.2]
    exact ⟨_, rfl, rfl, harguments⟩

/-! ## Bundling -/

/-- The mark of a proof says the same without its blanks. -/
theorem squeezable_proof : Squeezable proofName.toList
    [.word "kani".toList, .mark ':' true, .mark ':' false, .word "proof".toList] where
  isMeta := ⟨Lexical.reads_of_read rfl (by decide), rfl⟩
  tool := ⟨"proof".toList, rfl⟩
  rendered := by decide
  names := by decide
  unwind := by decide
  solver := by
    have hnone : payload? "solver".toList proofName.toList = none := by decide
    rw [hnone]
    rintro q ⟨⟩

variable {p : List Char} {condition : List Lexical.TokenTree} {ds : List (List Char)}
  {readings : List (List Lexical.TokenTree)}

/-- Each of the directives can be squeezed. -/
theorem exists_squeezable_of_mem (h : List.Forall₂ Squeezable ds readings) {d : List Char}
    (hd : d ∈ ds) : ∃ trees, Squeezable d trees := by
  induction h with
  | nil => cases hd
  | cons hfirst _ ih =>
    cases hd with
    | head => exact ⟨_, hfirst⟩
    | tail _ hd => exact ih hd

/-- A conditional attribute is no bare mark of a proof. -/
theorem isBareProof_conditionalText (hp : IsMeta p condition)
    (h : List.Forall₂ Squeezable ds readings) :
    isBareProof (String.ofList (conditionalText p ds)) = false := by
  obtain ⟨arguments, hread⟩ :=
    exists_ofAttribute?_conditionalText hp.1 (h.imp fun _ _ h => h.isMeta.1)
  rw [isBareProof, String.toList_ofList, hread]

/-- A function with its directives bundled is a harness that asks for what they bundle. -/
theorem exists_ofSiblings_bundled (hp : IsMeta p condition)
    (hds : List.Forall₂ Squeezable ds readings) (hproof : proofName.toList ∈ ds) {f : Node}
    (hf : f.isFunction = true) (hname : f.name.isSome = true) {before : List Node}
    (hbefore : ∀ n ∈ before, IsPlain n) {bundle : Node}
    (hbundle : Says bundle (conditionalText p ds)) :
    ∃ h, ofSiblings (before ++ [bundle] ++ [f]) = [h] ∧
      h.flags.hasStub = (directives (String.ofList (conditionalText p ds))).contains .stub ∧
      h.withArguments.arguments =
        .ofDirectives (directives (String.ofList (conditionalText p ds))) := by
  have hpart := isInfix_conditionalText p hproof
  have hmark : Text.contains proofName.toList (conditionalText p ds) = true :=
    Text.contains_of_isInfix hpart (by decide)
  have htool : Text.contains toolName.toList (conditionalText p ds) = true :=
    Text.contains_of_isInfix hpart (by decide)
  have hbare := isBareProof_conditionalText hp hds
  have hbundled := exists_ofSiblings_of_texts hf hname hbefore (.cons hbundle .nil) hmark
    (List.forall_mem_singleton.2 htool) (List.forall_mem_singleton.2 (by simp [hbare]))
  rwa [List.map_singleton, List.flatMap_singleton] at hbundled

/-- A function on which directives are stacked after the mark of a proof is a harness that asks for
what each of them asks for. -/
theorem exists_ofSiblings_stacked (hds : List.Forall₂ Squeezable (proofName.toList :: ds) readings)
    {f : Node} (hf : f.isFunction = true) (hname : f.name.isSome = true) {before : List Node}
    (hbefore : ∀ n ∈ before, IsPlain n) {stack : List Node}
    (hstack : List.Forall₂ Says stack ((proofName.toList :: ds).map attributeText)) :
    ∃ h, ofSiblings (before ++ stack ++ [f]) = [h] ∧
      h.flags.hasStub = (((proofName.toList :: ds).map fun d =>
        String.ofList (attributeText d)).flatMap directives).contains .stub ∧
      h.withArguments.arguments = .ofDirectives (((proofName.toList :: ds).map fun d =>
        String.ofList (attributeText d)).flatMap directives) := by
  have htexts : ∀ text ∈ (proofName.toList :: ds).map attributeText,
      Text.contains toolName.toList text = true ∧ (isBareProof (String.ofList text) = true →
        directives (String.ofList text) = [.proof]) := by
    intro text htext
    obtain ⟨d, hd, rfl⟩ := List.mem_map.1 htext
    obtain ⟨trees, hd⟩ := exists_squeezable_of_mem hds hd
    exact ⟨contains_tool_attributeText hd, directives_of_isBareProof hd⟩
  have hmark : Text.contains proofName.toList (attributeText proofName.toList) = true := by decide
  have hstacked := exists_ofSiblings_of_texts hf hname hbefore hstack hmark
    (fun text htext => (htexts text htext).1) (fun text htext => (htexts text htext).2)
  rwa [← List.map_cons, List.map_map] at hstacked

/-- A function with its directives bundled in one conditional attribute and a function on which they
are stacked are both harnesses, and they agree on stubs and arguments. -/
theorem bundled_agrees_with_stacked (hp : IsMeta p condition)
    (hds : List.Forall₂ Squeezable ds readings) {before : List Node}
    (hbefore : ∀ n ∈ before, IsPlain n) {f : Node} (hf : f.isFunction = true)
    (hname : f.name.isSome = true) {bundle : Node}
    (hbundle : Says bundle (conditionalText p (proofName.toList :: ds))) {stack : List Node}
    (hstack : List.Forall₂ Says stack ((proofName.toList :: ds).map attributeText)) :
    ∃ h k, ofSiblings (before ++ [bundle] ++ [f]) = [h] ∧
      ofSiblings (before ++ stack ++ [f]) = [k] ∧ h.flags.hasStub = k.flags.hasStub ∧
      h.withArguments.arguments = k.withArguments.arguments := by
  have hitems := List.Forall₂.cons squeezable_proof hds
  have hasked := settled_directives hp hitems (List.cons_ne_nil _ _)
  obtain ⟨h, hh, hstub, harguments⟩ :=
    exists_ofSiblings_bundled hp hitems List.mem_cons_self hf hname hbefore hbundle
  obtain ⟨k, hk, hstub', harguments'⟩ :=
    exists_ofSiblings_stacked hitems hf hname hbefore hstack
  refine ⟨h, k, hh, hk, ?_, ?_⟩
  · rw [hstub, hstub']
    exact contains_stub_congr hasked
  · rw [harguments, harguments']
    exact Arguments.ofDirectives_congr hasked

/-- An attribute with a given text. -/
def saying (text : List Char) : Node :=
  .mk .attribute { (default : Segment) with text := String.ofList text } none []

/-- A function with some name. -/
def someFunction : Node := .mk .function default (some default) []

/-- The attribute made for a text says it. -/
theorem says_saying (text : List Char) : Says (saying text) text := ⟨rfl, rfl⟩

/-- A bound with blanks around its number can be squeezed. -/
theorem squeezable_unwind : Squeezable "kani::unwind( 3 )".toList
    [.word "kani".toList, .mark ':' true, .mark ':' false, .word "unwind".toList,
      .group .paren [.literal ['3']]] where
  isMeta := ⟨Lexical.reads_of_read rfl (by decide), rfl⟩
  tool := ⟨"unwind( 3 )".toList, rfl⟩
  rendered := by decide
  names := by decide
  unwind := by decide
  solver := by
    have hnone : payload? "solver".toList "kani::unwind( 3 )".toList = none := by decide
    rw [hnone]
    rintro q ⟨⟩

/-- So can a solver that is named by a string. -/
theorem squeezable_solver : Squeezable "kani::solver(bin = \"kissat\")".toList
    [.word "kani".toList, .mark ':' true, .mark ':' false, .word "solver".toList,
      .group .paren [.word "bin".toList, .mark '=' false, .literal "\"kissat\"".toList]] where
  isMeta := ⟨Lexical.reads_of_read rfl (by decide), rfl⟩
  tool := ⟨"solver(bin = \"kissat\")".toList, rfl⟩
  rendered := by decide
  names := by decide
  unwind := by decide
  solver := by
    have hpayload : payload? "solver".toList "kani::solver(bin = \"kissat\")".toList =
        some "bin = \"kissat\"".toList := by decide
    rw [hpayload]
    rintro q ⟨rfl⟩
    have hspace : ∀ c ∈ [' '], Text.isBlank c = true := List.forall_mem_singleton.2 (by decide)
    exact .inr ⟨[' '], [' '], "\"kissat\"".toList, hspace, hspace, by decide, by decide,
      Lexical.reads_of_read rfl (by decide), by decide⟩

/-- A bound and a solver, bundled in one attribute and stacked in three. -/
theorem bundled_agrees_with_stacked_unwind_solver :
    ∃ h k, ofSiblings [saying (conditionalText "kani".toList
        [proofName.toList, "kani::unwind( 3 )".toList, "kani::solver(bin = \"kissat\")".toList]),
        someFunction] = [h] ∧
      ofSiblings [saying "#[kani::proof]".toList, saying "#[kani::unwind( 3 )]".toList,
        saying "#[kani::solver(bin = \"kissat\")]".toList, someFunction] = [k] ∧
      h.flags.hasStub = k.flags.hasStub ∧
      h.withArguments.arguments = k.withArguments.arguments := by
  have hp : IsMeta "kani".toList [.word "kani".toList] :=
    ⟨Lexical.reads_of_read rfl (by decide), rfl⟩
  have hbefore : ∀ n ∈ ([] : List Node), IsPlain n := by simp
  exact bundled_agrees_with_stacked hp (.cons squeezable_unwind (.cons squeezable_solver .nil))
    hbefore rfl rfl (says_saying _)
    (.cons (says_saying _) (.cons (says_saying _) (.cons (says_saying _) .nil)))

/-- The blanks in the string of a solver are lost where it is bundled. -/
theorem not_bundled_agrees_with_stacked_string :
    IsMeta "kani".toList [.word "kani".toList] ∧
      IsMeta "kani::solver(bin = \"my solver\")".toList
        [.word "kani".toList, .mark ':' true, .mark ':' false, .word "solver".toList,
          .group .paren [.word "bin".toList, .mark '=' false, .literal "\"my solver\"".toList]] ∧
      (ofSiblings [saying (conditionalText "kani".toList
          [proofName.toList, "kani::solver(bin = \"my solver\")".toList]), someFunction]).map
        (fun h => h.withArguments.arguments) = [⟨none, some "mysolver"⟩] ∧
      (ofSiblings [saying "#[kani::proof]".toList,
          saying "#[kani::solver(bin = \"my solver\")]".toList, someFunction]).map
        (fun h => h.withArguments.arguments) = [⟨none, some "my solver"⟩] := by
  refine ⟨⟨Lexical.reads_of_read rfl (by decide), rfl⟩,
    ⟨Lexical.reads_of_read rfl (by decide), rfl⟩, ?_, ?_⟩
  · decide +kernel
  · decide +kernel

end Harness

end ProofHarness
