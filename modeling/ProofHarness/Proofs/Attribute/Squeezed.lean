import ProofHarness.Proofs.Attribute.Composite
import ProofHarness.Proofs.Attribute.Spacing

/-!
# Directives without their blanks

What a directive asks for is the same whether it is an attribute of its own or is read without its
blanks (`settled_ofText_attributeText`), if the names that are looked for and the number of its
bound stay whole, and its blanks say nothing in its solver.  The brackets of an attribute do not
matter to what it asks for, except that only a whole attribute marks a test.
-/

set_option autoImplicit false

namespace ProofHarness.Attribute

open Text Lexical

/-! ## Names -/

/-- The names that are looked for in a directive. -/
def directiveNames : List (List Char) :=
  [proofName.toList, "kani::unwind".toList, "kani::solver".toList, "kani::stub".toList,
    "kani::should_panic".toList, "kani::cover".toList]

/-- The words that have payloads. -/
def payloadNames : List (List Char) := ["unwind".toList, "solver".toList]

variable {s t w : List Char}

/-- Names are not empty and have no blanks. -/
theorem isWord_of_mem (hw : w ∈ directiveNames ++ payloadNames) : IsWord w := by
  have hwords : ∀ w ∈ directiveNames ++ payloadNames,
      w ≠ [] ∧ w.all (fun c => !isBlank c) = true := by
    decide
  obtain ⟨hne, hall⟩ := hwords w hw
  exact ⟨hne, by simpa using hall⟩

/-- The brackets of an attribute are in no name. -/
theorem not_mem_of_mem (hw : w ∈ directiveNames ++ payloadNames) :
    '#' ∉ w ∧ '[' ∉ w ∧ ']' ∉ w := by
  have hwords : ∀ w ∈ directiveNames ++ payloadNames, '#' ∉ w ∧ '[' ∉ w ∧ ']' ∉ w := by decide
  exact hwords w hw

/-! ## Brackets around a directive -/

/-- A character that is not in a word may follow it. -/
theorem stripPrefix_append_singleton {c : Char} (hw : c ∉ w) (s : List Char) :
    stripPrefix w (s ++ [c]) = (stripPrefix w s).map (· ++ [c]) := by
  induction w generalizing s with
  | nil => rfl
  | cons p ps ih =>
    obtain ⟨hp, hps⟩ := List.ne_and_not_mem_of_not_mem_cons hw
    cases s with
    | nil => simp [stripPrefix, Ne.symm hp]
    | cons d ds =>
      rw [List.cons_append, stripPrefix, stripPrefix]
      split
      · exact ih hps ds
      · rfl

/-- Nor does such a character change what is in parentheses. -/
theorem parenthesized?_append_singleton {c : Char} (hc : c ≠ '(' ∧ c ≠ ')') (s : List Char) :
    parenthesized? (s ++ [c]) = parenthesized? s := by
  cases s with
  | nil => exact parenthesized?_cons_of_ne hc.1 []
  | cons d ds =>
    by_cases hd : d = '('
    · subst hd
      have hcontains : (ds ++ [c]).contains ')' = ds.contains ')' := by
        simp [Ne.symm hc.2]
      rw [List.cons_append, parenthesized?, parenthesized?, hcontains]
      split
      · next hmem =>
        have hstops : (ds.takeWhile (· != ')')).length ≠ ds.length := by
          intro hlength
          have hall := List.takeWhile_eq_self_iff.1
            ((List.takeWhile_prefix (· != ')')).eq_of_length hlength)
          exact absurd (hall ')' (List.contains_iff_mem.1 hmem)) (by decide)
        rw [List.takeWhile_append, if_neg hstops]
      · rfl
    · rw [List.cons_append, parenthesized?_cons_of_ne hd, parenthesized?_cons_of_ne hd]

/-- A character that ends no payload and is not in the name does not matter at the end. -/
theorem payloadHere?_append_singleton {c : Char} (hw : c ∉ w) (hc : c ≠ '(' ∧ c ≠ ')')
    (s : List Char) : payloadHere? w (s ++ [c]) = payloadHere? w s := by
  rw [payloadHere?_eq, payloadHere?_eq, stripPrefix_append_singleton hw]
  cases stripPrefix w s with
  | none => rfl
  | some rest =>
    rw [Option.map_some, Option.bind_some, Option.bind_some, trimStart, trimStart,
      List.dropWhile_append]
    split
    · next h =>
      rw [List.isEmpty_iff.1 h, List.dropWhile_cons]
      split
      · rfl
      · exact parenthesized?_cons_of_ne hc.1 []
    · exact parenthesized?_append_singleton hc _

/-- A character at the end is in no payload if it is no parenthesis. -/
theorem payload?_append_singleton {c : Char} (hw : c ∉ w) (hne : w ≠ []) (hc : c ≠ '(' ∧ c ≠ ')')
    (s : List Char) : payload? w (s ++ [c]) = payload? w s := by
  induction s with
  | nil =>
    have hnone : payloadHere? w ([] ++ [c]) = none := by
      rw [payloadHere?_append_singleton hw hc]
      cases w with
      | nil => exact absurd rfl hne
      | cons p ps => rfl
    have hlast : payload? w [c] = (payloadHere? w [c]).or none := rfl
    rw [List.nil_append] at hnone ⊢
    rw [hlast, hnone]
    rfl
  | cons d ds ih =>
    have hhere := payloadHere?_append_singleton hw hc (d :: ds)
    rw [List.cons_append] at hhere ⊢
    rw [payload?, payload?, hhere, ih]

/-- A word does not start with a character that it does not have. -/
theorem payload?_cons_of_not_mem {c : Char} (hw : c ∉ w) (hne : w ≠ []) (s : List Char) :
    payload? w (c :: s) = payload? w s := by
  cases w with
  | nil => exact absurd rfl hne
  | cons p ps =>
    have hp : p ≠ c := (List.ne_and_not_mem_of_not_mem_cons hw).1.symm
    have hnone : payloadHere? (p :: ps) (c :: s) = none := by
      simp [payloadHere?, stripPrefix, hp]
    rw [payload?, hnone, Option.none_or]

/-- The brackets of an attribute do not matter to payloads. -/
theorem payload?_attributeText (hw : w ∈ directiveNames ++ payloadNames) (s : List Char) :
    payload? w (attributeText s) = payload? w s := by
  obtain ⟨hhash, hopening, hclosing⟩ := not_mem_of_mem hw
  have hne := (isWord_of_mem hw).ne_nil
  rw [attributeText, payload?_cons_of_not_mem hhash hne, payload?_cons_of_not_mem hopening hne,
    payload?_append_singleton hclosing hne (by decide)]

/-- Nor do they matter to names. -/
theorem contains_attributeText (hw : w ∈ directiveNames ++ payloadNames) (s : List Char) :
    contains w (attributeText s) = contains w s := by
  obtain ⟨hhash, hopening, hclosing⟩ := not_mem_of_mem hw
  have hnil : contains w [] = false := by
    cases w with
    | nil => exact absurd rfl (isWord_of_mem hw).ne_nil
    | cons p ps => rfl
  have htext : attributeText s = [] ++ '#' :: ([] ++ '[' :: (s ++ ']' :: [])) := rfl
  rw [htext, contains_append_cons hhash, contains_append_cons hopening,
    contains_append_cons hclosing, hnil, Bool.false_or, Bool.false_or, Bool.or_false]

/-! ## Solvers -/

/-- A payload of `solver` says the same without its blanks: they stand around it, or around the
equals sign in front of a string. -/
def SolverSqueezable (q : List Char) : Prop :=
  trim q = compact q ∨ ∃ before after v, (∀ c ∈ before, isBlank c = true) ∧
    (∀ c ∈ after, isBlank c = true) ∧ trim q = "bin".toList ++ (before ++ '=' :: (after ++ v)) ∧
      compact v = v ∧ Reads v [.literal v] ∧ (stringValue? v).isSome = true

/-- The word before a binary is read as a word, though it starts like a byte string. -/
theorem shape?_bin {c : Char} (hc : isIdentContinue c = false) (b : List Char) :
    shape? 'b' ("in".toList ++ c :: b) = some ⟨.word, 2, true⟩ := by
  have htake : ("in".toList ++ c :: b).takeWhile isIdentContinue = "in".toList := by
    rw [takeWhile_append_cons hc]
    decide
  have hword : wordLength? ('b' :: ("in".toList ++ c :: b)) = some 3 := by
    have hlength : wordLength? ('b' :: ("in".toList ++ c :: b)) =
        some ((("in".toList ++ c :: b).takeWhile isIdentContinue).length + 1) := rfl
    rw [hlength, htake]
    rfl
  have hshape : shape? 'b' ("in".toList ++ c :: b) =
      (wordLength? ('b' :: ("in".toList ++ c :: b))).map fun n => ⟨.word, n - 1, true⟩ := rfl
  rw [hshape, hword]
  rfl

/-- The name in front of a string is read with the equals sign after it, whatever blanks there are
around that. -/
theorem exists_trees?_bin {before after : List Char} (hbefore : ∀ c ∈ before, isBlank c = true)
    (hafter : ∀ c ∈ after, isBlank c = true) (v : List Char) :
    ∃ joint, trees? ("bin".toList ++ (before ++ '=' :: (after ++ v))) =
      (Groups.mk [] [.mark '=' joint, .word "bin".toList]).read v := by
  have hstop : ∃ c b, before ++ '=' :: (after ++ v) = c :: b ∧ isIdentContinue c = false := by
    cases before with
    | nil => exact ⟨'=', _, rfl, by decide⟩
    | cons c cs => exact ⟨c, _, rfl, isIdentContinue_of_isBlank (hbefore c List.mem_cons_self)⟩
  obtain ⟨c, b, hnext, hc⟩ := hstop
  obtain ⟨joint, hmark⟩ := (Groups.mk [] [.word "bin".toList]).exists_read_mark (c := '=')
    (s := after ++ v) rfl
  have hname : (Groups.mk [] []).read ("bin".toList ++ c :: b) =
      (Groups.mk [] [.word "bin".toList]).read (c :: b) :=
    Groups.read_cons _ (shape?_bin hc b) fun _ => rfl
  have hstart : trees? ("bin".toList ++ c :: b) =
      (Groups.mk [] []).read ("bin".toList ++ c :: b) :=
    Groups.trees?_eq_read (by decide) _
  refine ⟨joint, ?_⟩
  rw [hnext, hstart, hname, ← hnext, Groups.read_blanks _ hbefore, hmark,
    Groups.read_blanks _ hafter, Groups.push]

/-- The solver in a string is found after any blanks around the equals sign. -/
theorem namedSolver?_bin {v before after : List Char} (hv : Reads v [.literal v])
    (hbefore : ∀ c ∈ before, isBlank c = true) (hafter : ∀ c ∈ after, isBlank c = true) :
    namedSolver? ("bin".toList ++ (before ++ '=' :: (after ++ v))) = stringValue? v := by
  obtain ⟨joint, hbin⟩ := exists_trees?_bin hbefore hafter v
  have hread : (Groups.mk [] [.mark '=' joint, .word "bin".toList]).read v =
      some [.word "bin".toList, .mark '=' joint, .literal v] := by
    obtain ⟨trees', hsame, hread⟩ := Groups.read_of_reads hv
    cases hsame with | cons _ h =>
    cases h
    exact hread
  rw [namedSolver?, hbin, hread]
  rfl

/-- The solver that a payload names, or the payload. -/
def solverOf (q : List Char) : List Char := (namedSolver? (trim q)).getD (trim q)

/-- The solver of a text is that of its payload. -/
theorem solverChoice?_eq (text : String) : solverChoice? text =
    (payload? "solver".toList text.toList).map fun a => String.ofList (solverOf a) := rfl

/-- The solver of a payload may be read without its blanks. -/
theorem solverOf_compact {q : List Char} (hq : SolverSqueezable q) :
    solverOf (compact q) = solverOf q := by
  rw [solverOf, solverOf, trim_compact]
  rcases hq with hq | ⟨before, after, v, hbefore, hafter, hq, hv, hread, hvalue⟩
  · rw [hq]
  · have hcompact : compact q = "bin".toList ++ ([] ++ '=' :: ([] ++ v)) := by
      have hequals : ∀ r, compact ('=' :: r) = '=' :: compact r :=
        compact_cons_of_not_isBlank (by decide)
      have hbin : compact "bin".toList = "bin".toList := by decide
      rw [← compact_trim, hq, compact_append, compact_append, hequals, compact_append,
        compact_eq_nil_of_all hbefore, compact_eq_nil_of_all hafter, hbin, hv]
    obtain ⟨value, hvalue⟩ := Option.isSome_iff_exists.1 hvalue
    rw [hq, hcompact, namedSolver?_bin hread hbefore hafter,
      namedSolver?_bin hread (by simp) (by simp), hvalue]
    rfl

/-! ## Directives -/

/-- A directive for which it does not matter whether a test is marked. -/
def Directive.settled : Directive → Directive
  | .test => .unrecognized
  | d => d

/-- Texts with the same names, bound and solver say the same, once it is settled. -/
theorem settled_ofText_congr (hnames : ∀ w ∈ directiveNames, contains w s = contains w t)
    (hunwind : (payload? "unwind".toList s).map firstDecimals =
      (payload? "unwind".toList t).map firstDecimals)
    (hsolver : (payload? "solver".toList s).map solverOf =
      (payload? "solver".toList t).map solverOf) :
    (Directive.ofText (String.ofList s)).settled =
      (Directive.ofText (String.ofList t)).settled := by
  have hmentions : ∀ w : String, w.toList ∈ directiveNames →
      mentions w (String.ofList s) = mentions w (String.ofList t) := by
    intro w hw
    rw [mentions, mentions, String.toList_ofList, String.toList_ofList, hnames _ hw]
  have hbound : ∀ r : List Char, unwindBound (String.ofList r) =
      (((payload? "unwind".toList r).map firstDecimals).bind readWord).elim
        .unspecified .bounded := by
    intro r
    rw [unwindBound, String.toList_ofList (l := r), Option.bind_map, Function.comp_def]
    split
    · next n hn => rw [hn]; rfl
    · next hn => rw [hn]; rfl
  have hchoice : ∀ r : List Char, solverChoice? (String.ofList r) =
      ((payload? "solver".toList r).map solverOf).map String.ofList := by
    intro r
    rw [solverChoice?, String.toList_ofList (l := r), Option.map_map]
    rfl
  have hsome : (payload? "unwind".toList s).isSome = (payload? "unwind".toList t).isSome := by
    simpa using congrArg Option.isSome hunwind
  rw [Directive.ofText, Directive.ofText, hmentions proofName (by decide),
    hmentions "kani::unwind" (by decide), hmentions "kani::solver" (by decide),
    hmentions "kani::stub" (by decide), hmentions "kani::should_panic" (by decide),
    hmentions "kani::cover" (by decide), String.toList_ofList (l := s),
    String.toList_ofList (l := t), hsome, hbound, hbound, hunwind, hchoice, hchoice, hsolver]
  -- Only the last question is answered apart for the two texts, and it is the one about tests.
  split_ifs <;> rfl

/-- A directive of the verifier that says the same without its blanks. -/
structure Squeezable (d : List Char) (trees : List TokenTree) : Prop where
  isMeta : IsMeta d trees
  tool : toolName.toList <+: d
  /-- There are no comments in it. -/
  rendered : TokenTree.compactAll trees = compact d
  names : ∀ w ∈ directiveNames ++ payloadNames, staysWhole w d = true
  unwind : ∀ q ∈ payload? "unwind".toList d, numberStaysWhole q = true
  solver : ∀ q ∈ payload? "solver".toList d, SolverSqueezable q

variable {d : List Char} {trees : List TokenTree}

/-- Rendering keeps the payloads, but for their blanks. -/
theorem Squeezable.payload?_eq (h : Squeezable d trees) (hw : w ∈ directiveNames ++ payloadNames) :
    payload? w (TokenTree.compactAll trees) = (payload? w (attributeText d)).map compact := by
  rw [h.rendered, payload?_compact (isWord_of_mem hw) (h.names w hw), payload?_attributeText hw]

/-- Rendering keeps the names. -/
theorem Squeezable.contains_eq (h : Squeezable d trees) (hw : w ∈ directiveNames ++ payloadNames) :
    contains w (TokenTree.compactAll trees) = contains w (attributeText d) := by
  rw [h.rendered, contains_compact (isWord_of_mem hw) (h.names w hw), contains_attributeText hw]

/-- An attribute asks for what its directive asks for without its blanks. -/
theorem settled_ofText_attributeText (h : Squeezable d trees) :
    (Directive.ofText (String.ofList (attributeText d))).settled =
      (Directive.ofText (String.ofList (TokenTree.compactAll trees))).settled := by
  apply settled_ofText_congr
  · intro w hw
    exact (h.contains_eq (List.mem_append_left payloadNames hw)).symm
  · rw [h.payload?_eq (by decide), Option.map_map]
    apply Option.map_congr
    intro q hq
    rw [payload?_attributeText (by decide)] at hq
    exact (firstDecimals_compact (h.unwind q hq)).symm
  · rw [h.payload?_eq (by decide), Option.map_map]
    apply Option.map_congr
    intro q hq
    rw [payload?_attributeText (by decide)] at hq
    exact (solverOf_compact (h.solver q hq)).symm

/-! ## Attributes -/

/-- The text starts with the name of the tool. -/
theorem Squeezable.tool_isPrefix (h : Squeezable d trees) :
    toolName.toList <+: TokenTree.compactAll trees := by
  obtain ⟨r, rfl⟩ := h.tool
  have htool : compact toolName.toList = toolName.toList := by decide
  rw [h.rendered, compact_append, htool]
  exact List.prefix_append _ _

/-- A directive does not have the path of a conditional attribute, which starts with another
name. -/
theorem isIdent_cfgAttr_eq_false {m : Meta} (htool : toolName.toList <+: TokenTree.compactAll trees)
    (hm : Meta.ofTrees? trees = some m) : m.name.isIdent "cfg_attr" = false := by
  rw [Bool.eq_false_iff]
  intro hident
  rw [MetaPath.isIdent, Bool.and_eq_true, Bool.not_eq_true', beq_iff_eq] at hident
  have hname : m.name.compact = "cfg_attr".toList := by
    rw [MetaPath.compact, hident.1, hident.2]
    decide
  obtain ⟨r, hr⟩ := compact_name_isPrefix hm
  obtain ⟨r', hr'⟩ := htool
  rw [← hr, hname] at hr'
  exact absurd (List.cons.inj hr').1 (by decide)

/-- The attribute of a directive bundles nothing. -/
theorem bundled?_attributeText (h : Squeezable d trees) :
    bundled? (String.ofList (attributeText d)) = none := by
  obtain ⟨trees', hsame, hread⟩ := ofAttribute?_attributeText h.isMeta.1
  have hnone : (Meta.ofTrees? trees').bind conditionalArguments? = none := by
    cases hm : Meta.ofTrees? trees' with
    | none => rfl
    | some m =>
      have hident := isIdent_cfgAttr_eq_false (hsame.compactAll_eq ▸ h.tool_isPrefix) hm
      cases m with
      | list p b arguments => exact if_neg (by simpa [Meta.name] using hident)
      | path p => rfl
      | value p tokens => rfl
  rw [bundled?, String.toList_ofList, hread, hnone]
  split <;> rfl

/-- The attribute of a directive that only marks a proof asks for nothing else. -/
theorem ofText_of_isBareProof (h : Squeezable d trees)
    (hbare : isBareProof (String.ofList (attributeText d)) = true) :
    Directive.ofText (String.ofList (attributeText d)) = .proof := by
  obtain ⟨trees', hsame, hread⟩ := ofAttribute?_attributeText h.isMeta.1
  obtain ⟨m, hm⟩ := Option.isSome_iff_exists.1 (isSome_ofTrees?_congr hsame ▸ h.isMeta.2)
  have hproof : contains proofName.toList (TokenTree.compactAll trees) = true := by
    rw [isBareProof, String.toList_ofList, hread, hm] at hbare
    cases m with
    | path p =>
      have hsegments : p.segments = ["kani".toList, "proof".toList] := by simpa using hbare
      have hjoined : join "::".toList (p.segments.map Text.compact) = proofName.toList := by
        rw [hsegments]
        decide
      rw [hsame.compactAll_eq, compactAll_of_ofTrees?_path hm, MetaPath.compact, hjoined,
        contains_iff]
      exact ⟨_, [], (List.append_nil _).symm⟩
    | list p b arguments => cases hbare
    | value p tokens => cases hbare
  rw [h.contains_eq (by decide)] at hproof
  rw [Directive.ofText, mentions, String.toList_ofList, if_pos hproof]

/-- The attribute of a directive asks for one thing. -/
theorem directives_attributeText (h : Squeezable d trees) :
    directives (String.ofList (attributeText d)) =
      [Directive.ofText (String.ofList (attributeText d))] :=
  directives_of_bundled?_eq_none (bundled?_attributeText h)

/-- A bare mark of a proof has this one directive. -/
theorem directives_of_isBareProof (h : Squeezable d trees)
    (hbare : isBareProof (String.ofList (attributeText d)) = true) :
    directives (String.ofList (attributeText d)) = [.proof] := by
  rw [directives_attributeText h, ofText_of_isBareProof h hbare]

/-- The name of the tool is in the attribute of a directive. -/
theorem contains_tool_attributeText (h : Squeezable d trees) :
    contains toolName.toList (attributeText d) = true := by
  obtain ⟨r, rfl⟩ := h.tool
  rw [contains_iff]
  exact ⟨['#', '['], r ++ [']'], by simp [attributeText]⟩

variable {p : List Char} {condition : List TokenTree} {items : List (List Char)}
  {readings : List (List TokenTree)}

/-- Directives that are bundled ask for the same as the attributes of each. -/
theorem settled_directives (hp : IsMeta p condition) (h : List.Forall₂ Squeezable items readings)
    (hne : items ≠ []) :
    (directives (String.ofList (conditionalText p items))).map Directive.settled =
      ((items.map fun d => String.ofList (attributeText d)).flatMap directives).map
        Directive.settled := by
  have hmeta : List.Forall₂ IsMeta items readings := h.imp fun _ _ h => h.isMeta
  have htool : contains toolName.toList (conditionalText p items) = true := by
    cases h with
    | nil => exact absurd rfl hne
    | @cons d _ items _ hd _ =>
      obtain ⟨r, hr⟩ := hd.tool
      have htool : contains toolName.toList d = true := by
        rw [contains_iff]
        exact ⟨[], r, hr.symm⟩
      exact contains_of_isInfix (isInfix_conditionalText p List.mem_cons_self) htool
  rw [directives_of_bundled?_eq_some (bundled?_conditionalText hp hmeta htool), List.map_map,
    List.map_map]
  clear hne hmeta htool
  induction h with
  | nil => rfl
  | cons hd _ ih =>
    rw [List.map_cons, List.map_cons, List.flatMap_cons, List.map_append, ← ih,
      directives_attributeText hd, List.map_singleton, settled_ofText_attributeText hd]
    rfl

end ProofHarness.Attribute
