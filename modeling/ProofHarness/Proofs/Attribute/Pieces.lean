import ProofHarness.Attribute.Meta
import ProofHarness.Proofs.Lexical.Grouping

/-!
# Meta items in a list

A meta item holds no comma outside brackets (`commaFree_of_ofTrees?`), and it does not matter to
it whether a mark at its end is joint with what comes next (`isSome_ofTrees?_congr`), so that a list
of meta items is read item by item (`exists_metaList?_followed`).
-/

set_option autoImplicit false

namespace ProofHarness.Attribute

open Text Lexical

variable {ts ts' : List TokenTree}

/-! ## The mark at the end -/

/-- The last mark of an operator may be joint or not. -/
theorem startsWithMarks_congr (h : SameButEnd ts ts') (op : List Char) :
    startsWithMarks op ts = startsWithMarks op ts' := by
  induction op generalizing ts ts' with
  | nil => rfl
  | cons c cs ih =>
    cases h with
    | nil => rfl
    | last d joint joint' =>
      cases cs with
      | nil => rfl
      | cons e es => simp [startsWithMarks]
    | cons t h =>
      have ih := ih h
      cases cs with
      | nil => cases t <;> rfl
      | cons e es => cases t <;> simp [startsWithMarks, ih]

/-- So the same operator is found. -/
theorem operatorLength?_congr (h : SameButEnd ts ts') :
    operatorLength? ts = operatorLength? ts' := by
  unfold operatorLength?
  congr 2
  funext op
  exact startsWithMarks_congr h op

/-- Whether trees go on with the arguments of a macro whose name comes before them. -/
def isMacroCall : List TokenTree → Bool
  | .mark c _ :: .group _ _ :: _ => c == '!'
  | _ => false

/-- A call of a macro goes on behind its mark, which is therefore not the last tree. -/
theorem isMacroCall_congr (h : SameButEnd ts ts') : isMacroCall ts = isMacroCall ts' := by
  cases h with
  | nil => rfl
  | last c joint joint' => rfl
  | cons t h =>
    cases h with
    | nil => rfl
    | last c joint joint' => cases t <;> rfl
    | cons u h => cases t <;> cases u <;> rfl

/-- The trees that go on with the call of a macro. -/
theorem isMacroCall_iff : isMacroCall ts = true ↔
    ∃ joint d inner rest, ts = .mark '!' joint :: .group d inner :: rest := by
  constructor
  · intro h
    unfold isMacroCall at h
    split at h
    · next c joint d inner rest =>
      rw [beq_iff_eq] at h
      exact ⟨joint, d, inner, rest, by rw [h]⟩
    · cases h
  · rintro ⟨joint, d, inner, rest, rfl⟩
    rfl

/-- A word is an operand, perhaps with the call of a macro, or stands before one. -/
theorem expressionFrom_word (w : List Char) (ts : List TokenTree) :
    expressionFrom 0 true (.word w :: ts) =
      if isOperand w then expressionFrom (if isMacroCall ts then 2 else 0) false ts
      else w == "mut".toList && expressionFrom 0 true ts := by
  by_cases hmacro : isMacroCall ts = true
  · obtain ⟨joint, d, inner, rest, rfl⟩ := isMacroCall_iff.1 hmacro
    rw [if_pos hmacro]
    rfl
  · rw [if_neg hmacro, expressionFrom]
    intro joint d inner rest h
    exact hmacro (isMacroCall_iff.2 ⟨joint, d, inner, rest, h⟩)

/-- Whether trees are an expression does not depend on whether the last mark is joint. -/
theorem expressionFrom_congr (h : SameButEnd ts ts') (skip : Nat) (expected : Bool) :
    expressionFrom skip expected ts = expressionFrom skip expected ts' := by
  -- The last mark may be joint or not, for nothing comes after it to be joined with.
  induction h generalizing skip expected with
  | nil => rfl
  | last c joint joint' =>
    have hop := operatorLength?_congr (.last c joint joint')
    cases skip with
    | succ skip => rfl
    | zero =>
      cases expected with
      | true => rfl
      | false =>
        simp only [expressionFrom, hop]
  | @cons t ts ts' h ih =>
    have hop := operatorLength?_congr (h.cons t)
    cases skip with
    | succ skip => exact ih skip expected
    | zero =>
      cases expected with
      | true =>
        cases t with
        | word w => rw [expressionFrom_word, expressionFrom_word, isMacroCall_congr h, ih, ih]
        | _ => simp only [expressionFrom, ih]
      | false =>
        cases t with
        | mark c joint =>
          simp only [expressionFrom, hop, ih]
        | _ => simp only [expressionFrom, ih]

/-- The readings of two lists of trees begin with the same and leave rests that differ at most in
the mark at their end. -/
def SameRest {α : Type} (r r' : Option (α × List TokenTree)) : Prop :=
  Option.Rel (fun a b => a.1 = b.1 ∧ SameButEnd a.2 b.2) r r'

/-- Whether trees go on with a double colon, which a path needs to go on. -/
def startsWithColons : List TokenTree → Bool
  | .mark c joint :: .mark d _ :: _ => c == ':' && joint && d == ':'
  | _ => false

/-- The trees that start with a double colon. -/
theorem startsWithColons_iff : startsWithColons ts = true ↔
    ∃ joint rest, ts = .mark ':' true :: .mark ':' joint :: rest := by
  constructor
  · intro h
    unfold startsWithColons at h
    split at h
    · simp only [Bool.and_eq_true, beq_iff_eq] at h
      obtain ⟨⟨rfl, rfl⟩, rfl⟩ := h
      exact ⟨_, _, rfl⟩
    · cases h
  · rintro ⟨joint, rest, rfl⟩
    rfl

/-- The second colon may be joint or not. -/
theorem startsWithColons_congr (h : SameButEnd ts ts') :
    startsWithColons ts = startsWithColons ts' := by
  cases h with
  | nil => rfl
  | last c joint joint' => rfl
  | cons t h =>
    cases h with
    | nil => rfl
    | last c joint joint' => cases t <;> rfl
    | cons u h => cases t <;> cases u <;> rfl

/-- A word without a double colon after it is the last segment. -/
theorem segmentsFrom?_word {w : List Char} (h : startsWithColons ts = false) :
    segmentsFrom? (.word w :: ts) = if isSegment w then some ([w], ts) else none := by
  rw [segmentsFrom?]
  intro joint rest hts
  rw [startsWithColons_iff.2 ⟨joint, rest, hts⟩] at h
  cases h

/-- What is done with the reading does not touch the rest. -/
theorem SameRest.map {α β : Type} {r r' : Option (α × List TokenTree)} (h : SameRest r r')
    (f : α → β) : SameRest (r.map fun a => (f a.1, a.2)) (r'.map fun a => (f a.1, a.2)) := by
  cases h with
  | some h => exact .some ⟨congrArg f h.1, h.2⟩
  | none => exact .none

/-- The same segments are read, whether the last mark is joint or not. -/
theorem segmentsFrom?_congr {us us' : List TokenTree} (h : SameButEnd us us') :
    SameRest (segmentsFrom? us) (segmentsFrom? us') := by
  cases h with
  | nil => exact .none
  | last => exact .none
  | @cons t ts ts' h =>
    cases t with
    | word w =>
      by_cases hcolons : startsWithColons ts = true
      · obtain ⟨joint, rest, rfl⟩ := startsWithColons_iff.1 hcolons
        cases h with | cons _ h =>
        cases h with
        | last =>
          rw [segmentsFrom?, segmentsFrom?]
          split <;> exact .none
        | cons _ h =>
          have ih := segmentsFrom?_congr h
          rw [segmentsFrom?, segmentsFrom?]
          split
          · exact ih.map (w :: ·)
          · exact .none
      · rw [Bool.not_eq_true] at hcolons
        rw [segmentsFrom?_word hcolons, segmentsFrom?_word (startsWithColons_congr h ▸ hcolons)]
        split
        · exact .some ⟨rfl, h⟩
        · exact .none
    | _ => exact .none
termination_by us.length

/-- A path that starts with a word has no colons in front. -/
theorem pathFrom?_word (w : List Char) (ts : List TokenTree) :
    pathFrom? (.word w :: ts) =
      if w == "unsafe".toList then some (⟨false, [w]⟩, ts)
      else (segmentsFrom? (.word w :: ts)).map fun r => (⟨false, r.1⟩, r.2) := rfl

/-- A path that starts with a mark starts with a double colon. -/
theorem pathFrom?_mark (c : Char) (joint : Bool) (ts : List TokenTree) :
    pathFrom? (.mark c joint :: ts) =
      if startsWithColons (.mark c joint :: ts) then
        (segmentsFrom? ts.tail).map fun r => (⟨true, r.1⟩, r.2)
      else none := by
  by_cases hcolons : startsWithColons (.mark c joint :: ts) = true
  · obtain ⟨joint', rest, h⟩ := startsWithColons_iff.1 hcolons
    simp only [List.cons.injEq, TokenTree.mark.injEq] at h
    obtain ⟨⟨rfl, rfl⟩, rfl⟩ := h
    rw [if_pos hcolons]
    rfl
  · rw [if_neg hcolons]
    unfold pathFrom?
    split
    · next heq => exact absurd (startsWithColons_iff.2 ⟨_, _, heq⟩) hcolons
    · next heq => cases heq
    · rfl

/-- What comes after the first tree. -/
theorem tail_congr (h : SameButEnd ts ts') : SameButEnd ts.tail ts'.tail := by
  cases h with
  | nil => exact .nil
  | last => exact .nil
  | cons _ h => exact h

/-- The same path is read, whether the last mark is joint or not. -/
theorem pathFrom?_congr (h : SameButEnd ts ts') : SameRest (pathFrom? ts) (pathFrom? ts') := by
  have hcolons := startsWithColons_congr h
  have hsegments := segmentsFrom?_congr h
  cases h with
  | nil => exact .none
  | last =>
    rw [pathFrom?_mark, pathFrom?_mark]
    exact .none
  | cons t h =>
    cases t with
    | word w =>
      rw [pathFrom?_word, pathFrom?_word]
      split
      · exact .some ⟨rfl, h⟩
      · exact hsegments.map (MetaPath.mk false)
    | mark c joint =>
      rw [pathFrom?_mark, pathFrom?_mark, hcolons]
      split
      · exact (segmentsFrom?_congr (tail_congr h)).map (MetaPath.mk true)
      · exact .none
    | _ => exact .none

/-- A mark after the path is an equals sign with a value after it. -/
theorem ofRest?_mark (p : MetaPath) (c : Char) (joint : Bool) (ts : List TokenTree) :
    Meta.ofRest? p (.mark c joint :: ts) =
      if c == '=' && isExpression ts then some (.value p ts) else none := by
  by_cases hc : c = '='
  · subst hc
    rfl
  · have hnone : Meta.ofRest? p (.mark c joint :: ts) = none := by
      unfold Meta.ofRest?
      split
      · next heq => cases heq
      · next heq => cases heq
      · next heq => exact absurd (TokenTree.mark.inj (List.cons.inj heq).1).1 hc
      · rfl
    simp [hnone, hc]

/-- Whether there is an item does not depend on whether the last mark is joint. -/
theorem isSome_ofRest?_congr (p : MetaPath) (h : SameButEnd ts ts') :
    (Meta.ofRest? p ts).isSome = (Meta.ofRest? p ts').isSome := by
  cases h with
  | nil => rfl
  | last c joint joint' => rw [ofRest?_mark, ofRest?_mark]
  | cons t h =>
    cases t with
    | mark c joint =>
      rw [ofRest?_mark, ofRest?_mark, isExpression, isExpression, expressionFrom_congr h]
      split <;> rfl
    | group d inner => cases h <;> rfl
    | _ => rfl

/-- The same holds for all of the trees. -/
theorem isSome_ofTrees?_congr (h : SameButEnd ts ts') :
    (Meta.ofTrees? ts).isSome = (Meta.ofTrees? ts').isSome := by
  have hpath := pathFrom?_congr h
  rw [Meta.ofTrees?, Meta.ofTrees?]
  generalize pathFrom? ts = r, pathFrom? ts' = r' at hpath
  cases hpath with
  | none => rfl
  | some h =>
    rw [Option.bind_some, Option.bind_some, h.1, isSome_ofRest?_congr _ h.2]

/-! ## Paths -/

/-- The text of a path without blanks. -/
def MetaPath.compact (p : MetaPath) : List Char :=
  (if p.absolute then "::".toList else []) ++ join "::".toList (p.segments.map Text.compact)

/-- Segments are written with double colons between them. -/
theorem compactAll_of_segmentsFrom? {us rest : List TokenTree} {segments : List (List Char)}
    (h : segmentsFrom? us = some (segments, rest)) :
    segments ≠ [] ∧ TokenTree.compactAll us =
      join "::".toList (segments.map Text.compact) ++ TokenTree.compactAll rest := by
  fun_induction segmentsFrom? us generalizing segments with
  | case1 w joint more hw ih =>
    obtain ⟨⟨segments', rest'⟩, hr, heq⟩ := Option.map_eq_some_iff.1 h
    cases heq
    obtain ⟨hne, ih⟩ := ih hr
    refine ⟨List.cons_ne_nil w segments', ?_⟩
    cases segments' with
    | nil => exact absurd rfl hne
    | cons v vs => simp [TokenTree.compactAll, TokenTree.compact, ih, join]
  | case2 => cases h
  | case3 w more hpath hw =>
    cases h
    exact ⟨List.cons_ne_nil w [], by simp [TokenTree.compactAll, TokenTree.compact, join]⟩
  | case4 => cases h
  | case5 => cases h

/-- A path is the word `unsafe`, or its segments with or without two colons in front. -/
theorem pathFrom?_cases {rest : List TokenTree} {p : MetaPath}
    (h : pathFrom? ts = some (p, rest)) :
    (∃ w, ts = .word w :: rest ∧ p = ⟨false, [w]⟩) ∨
      (p.absolute = false ∧ segmentsFrom? ts = some (p.segments, rest)) ∨
      ∃ joint more, ts = .mark ':' true :: .mark ':' joint :: more ∧ p.absolute = true ∧
        segmentsFrom? more = some (p.segments, rest) := by
  unfold pathFrom? at h
  split at h
  · next joint more =>
    obtain ⟨r, hr, heq⟩ := Option.map_eq_some_iff.1 h
    cases heq
    exact .inr (.inr ⟨joint, more, rfl, rfl, hr⟩)
  · split at h
    · cases h
      exact .inl ⟨_, rfl, rfl⟩
    · obtain ⟨r, hr, heq⟩ := Option.map_eq_some_iff.1 h
      cases heq
      exact .inr (.inl ⟨rfl, hr⟩)
  · cases h

/-- A path stands in front of the rest. -/
theorem compactAll_of_pathFrom? {rest : List TokenTree} {p : MetaPath}
    (h : pathFrom? ts = some (p, rest)) :
    TokenTree.compactAll ts = p.compact ++ TokenTree.compactAll rest := by
  rcases pathFrom?_cases h with ⟨w, rfl, rfl⟩ | ⟨hfalse, hsegments⟩ |
    ⟨joint, more, rfl, htrue, hsegments⟩
  · simp [MetaPath.compact, TokenTree.compactAll, TokenTree.compact, join]
  · rw [(compactAll_of_segmentsFrom? hsegments).2, MetaPath.compact, hfalse]
    rfl
  · have hmore := (compactAll_of_segmentsFrom? hsegments).2
    simp [MetaPath.compact, TokenTree.compactAll, TokenTree.compact, hmore, htrue]

/-- Whether the tree may stand in a path: a word or a colon. -/
def isPathPart : TokenTree → Bool
  | .word _ => true
  | .mark c _ => c == ':'
  | _ => false

/-- Of the marks only colons are parts of paths. -/
theorem isMark_of_isPathPart {t : TokenTree} {c : Char} (hc : c ≠ ':') (ht : isPathPart t = true) :
    t.isMark c = false := by
  cases t with
  | mark d joint =>
    rw [isPathPart, beq_iff_eq] at ht
    rw [TokenTree.isMark, ht]
    exact beq_false_of_ne hc
  | _ => rfl

/-- Segments are read off the front, and consist of parts of paths. -/
theorem exists_append_of_segmentsFrom? {us rest : List TokenTree} {segments : List (List Char)}
    (h : segmentsFrom? us = some (segments, rest)) :
    ∃ path, us = path ++ rest ∧ path ≠ [] ∧ ∀ t ∈ path, isPathPart t = true := by
  fun_induction segmentsFrom? us generalizing segments with
  | case1 w joint more hw ih =>
    obtain ⟨⟨segments', rest'⟩, hr, heq⟩ := Option.map_eq_some_iff.1 h
    cases heq
    obtain ⟨path, rfl, -, hpath⟩ := ih hr
    refine ⟨.word w :: .mark ':' true :: .mark ':' joint :: path, rfl, List.cons_ne_nil _ _, ?_⟩
    simpa [isPathPart] using hpath
  | case2 => cases h
  | case3 w more hpath hw =>
    cases h
    exact ⟨[.word w], rfl, List.cons_ne_nil _ _, by simp [isPathPart]⟩
  | case4 => cases h
  | case5 => cases h

/-- The words and colons of a path stand in front of the rest. -/
theorem exists_append_of_pathFrom? {rest : List TokenTree} {p : MetaPath}
    (h : pathFrom? ts = some (p, rest)) :
    ∃ path, ts = path ++ rest ∧ path ≠ [] ∧ ∀ t ∈ path, isPathPart t = true := by
  rcases pathFrom?_cases h with ⟨w, rfl, rfl⟩ | ⟨-, hsegments⟩ | ⟨joint, more, rfl, -, hsegments⟩
  · exact ⟨[.word w], rfl, List.cons_ne_nil _ _, by simp [isPathPart]⟩
  · exact exists_append_of_segmentsFrom? hsegments
  · obtain ⟨path, rfl, -, hparts⟩ := exists_append_of_segmentsFrom? hsegments
    refine ⟨.mark ':' true :: .mark ':' joint :: path, rfl, List.cons_ne_nil _ _, ?_⟩
    simpa [isPathPart] using hparts

/-- The path of a meta item. -/
def Meta.name : Meta → MetaPath
  | .path p => p
  | .list p _ _ => p
  | .value p _ => p

/-- The path of an item is the one that was read. -/
theorem name_of_ofRest? {p : MetaPath} {rest : List TokenTree} {m : Meta}
    (h : Meta.ofRest? p rest = some m) : m.name = p := by
  unfold Meta.ofRest? at h
  split at h
  · cases h
    rfl
  · cases h
    rfl
  · split at h
    · cases h
      rfl
    · cases h
  · cases h

/-- An item that is a path has nothing after it. -/
theorem eq_nil_of_ofRest?_path {p q : MetaPath} {rest : List TokenTree}
    (h : Meta.ofRest? p rest = some (.path q)) : rest = [] := by
  unfold Meta.ofRest? at h
  split at h
  · rfl
  · cases h
  · split at h <;> cases h
  · cases h

/-- A meta item starts with its path. -/
theorem compact_name_isPrefix {m : Meta} (h : Meta.ofTrees? ts = some m) :
    m.name.compact <+: TokenTree.compactAll ts := by
  obtain ⟨⟨p, rest⟩, hp, hrest⟩ := Option.bind_eq_some_iff.1 h
  rw [name_of_ofRest? hrest, compactAll_of_pathFrom? hp]
  exact List.prefix_append _ _

/-- An item that is a path is written as its path. -/
theorem compactAll_of_ofTrees?_path {p : MetaPath} (h : Meta.ofTrees? ts = some (.path p)) :
    TokenTree.compactAll ts = p.compact := by
  obtain ⟨⟨q, rest⟩, hq, hrest⟩ := Option.bind_eq_some_iff.1 h
  have hname : p = q := name_of_ofRest? hrest
  have hnil : rest = [] := eq_nil_of_ofRest?_path hrest
  rw [compactAll_of_pathFrom? hq, hname, hnil, TokenTree.compactAll, List.append_nil]

/-! ## Commas -/

/-- No tree is a comma. -/
def CommaFree (ts : List TokenTree) : Prop := ∀ t ∈ ts, t.isMark ',' = false

/-- Trees without commas begin with such a tree. -/
theorem commaFree_cons {t : TokenTree} :
    CommaFree (t :: ts) ↔ t.isMark ',' = false ∧ CommaFree ts :=
  List.forall_mem_cons

/-- The marks of an operator are no commas. -/
theorem commaFree_take_of_startsWithMarks {op : List Char} (h : startsWithMarks op ts = true)
    (hop : ',' ∉ op) : CommaFree (ts.take op.length) := by
  induction op generalizing ts with
  | nil => simp [CommaFree]
  | cons c cs ih =>
    obtain ⟨hc, hcs⟩ := List.ne_and_not_mem_of_not_mem_cons hop
    have hmark : ∀ d, c = d → ∀ joint, (TokenTree.mark d joint).isMark ',' = false := by
      rintro d rfl joint
      simpa [TokenTree.isMark] using hc
    cases ts with
    | nil => simp [CommaFree]
    | cons t ts =>
      rw [List.length_cons, List.take_succ_cons, commaFree_cons]
      cases t with
      | mark d joint =>
        cases cs with
        | nil =>
          have hd : c = d := by simpa [startsWithMarks] using h
          exact ⟨hmark d hd joint, by simp [CommaFree]⟩
        | cons e es =>
          simp only [startsWithMarks, Bool.and_eq_true, beq_iff_eq] at h
          exact ⟨hmark d h.1.1 joint, ih h.2 hcs⟩
      | _ => cases cs <;> simp [startsWithMarks] at h

/-- An operator has some mark and no comma. -/
theorem commaFree_take_of_operatorLength? {n : Nat} (h : operatorLength? ts = some n) :
    1 ≤ n ∧ CommaFree (ts.take n) := by
  obtain ⟨op, hop, rfl⟩ := Option.map_eq_some_iff.1 h
  have hoperators : ∀ op ∈ operators, ',' ∉ op ∧ 1 ≤ op.length := by decide
  obtain ⟨hcomma, hlength⟩ := hoperators op (List.mem_of_find?_eq_some hop)
  have hstart := List.find?_some hop
  exact ⟨hlength, commaFree_take_of_startsWithMarks hstart hcomma⟩

/-- No tree of an expression is a comma, if none of those that are passed over is. -/
theorem commaFree_of_expressionFrom {skip : Nat} {expected : Bool}
    (h : expressionFrom skip expected ts = true) (hskip : CommaFree (ts.take skip)) :
    CommaFree ts := by
  -- On the trees, for any number of them still to be skipped: these are free of commas by `hskip`,
  -- and the step that sets the number shows it for those that it will skip.
  induction ts generalizing skip expected with
  | nil => simp [CommaFree]
  | cons t ts ih =>
    have hzero : CommaFree (ts.take 0) := by simp [CommaFree]
    rw [commaFree_cons]
    cases skip with
    | succ skip =>
      rw [List.take_succ_cons, commaFree_cons] at hskip
      exact ⟨hskip.1, ih h hskip.2⟩
    | zero =>
      cases expected with
      | true =>
        cases t with
        | literal text => exact ⟨rfl, ih h hzero⟩
        | group d inner => exact ⟨rfl, ih h hzero⟩
        | lifetime text => cases h
        | mark c joint =>
          simp only [expressionFrom, Bool.and_eq_true, List.contains_iff_mem] at h
          have hc : ',' ≠ c := by
            rintro rfl
            exact absurd h.1 (by decide)
          exact ⟨beq_eq_false_iff_ne.2 hc, ih h.2 hzero⟩
        | word w =>
          refine ⟨rfl, ?_⟩
          rw [expressionFrom_word] at h
          split at h
          · split at h
            · next hmacro =>
              obtain ⟨joint, d, inner, rest, rfl⟩ := isMacroCall_iff.1 hmacro
              exact ih h (by simp [CommaFree, TokenTree.isMark])
            · exact ih h hzero
          · rw [Bool.and_eq_true] at h
            exact ih h.2 hzero
      | false =>
        cases t with
        | literal text => cases h
        | lifetime text => cases h
        | group d inner => exact ⟨rfl, ih h hzero⟩
        | word w =>
          simp only [expressionFrom, Bool.and_eq_true] at h
          exact ⟨rfl, ih h.2 hzero⟩
        | mark c joint =>
          simp only [expressionFrom] at h
          split at h
          · next hc =>
            rw [beq_iff_eq] at hc
            subst hc
            exact ⟨rfl, ih h hzero⟩
          · split at h
            · next n hn =>
              obtain ⟨hpos, hfree⟩ := commaFree_take_of_operatorLength? hn
              obtain ⟨m, rfl⟩ := Nat.exists_eq_add_of_le' hpos
              rw [List.take_succ_cons, commaFree_cons] at hfree
              exact ⟨hfree.1, ih h hfree.2⟩
            · cases h

/-- Paths have no commas. -/
theorem commaFree_of_pathFrom? {rest : List TokenTree} {p : MetaPath}
    (h : pathFrom? ts = some (p, rest)) (hrest : CommaFree rest) : CommaFree ts := by
  obtain ⟨path, rfl, -, hpath⟩ := exists_append_of_pathFrom? h
  intro t ht
  rcases List.mem_append.1 ht with ht | ht
  · exact isMark_of_isPathPart (by decide) (hpath t ht)
  · exact hrest t ht

/-- What comes after the path of an item has no commas outside of groups. -/
theorem commaFree_of_ofRest? {p : MetaPath} {m : Meta} (h : Meta.ofRest? p ts = some m) :
    CommaFree ts := by
  cases ts with
  | nil => simp [CommaFree]
  | cons t ts =>
    cases t with
    | mark c joint =>
      rw [ofRest?_mark] at h
      split at h
      · next hvalue =>
        rw [Bool.and_eq_true, beq_iff_eq] at hvalue
        obtain ⟨rfl, hvalue⟩ := hvalue
        exact commaFree_cons.2 ⟨rfl, commaFree_of_expressionFrom hvalue (by simp [CommaFree])⟩
      · cases h
    | group d inner =>
      cases ts with
      | nil => simp [CommaFree, TokenTree.isMark]
      | cons u us => cases h
    | _ => cases h

/-- A meta item holds no comma outside brackets. -/
theorem commaFree_of_ofTrees? (h : (Meta.ofTrees? ts).isSome = true) : CommaFree ts := by
  obtain ⟨m, hm⟩ := Option.isSome_iff_exists.1 h
  obtain ⟨⟨p, rest⟩, hp, hrest⟩ := Option.bind_eq_some_iff.1 hm
  exact commaFree_of_pathFrom? hp (commaFree_of_ofRest? hrest)

/-- Without trees there is no item. -/
theorem ne_nil_of_ofTrees? (h : (Meta.ofTrees? ts).isSome = true) : ts ≠ [] := by
  rintro rfl
  cases h

/-! ## Lists -/

/-- Lists of trees with a comma in front of each, which may be joint with what comes next. -/
def followed (rest : List (Bool × List TokenTree)) : List TokenTree :=
  rest.flatMap fun r => .mark ',' r.1 :: r.2

/-- A comma ends the piece before it. -/
theorem commaPieces_append_comma (hts : CommaFree ts) (joint : Bool) (us : List TokenTree) :
    commaPieces (ts ++ .mark ',' joint :: us) = ts :: commaPieces us := by
  induction ts with
  | nil => rfl
  | cons t ts ih =>
    obtain ⟨ht, hts⟩ := commaFree_cons.1 hts
    rw [List.cons_append, commaPieces, if_neg (by simp [ht]), ih hts]
    rfl

/-- Without a comma there is one piece. -/
theorem commaPieces_of_commaFree (hts : CommaFree ts) (hne : ts ≠ []) : commaPieces ts = [ts] := by
  induction ts with
  | nil => exact absurd rfl hne
  | cons t ts ih =>
    obtain ⟨ht, hts⟩ := commaFree_cons.1 hts
    rw [commaPieces, if_neg (by simp [ht])]
    cases ts with
    | nil => rfl
    | cons u us =>
      rw [ih hts (List.cons_ne_nil u us)]
      rfl

/-- Pieces between commas are told apart, with or without a comma at the end. -/
theorem commaPieces_followed {first last : List TokenTree} {rest : List (Bool × List TokenTree)}
    (h : ∀ piece ∈ first :: rest.map Prod.snd, CommaFree piece ∧ piece ≠ [])
    (hlast : last = [] ∨ ∃ joint, last = [.mark ',' joint]) :
    commaPieces (first ++ (followed rest ++ last)) = first :: rest.map Prod.snd := by
  induction rest generalizing first with
  | nil =>
    obtain ⟨hfree, hne⟩ := h first List.mem_cons_self
    rcases hlast with rfl | ⟨joint, rfl⟩
    · rw [followed, List.flatMap_nil, List.append_nil, List.append_nil,
        commaPieces_of_commaFree hfree hne]
      rfl
    · rw [followed, List.flatMap_nil, List.nil_append, commaPieces_append_comma hfree]
      rfl
  | cons second rest ih =>
    obtain ⟨hfirst, hrest⟩ := List.forall_mem_cons.1 h
    have hstep : followed (second :: rest) ++ last =
        .mark ',' second.1 :: (second.2 ++ (followed rest ++ last)) := by
      simp [followed]
    rw [hstep, commaPieces_append_comma hfirst.1, ih hrest, List.map_cons]

/-- A list of meta items is read item by item. -/
theorem exists_metaList?_followed {first last : List TokenTree}
    {rest : List (Bool × List TokenTree)}
    (h : ∀ piece ∈ first :: rest.map Prod.snd, (Meta.ofTrees? piece).isSome = true)
    (hlast : last = [] ∨ ∃ joint, last = [.mark ',' joint]) :
    ∃ items, metaList? (first ++ (followed rest ++ last)) = some items ∧
      items.map Prod.fst = first :: rest.map Prod.snd := by
  have hmap : ∀ pieces : List (List TokenTree),
      (∀ piece ∈ pieces, (Meta.ofTrees? piece).isSome = true) →
      ∃ items, (pieces.mapM fun piece => (Meta.ofTrees? piece).map fun m => (piece, m)) =
        some items ∧ items.map Prod.fst = pieces := by
    intro pieces hpieces
    induction pieces with
    | nil => exact ⟨[], rfl, rfl⟩
    | cons piece pieces ih =>
      obtain ⟨hpiece, hpieces⟩ := List.forall_mem_cons.1 hpieces
      obtain ⟨m, hm⟩ := Option.isSome_iff_exists.1 hpiece
      obtain ⟨items, hitems, hfst⟩ := ih hpieces
      refine ⟨(piece, m) :: items, ?_, by rw [List.map_cons, hfst]⟩
      rw [List.mapM_cons, hm, hitems]
      rfl
  have hpieces : ∀ piece ∈ first :: rest.map Prod.snd, CommaFree piece ∧ piece ≠ [] :=
    fun piece hp => ⟨commaFree_of_ofTrees? (h piece hp), ne_nil_of_ofTrees? (h piece hp)⟩
  rw [metaList?, commaPieces_followed hpieces hlast]
  exact hmap _ h

/-- The pieces consist of the trees that were cut. -/
theorem mem_of_mem_commaPieces {piece : List TokenTree} (hpiece : piece ∈ commaPieces ts)
    {t : TokenTree} (ht : t ∈ piece) : t ∈ ts := by
  induction ts generalizing piece with
  | nil => cases hpiece
  | cons u us ih =>
    rw [commaPieces] at hpiece
    split at hpiece
    · rcases List.mem_cons.1 hpiece with rfl | hpiece
      · cases ht
      · exact List.mem_cons_of_mem u (ih hpiece ht)
    · cases hpieces : commaPieces us with
      | nil =>
        rw [hpieces, extendPiece, List.mem_singleton] at hpiece
        subst hpiece
        rw [List.mem_singleton.1 ht]
        exact List.mem_cons_self
      | cons first rest =>
        rw [hpieces, extendPiece, List.mem_cons] at hpiece
        rw [hpieces] at ih
        rcases hpiece with rfl | hpiece
        · rcases List.mem_cons.1 ht with rfl | ht
          · exact List.mem_cons_self
          · exact List.mem_cons_of_mem u (ih List.mem_cons_self ht)
        · exact List.mem_cons_of_mem u (ih (List.mem_cons_of_mem first hpiece) ht)

/-- Each item of a list is read off one of its pieces. -/
theorem mem_commaPieces_of_mem_metaList? {items : List (List TokenTree × Meta)}
    (h : metaList? ts = some items) {item : List TokenTree × Meta} (hitem : item ∈ items) :
    item.1 ∈ commaPieces ts ∧ Meta.ofTrees? item.1 = some item.2 := by
  rw [metaList?] at h
  generalize commaPieces ts = pieces at h ⊢
  induction pieces generalizing items with
  | nil =>
    cases h
    cases hitem
  | cons piece pieces ih =>
    rw [List.mapM_cons] at h
    obtain ⟨first, hfirst, h⟩ := Option.bind_eq_some_iff.1 h
    obtain ⟨rest, hrest, h⟩ := Option.bind_eq_some_iff.1 h
    obtain ⟨m, hm, rfl⟩ := Option.map_eq_some_iff.1 hfirst
    cases h
    rcases List.mem_cons.1 hitem with rfl | hitem
    · exact ⟨List.mem_cons_self, hm⟩
    · obtain ⟨hmem, hread⟩ := ih hitem hrest
      exact ⟨List.mem_cons_of_mem piece hmem, hread⟩

end ProofHarness.Attribute
