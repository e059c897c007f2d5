import ProofHarness.Proofs.Attribute.Leftmost
import ProofHarness.Proofs.Attribute.Squeezed
import ProofHarness.Proofs.Lexical.Spelling

/-!
# Solvers

An attribute that names its solver by an identifier or by a string gives that solver
(`solverChoice?_exact`), whatever blanks there are around the name.  A string is cut off at a
closing parenthesis in it, and what is left of it is then taken as it is.
-/

set_option autoImplicit false

namespace ProofHarness.Attribute

open Text Lexical

variable {start v x : List Char}

/-- The attribute that asks for a solver, with blanks around what is in parentheses. -/
def solverText (before : Gap) (payload : List Char) (after : Gap) : List Char :=
  "#[kani::".toList ++ ("solver".toList ++ '(' ::
    (before.text ++ (payload ++ (after.text ++ [')', ']']))))

/-- What may stand in front of a string that names a solver. -/
def solverStarts : List (List Char) := [[], "bin = ".toList]

/-! ## Solvers of payloads -/

/-- An identifier names itself. -/
theorem solverOf_identText (hx : IsIdentText x) : solverOf x = x := by
  have htrim : trim x = x := trim_eq_self_of_all fun c hc => isBlank_of_mem_identText hx hc
  have htrees : trees? x = some [.word x] := by
    have hread : (Groups.mk [] []).read (x ++ []) = ((Groups.mk [] []).push (.word x)).read [] :=
      Groups.read_identText _ hx stopsWord_nil
    rw [List.append_nil] at hread
    cases x with
    | nil => cases hx
    | cons c cs =>
      have hc : c ≠ byteOrderMark := by
        rintro rfl
        cases hx with
        | plain start _ => exact absurd start (by decide +kernel)
      rw [Groups.trees?_eq_read hc, hread]
      rfl
  rw [solverOf, htrim, namedSolver?, htrees]
  simp only
  split <;> rfl

/-- How the word before a binary is written, gap by gap. -/
theorem binStart_append (s : List Char) : "bin = ".toList ++ s =
    "bin".toList ++ (Gap.space.text ++ '=' :: (Gap.space.text ++ s)) := rfl

/-- A string that is not closed, with something in front of it, cannot be cut into tokens. -/
theorem trees?_unclosed (hstart : start ∈ solverStarts) (hv : IsPlain v) :
    trees? (start ++ '\x22' :: v) = none := by
  simp only [solverStarts, List.mem_cons, List.not_mem_nil, or_false] at hstart
  rcases hstart with rfl | rfl
  · rw [List.nil_append, Groups.trees?_eq_read (by decide), Groups.read_unclosed _ hv]
  · obtain ⟨joint, hbin⟩ := exists_trees?_bin Gap.space.blank Gap.space.blank ('\x22' :: v)
    rw [binStart_append, hbin, Groups.read_unclosed _ hv]

/-- A plain string names its text, after either start. -/
theorem namedSolver?_stringText (hstart : start ∈ solverStarts) (hv : IsPlain v) :
    namedSolver? (start ++ stringText v) = some v := by
  have hread := reads_stringText hv
  rw [← stringValue?_stringText hv]
  simp only [solverStarts, List.mem_cons, List.not_mem_nil, or_false] at hstart
  rcases hstart with rfl | rfl
  · have htrees : trees? (stringText v) = some [.literal (stringText v)] := by
      obtain ⟨trees', hsame, hgo⟩ := @Groups.read_of_reads _ _ [] hread
      cases hsame with | cons _ h =>
      cases h
      rw [stringText, Groups.trees?_eq_read (by decide)]
      exact hgo
    rw [List.nil_append, namedSolver?, htrees]
  · rw [binStart_append, namedSolver?_bin hread Gap.space.blank Gap.space.blank]

/-- No blanks stand before either start. -/
theorem trimStart_solverStart (hstart : start ∈ solverStarts) (v : List Char) :
    trimStart (start ++ '\x22' :: v) = start ++ '\x22' :: v := by
  simp only [solverStarts, List.mem_cons, List.not_mem_nil, or_false] at hstart
  rcases hstart with rfl | rfl
  · exact trimStart_cons_of_not_isBlank (by decide) v
  · exact trimStart_cons_of_not_isBlank (by decide) _

/-- So does the payload that is such a string. -/
theorem solverOf_stringText (hstart : start ∈ solverStarts) (hv : IsPlain v) :
    solverOf (start ++ stringText v) = v := by
  have htrim : trim (start ++ stringText v) = start ++ stringText v := by
    have hends : start ++ stringText v = (start ++ '\x22' :: v) ++ '\x22' :: [] := by
      simp [stringText]
    rw [trim, stringText, trimStart_solverStart hstart, ← stringText, hends,
      trimEnd_append_cons (by decide)]
    rfl
  rw [solverOf, htrim, namedSolver?_stringText hstart hv]
  rfl

/-- What is left of a string that is cut off is taken as it is. -/
theorem solverOf_unclosed (hstart : start ∈ solverStarts) (hv : IsPlain v) :
    solverOf (start ++ '\x22' :: v) = trimEnd (start ++ '\x22' :: v) := by
  have htrim : trim (start ++ '\x22' :: v) = start ++ '\x22' :: trimEnd v := by
    rw [trim, trimStart_solverStart hstart, trimEnd_append_cons (by decide)]
  -- What is left after trimming still lacks its closing quote.
  have hplain : IsPlain (trimEnd v) := by
    obtain ⟨blanks, -, hsplit⟩ := exists_trimEnd_append v
    apply hv.of_subset
    intro c hc
    rw [← hsplit]
    exact List.mem_append_left blanks hc
  rw [solverOf, htrim, namedSolver?, trees?_unclosed hstart hplain,
    trimEnd_append_cons (by decide)]
  rfl

/-- Blanks around a payload are left out. -/
theorem solverOf_between (before after : Gap) (q : List Char) :
    solverOf (before.text ++ (q ++ after.text)) = solverOf q := by
  rw [solverOf, solverOf, Gap.trim_between]

/-! ## Solvers of attributes -/

/-- A payload without a closing parenthesis is found where it stands. -/
theorem solverChoice?_append {payload : List Char} (hpayload : ')' ∉ payload) (rest : List Char) :
    solverChoice? (String.ofList ("#[kani::".toList ++ ("solver".toList ++ '(' ::
      (payload ++ ')' :: rest)))) = some (String.ofList (solverOf payload)) := by
  have hfresh : 's' ∉ "olver".toList := by decide
  have hplace : payload? "solver".toList ("#[kani::".toList ++ ("solver".toList ++ '(' ::
      (payload ++ ')' :: rest))) = some payload :=
    payload?_append hfresh (by decide) (by decide) Gap.empty.blank hpayload
  rw [solverChoice?_eq, String.toList_ofList (l := _ ++ _), hplace]
  rfl

/-- A payload without closing parentheses is read without the blanks around it. -/
theorem solverChoice?_solverText {payload : List Char} (hpayload : ')' ∉ payload)
    (before after : Gap) : solverChoice? (String.ofList (solverText before payload after)) =
      some (String.ofList (solverOf payload)) := by
  have hclosing : ')' ∉ before.text ++ (payload ++ after.text) := by
    rw [List.mem_append, List.mem_append, not_or, not_or]
    exact ⟨before.not_mem_text (by decide), hpayload, after.not_mem_text (by decide)⟩
  have hrest : before.text ++ (payload ++ (after.text ++ [')', ']'])) =
      (before.text ++ (payload ++ after.text)) ++ ')' :: [']'] := by
    simp
  unfold solverText
  rw [hrest, solverChoice?_append hclosing, solverOf_between]

/-- A string with a closing parenthesis is read up to there, as it is written. -/
theorem solverChoice?_cut (hstart : start ∈ solverStarts) (hv : IsPlain v) (hclosing : ')' ∈ v)
    (before after : Gap) :
    solverChoice? (String.ofList (solverText before (start ++ stringText v) after)) =
      some (String.ofList (trimEnd (start ++ '\x22' :: v.takeWhile (· != ')')))) := by
  obtain ⟨rest, hrest⟩ := exists_eq_takeWhile_append hclosing
  have hplain : IsPlain (v.takeWhile (· != ')')) :=
    hv.of_subset (List.takeWhile_prefix _).subset
  have hstarts : ∀ start ∈ solverStarts, ')' ∉ start := by decide
  have hpayload : ')' ∉ before.text ++ (start ++ '\x22' :: v.takeWhile (· != ')')) := by
    intro hmem
    rw [List.mem_append, List.mem_append, List.mem_cons] at hmem
    rcases hmem with hmem | hmem | hmem | hmem
    · exact before.not_mem_text (by decide) hmem
    · exact hstarts start hstart hmem
    · exact absurd hmem (by decide)
    · exact absurd (List.mem_takeWhile_imp hmem) (by decide)
  have hsplit : before.text ++ ((start ++ stringText v) ++ (after.text ++ [')', ']'])) =
      (before.text ++ (start ++ '\x22' :: v.takeWhile (· != ')'))) ++
        ')' :: (rest ++ ('\x22' :: (after.text ++ [')', ']']))) := by
    have hstring : stringText v =
        '\x22' :: (v.takeWhile (· != ')') ++ ')' :: (rest ++ ['\x22'])) := by
      rw [stringText]
      conv_lhs => rw [hrest]
      simp
    rw [hstring]
    simp
  -- The blanks after the string are behind the parenthesis, so that only those before it are left.
  have htrim := solverOf_between before .empty (start ++ '\x22' :: v.takeWhile (· != ')'))
  rw [Gap.empty, List.append_nil] at htrim
  unfold solverText
  rw [hsplit, solverChoice?_append hpayload, htrim, solverOf_unclosed hstart hplain]

/-- A solver that is named by an identifier is given.  One that is named by a string without
escapes, alone or after `bin =`, is given exactly if there is no closing parenthesis in it;
otherwise the payload is given as it is written, up to the first one. -/
theorem solverChoice?_exact (before after : Gap) :
    (∀ x, IsIdentText x →
        solverChoice? (String.ofList (solverText before x after)) = some (String.ofList x)) ∧
      ∀ v start, '\x22' ∉ v → '\x5c' ∉ v → '\r' ∉ v → start ∈ [[], "bin = ".toList] →
        solverChoice? (String.ofList (solverText before (start ++ stringText v) after)) =
            some (String.ofList
              (if ')' ∈ v then trimEnd (start ++ '\x22' :: v.takeWhile (· != ')')) else v)) ∧
          (solverChoice? (String.ofList (solverText before (start ++ stringText v) after)) =
            some (String.ofList v) ↔ ')' ∉ v) := by
  constructor
  · intro x hx
    have hclosing : ')' ∉ x := by
      intro hmem
      exact absurd (isIdentContinue_of_mem_identText hx hmem) (by decide)
    rw [solverChoice?_solverText hclosing, solverOf_identText hx]
  · intro v start hquote hbackslash hreturn hstart
    have hv : IsPlain v := ⟨hquote, hbackslash, hreturn⟩
    by_cases hclosing : ')' ∈ v
    · rw [solverChoice?_cut hstart hv hclosing, if_pos hclosing]
      refine ⟨rfl, ?_⟩
      simp only [hclosing, not_true_eq_false, iff_false, Option.some.injEq, String.ofList_inj]
      -- The opening quote is left, which the string itself cannot hold.
      rw [trimEnd_append_cons (by decide)]
      intro heq
      rw [← heq] at hquote
      exact hquote (by simp)
    · have hpayload : ')' ∉ start ++ stringText v := by
        have hstarts : ∀ start ∈ solverStarts, ')' ∉ start := by decide
        simpa [stringText, hclosing] using hstarts start hstart
      rw [solverChoice?_solverText hpayload, solverOf_stringText hstart hv, if_neg hclosing]
      simp [hclosing]

/-- A path with blanks in it, after `bin =`, is given as it is. -/
theorem solverChoice?_exact_path :
    solverChoice? (String.ofList (solverText .space
        ("bin = ".toList ++ stringText "/opt/my solvers/z3".toList) .empty)) =
      some (String.ofList "/opt/my solvers/z3".toList) := by
  have hexact := (solverChoice?_exact .space .empty).2 "/opt/my solvers/z3".toList "bin = ".toList
    (by decide) (by decide) (by decide) (by decide)
  exact hexact.2.2 (by decide)

/-- A path with parentheses in it is cut off. -/
theorem not_solverChoice?_parentheses :
    '\x22' ∉ "/opt/z3 (1)/bin/z3".toList ∧ '\x5c' ∉ "/opt/z3 (1)/bin/z3".toList ∧
      '\n' ∉ "/opt/z3 (1)/bin/z3".toList ∧ '\r' ∉ "/opt/z3 (1)/bin/z3".toList ∧
        solverChoice? (String.ofList (solverText .empty
          (stringText "/opt/z3 (1)/bin/z3".toList) .empty)) ≠ some "/opt/z3 (1)/bin/z3" := by
  refine ⟨by decide, by decide, by decide, by decide, ?_⟩
  have hplain : IsPlain "/opt/z3 (1)/bin/z3".toList := ⟨by decide, by decide, by decide⟩
  have hcut : solverChoice? (String.ofList (solverText .empty
      ([] ++ stringText "/opt/z3 (1)/bin/z3".toList) .empty)) = some (String.ofList (trimEnd
        ([] ++ '\x22' :: "/opt/z3 (1)/bin/z3".toList.takeWhile (· != ')')))) :=
    solverChoice?_cut (by decide) hplain (by decide) .empty .empty
  rw [List.nil_append] at hcut
  rw [hcut]
  decide

end ProofHarness.Attribute
