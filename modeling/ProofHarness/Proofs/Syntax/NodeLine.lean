import ProofHarness.Proofs.Syntax.NodePlace
import ProofHarness.Proofs.Text.LineAround

/-!
# The lines on which nodes start

A boundary between two characters of a text, its start and its end included, stands on the line that
reaches over it.  Where the text is cut into lines, this is the line with the number of line feeds
before the boundary, or nothing if there is no such line: at the end of a text whose last line has a
line feed, and in the empty text.  The nodes of a tree record the lines of the boundaries at which
they start (`startLines_exact`).
-/

set_option autoImplicit false

namespace ProofHarness

/-! ## Boundaries -/

namespace Text

variable {text : String}

section Boundary

variable (b : text.Pos)

/-- What stands before a boundary of a text. -/
def textBefore : List Char := (text.sliceTo b).copy.toList

/-- What stands after a boundary of a text. -/
def textAfter : List Char := (text.sliceFrom b).copy.toList

/-- The place of a boundary in rows and columns. -/
def placeAt : Position := .after (textBefore b).reverse

/-- The line around a boundary. -/
def lineAt : String := String.ofList (lineAround (textBefore b).reverse (textAfter b))

/-- The line on which a boundary stands: it reaches over the boundary, and without the blanks around
it it is the line whose number is the number of line feeds before the boundary. -/
structure IsLineAt (line : String) : Prop where
  around : IsLineOf (textBefore b) (textAfter b) line.toList
  numbered : trimmed line = lineNumbered text ((textBefore b).count '\n')

end Boundary

/-- A place cuts the text in two. -/
theorem textBefore_append_textAfter (b : text.Pos) : text.toList = textBefore b ++ textAfter b := by
  rw [textBefore, textAfter, ← String.toList_append, String.sliceTo_append_sliceFrom]

/-- There is a place wherever a text can be cut. -/
theorem exists_boundary {before after : List Char} (h : text.toList = before ++ after) :
    ∃ b : text.Pos, textBefore b = before ∧ textAfter b = after := by
  have htext : text = String.ofList before ++ String.ofList after := by
    rw [← String.ofList_append, ← h, String.ofList_toList]
  have hsplits := String.Pos.splits_ofEqAppend htext
  refine ⟨String.Pos.ofEqAppend htext, ?_, ?_⟩
  · rw [textBefore, hsplits.copy_sliceTo_eq, String.toList_ofList]
  · rw [textAfter, hsplits.copy_sliceFrom_eq, String.toList_ofList]

/-- The line at a place is the one with the number of its row. -/
theorem trimmed_lineAt (b : text.Pos) :
    trimmed (lineAt b) = lineNumbered text ((textBefore b).count '\n') := by
  have htext : text.toList = (textBefore b).reverse.reverse ++ textAfter b := by
    rw [List.reverse_reverse, ← textBefore_append_textAfter]
  rw [lineAt, trimmed_lineAround htext, List.count_reverse]

/-- A boundary stands on the line around it and on no other. -/
theorem isLineAt_iff {b : text.Pos} {line : String} : IsLineAt b line ↔ line = lineAt b := by
  constructor
  · intro h
    rw [lineAt, ← isLineOf_iff.1 h.around, String.ofList_toList]
  · rintro rfl
    refine ⟨?_, trimmed_lineAt b⟩
    rw [lineAt, String.toList_ofList]
    exact isLineOf_lineAround (textBefore b) (textAfter b)

end Text

namespace Syntax

open Text

/-! ## Nodes -/

/-- Each boundary of a text stands on exactly one line, which is the line around it.  The stretches
that the tree of the text keeps start at boundaries and have the lines on which these stand. -/
theorem startLines_exact (text : String) :
    (∀ (b : text.Pos) (line : String), IsLineAt b line ↔ line = lineAt b) ∧
      ∀ n ∈ (Node.ofSource text).preorder, ∀ g ∈ n.stretches,
        ∃ b : text.Pos, g.text.toList <+: textAfter b ∧ g.start = placeAt b ∧
          IsLineAt b g.line := by
  refine ⟨fun b line => isLineAt_iff, fun n hn g hg => ?_⟩
  obtain ⟨before, after, hsource, htext, hstart, hline⟩ := stretchesStartIn_ofSource text n hn g hg
  obtain ⟨b, hbefore, hafter⟩ := exists_boundary hsource
  have hreverse : (textBefore b).reverse = before := by
    rw [hbefore, List.reverse_reverse]
  refine ⟨b, ?_, ?_, ?_⟩
  · rwa [hafter]
  · rw [placeAt, hreverse, hstart]
  · rw [isLineAt_iff, lineAt, hreverse, hafter, hline]

/-- The name of a function in a module, on a line that a carriage return and a line feed end. -/
theorem startLines_exact_name :
    let text := "mod é \x7b\r\n  #[kani::proof] fn ü() \x7b\x7d\r\n\x7d"
    ∃ n ∈ (Node.ofSource text).preorder, ∃ g ∈ n.stretches, ∃ b : text.Pos,
      "ü".toList <+: textAfter b ∧ placeAt b = ⟨1, 20⟩ ∧
        IsLineAt b "  #[kani::proof] fn ü() \x7b\x7d" := by
  intro text
  have hname : ∃ n ∈ (Node.ofSource text).preorder, ∃ g ∈ n.stretches, g.text = "ü" ∧
      g.start = ⟨1, 20⟩ ∧ g.line = "  #[kani::proof] fn ü() \x7b\x7d" := by
    decide +kernel
  obtain ⟨n, hn, g, hg, htext, hstart, hline⟩ := hname
  obtain ⟨b, hafter, hplace, hat⟩ := (startLines_exact text).2 n hn g hg
  rw [htext] at hafter
  rw [hline] at hat
  exact ⟨n, hn, g, hg, b, hafter, hplace.symm.trans hstart, hat⟩

end Syntax

end ProofHarness
