import ProofHarness.Proofs.Harness.Normalization
import ProofHarness.Proofs.Report.LineEnd
import ProofHarness.Proofs.Text.Lines

/-!
# Harnesses are addressed by lines

A harness is looked up in a text by the number of its line, which may be past the end of the text.
How the lines end does not matter, and lines put in front of a text move what is found by their
number (`normalize_addresses_lines`).
-/

set_option autoImplicit false

namespace ProofHarness

/-! ## Line ends -/

namespace Text

/-- A chosen line gets a carriage return before its line feed. -/
theorem returnsBefore_append_newline (chosen : Nat → Bool) {l : List Char} (hl : '\n' ∉ l)
    (s : List Char) :
    Report.returnsBefore chosen (l ++ '\n' :: s) =
      (l ++ if chosen 0 then ['\r'] else []) ++
        '\n' :: Report.returnsBefore (fun n => chosen (n + 1)) s := by
  induction l with
  | nil =>
    rw [List.nil_append, List.nil_append, Report.returnsBefore, if_pos (by decide)]
    split <;> rfl
  | cons c l ih =>
    obtain ⟨hc, hl⟩ := List.ne_and_not_mem_of_not_mem_cons hl
    rw [List.cons_append, Report.returnsBefore, if_neg (by simpa using hc.symm), ih hl,
      List.cons_append, List.cons_append]

/-- The last line gets none. -/
theorem returnsBefore_of_not_mem (chosen : Nat → Bool) {l : List Char} (hl : '\n' ∉ l) :
    Report.returnsBefore chosen l = l := by
  induction l with
  | nil => rfl
  | cons c l ih =>
    obtain ⟨hc, hl⟩ := List.ne_and_not_mem_of_not_mem_cons hl
    rw [Report.returnsBefore, if_neg (by simpa using hc.symm), ih hl]

/-- A carriage return at the end of a line is not seen when the line is trimmed. -/
theorem map_trim_lines_returnsBefore (chosen : Nat → Bool) (s : List Char) :
    (lines (Report.returnsBefore chosen s)).map trim = (lines s).map trim := by
  induction s using lineInduction generalizing chosen with
  | last l hl => rw [returnsBefore_of_not_mem chosen hl]
  | line l s hl ih =>
    have hblank : ∀ c ∈ (if chosen 0 then ['\r'] else []), isBlank c = true ∧ c ≠ '\n' := by
      split <;> simp [isBlank_return]
    have hfree : '\n' ∉ l ++ if chosen 0 then ['\r'] else [] := by
      rw [List.mem_append]
      rintro (h | h)
      · exact hl h
      · exact (hblank _ h).2 rfl
    rw [returnsBefore_append_newline chosen hl, lines_append_newline hfree, lines_append_newline hl,
      List.map_cons, List.map_cons, ih, trim_dropReturn, trim_dropReturn,
      trim_append_blanks fun c hc => (hblank c hc).1]

/-- Carriage returns at the ends of lines do not matter to the rows. -/
theorem trimmedLines_withReturns (chosen : Nat → Bool) (text : String) :
    trimmedLines (Report.withReturns chosen text) = trimmedLines text := by
  have hmap : ∀ s : List Char, (lines s).map (fun line => String.ofList (trim line)) =
      ((lines s).map trim).map String.ofList := by
    intro s
    rw [List.map_map]
    rfl
  rw [trimmedLines, trimmedLines, Report.withReturns, String.toList_ofList, hmap, hmap,
    map_trim_lines_returnsBefore]

/-- Whole lines in front are rows in front. -/
theorem trimmedLines_append {before : String} (h : WholeLines before.toList) (text : String) :
    trimmedLines (before ++ text) = trimmedLines before ++ trimmedLines text := by
  rw [trimmedLines, trimmedLines, trimmedLines, String.toList_append, lines_append_of_wholeLines h,
    List.map_append, ← List.append_toArray]

/-- Whole lines make as many rows as they have line feeds. -/
theorem size_trimmedLines {before : String} (h : WholeLines before.toList) :
    (trimmedLines before).size = before.toList.count '\n' := by
  rw [trimmedLines, List.size_toArray, List.length_map, length_lines_of_wholeLines h]

end Text

/-! ## Lines in front -/

/-- The record of a harness that stands some lines further down. -/
def Harness.movedDown (k : Nat) (h : Harness) : Harness :=
  { h with stop := { h.stop with row := h.stop.row + k } }

/-- The same difference some lines further down. -/
def Desync.movedDown (k : Nat) (d : Desync) : Desync := { d with row := d.row + k }

/-- Each harness and each difference some lines further down. -/
def Normalized.movedDown (k : Nat) (n : Normalized) : Normalized :=
  ⟨n.harnesses.map (Harness.movedDown k), n.desyncs.map (Desync.movedDown k)⟩

namespace Harness

variable {before rows : Array String} {k : Nat}

/-- A harness that is moved with its row finds the same line. -/
theorem foundLine_movedDown (hk : before.size = k) (h : Harness) :
    (h.movedDown k).foundLine (before ++ rows) = h.foundLine rows := by
  have hrow : (h.movedDown k).stop.row = h.stop.row + k := rfl
  rw [foundLine, foundLine, hrow, Array.getElem?_append_right (by omega), hk, Nat.add_sub_cancel]

/-- So it fits as before. -/
theorem fits_movedDown (hk : before.size = k) (h : Harness) :
    (h.movedDown k).fits (before ++ rows) = h.fits rows := by
  rw [fits, fits, foundLine_movedDown hk]
  rfl

/-- So its difference is the one from before, moved. -/
theorem desync?_movedDown (hk : before.size = k) (h : Harness) :
    (h.movedDown k).desync? (before ++ rows) = (h.desync? rows).map (Desync.movedDown k) := by
  rw [desync?, desync?, fits_movedDown hk, toDesync, toDesync, foundLine_movedDown hk]
  cases h.fits rows <;> rfl

/-- Of moved harnesses those fit that did before. -/
theorem filter_fits_movedDown (hk : before.size = k) (hs : List Harness) :
    (hs.map (movedDown k)).filter (fits (before ++ rows)) =
      (hs.filter (fits rows)).map (movedDown k) := by
  rw [List.filter_map]
  exact congrArg _ (List.filter_congr fun h _ => fits_movedDown hk h)

/-- Their differences are those from before, moved. -/
theorem filterMap_desync?_movedDown (hk : before.size = k) (hs : List Harness) :
    (hs.map (movedDown k)).filterMap (desync? (before ++ rows)) =
      (hs.filterMap (desync? rows)).map (Desync.movedDown k) := by
  rw [List.filterMap_map, List.map_filterMap]
  exact List.filterMap_congr fun h _ => desync?_movedDown hk h

/-- The order among harnesses is that of their rows, and stays the same when all move. -/
theorem map_movedDown_mergeSort (k : Nat) (hs : List Harness) :
    (hs.map (movedDown k)).mergeSort rowLe = (hs.mergeSort rowLe).map (movedDown k) := by
  refine (List.map_mergeSort fun h _ h' _ => ?_).symm
  rw [Bool.eq_iff_iff, rowLe_iff, rowLe_iff]
  exact (Nat.add_le_add_iff_right (n := k)).symm

end Harness

/-- Lines in front move the whole normal form. -/
theorem normalize_movedDown {before : String} (h : Text.WholeLines before.toList) (text : String)
    (hs : List Harness) :
    normalize (before ++ text) (hs.map (Harness.movedDown (before.toList.count '\n'))) =
      (normalize text hs).movedDown (before.toList.count '\n') := by
  have hk := Text.size_trimmedLines h
  generalize before.toList.count '\n' = k at hk ⊢
  have hready : ((hs.map (Harness.movedDown k)).mergeSort Harness.rowLe).map
        Harness.withArguments =
      ((hs.mergeSort Harness.rowLe).map Harness.withArguments).map (Harness.movedDown k) := by
    rw [Harness.map_movedDown_mergeSort, List.map_map, List.map_map]
    rfl
  rw [normalize, normalize, Normalized.movedDown, Text.trimmedLines_append h]
  dsimp only
  rw [hready, Harness.filter_fits_movedDown hk, Harness.filterMap_desync?_movedDown hk]

/-- Carriage returns before any of the line feeds of a text change nothing that is found.  Whole
lines in front of the text change nothing either if the records are moved down by their number, but
that what is returned is moved down with them. -/
theorem normalize_addresses_lines (text : String) (hs : List Harness) :
    (∀ chosen : Nat → Bool, normalize (Report.withReturns chosen text) hs = normalize text hs) ∧
      ∀ before : String, Text.WholeLines before.toList →
        normalize (before ++ text) (hs.map (Harness.movedDown (before.toList.count '\n'))) =
          (normalize text hs).movedDown (before.toList.count '\n') := by
  refine ⟨fun chosen => ?_, fun before h => normalize_movedDown h text hs⟩
  rw [normalize, normalize, Text.trimmedLines_withReturns]

/-- One harness whose row is past the end of the text, and one whose row is not. -/
theorem normalize_addresses_lines_past_end :
    let checks : Harness :=
      ⟨"checks", "fn checks() \x7b", ⟨1, 9⟩, [], ⟨true, false, false⟩, .empty, none⟩
    let gone : Harness := ⟨"gone", "fn gone() \x7b", ⟨7, 7⟩, [], ⟨true, false, false⟩, .empty, none⟩
    Text.WholeLines "// one\n\n".toList ∧
      normalize "#[kani::proof]\nfn checks() \x7b\n" [checks, gone] =
        ⟨[checks], [⟨"gone", 7, "fn gone() \x7b", ""⟩]⟩ ∧
      normalize "// one\n\n#[kani::proof]\nfn checks() \x7b\n"
          [checks.movedDown 2, gone.movedDown 2] =
        ⟨[checks.movedDown 2], [⟨"gone", 9, "fn gone() \x7b", ""⟩]⟩ := by
  intro checks gone
  have hwhole : Text.WholeLines "// one\n\n".toList := by
    intro c hc
    rw [show "// one\n\n".toList.getLast? = some '\n' by decide] at hc
    exact (Option.some.inj hc).symm
  have hfound : normalize "#[kani::proof]\nfn checks() \x7b\n" [checks, gone] =
      ⟨[checks], [⟨"gone", 7, "fn gone() \x7b", ""⟩]⟩ := by
    rw [normalize, List.mergeSort_of_pairwise (by decide)]
    decide +kernel
  refine ⟨hwhole, hfound, ?_⟩
  have hmoved := (normalize_addresses_lines "#[kani::proof]\nfn checks() \x7b\n" [checks, gone]).2
    "// one\n\n" hwhole
  rw [hfound] at hmoved
  exact hmoved

end ProofHarness
