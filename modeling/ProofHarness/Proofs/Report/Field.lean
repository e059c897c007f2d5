import ProofHarness.Proofs.LastWrite
import ProofHarness.Proofs.Report.Paragraph
import ProofHarness.Proofs.Text.Marker

/-!
# Fields of a check

What the lines of a check say.  A line has a text, which is left of it without indentation and
dashes (`lineText_laidOut`), and the text may give a value to a field (`value?`).  A check is what
its header and the last line of each field make it (`check?_of_filledLines`); other lines have no
part in it.
-/

set_option autoImplicit false

namespace ProofHarness.Report

open Text

/-! ## The text of a line -/

/-- What is left of a line without the blanks around it, and without dashes and the blanks after
them. -/
def lineText (line : List Char) : List Char := trim ((trim line).dropWhile (· == '-'))

/-- A line with its indentation and dashes. -/
def laidOut (indent : List Char) (dashes : Nat) (text : List Char) : List Char :=
  indent ++ (List.replicate dashes '-' ++ text)

/-- Neither indentation nor the number of dashes matters to the text of a line; where there are no
dashes, the text must not begin with some after its blanks. -/
theorem lineText_laidOut {indent text : List Char} {dashes : Nat}
    (hindent : ∀ c ∈ indent, isBlank c = true) (htext : text.head? ≠ some '-')
    (hbare : dashes = 0 → (trimStart text).head? ≠ some '-') :
    lineText (laidOut indent dashes text) = trim text := by
  have hindented : trim (laidOut indent dashes text) =
      trim (List.replicate dashes '-' ++ text) := by
    rw [laidOut, trim, trimStart_blanks_append hindent, trim]
  rw [lineText, hindented]
  cases dashes with
  | zero =>
    have hfirst : (trim text).head? ≠ some '-' := head?_trimEnd_ne (hbare rfl)
    rw [List.replicate_zero, List.nil_append, dropWhile_beq_eq_self_iff.2 hfirst, trim_trim]
  | succ n =>
    have hsolid : IsSolid (List.replicate (n + 1) '-') :=
      ⟨by rw [List.head?_replicate]; rfl, by rw [List.getLast?_replicate]; rfl⟩
    have hdashes : trim (List.replicate (n + 1) '-' ++ text) =
        List.replicate (n + 1) '-' ++ trimEnd text :=
      trim_append_of_isSolid hsolid [] text
    rw [hdashes, List.dropWhile_append_of_pos (by simp [List.mem_replicate]),
      dropWhile_beq_eq_self_iff.2 (head?_trimEnd_ne htext), trim_trimEnd]

/-! ## The value of a field -/

/-- What stands before and after the first colon of a text, without the blanks around it. -/
def sides? (text : List Char) : Option (List Char × List Char) :=
  (splitOnce [':'] text).map fun sides => (trim sides.1, trim sides.2)

/-- A line is cut at its first colon. -/
theorem sides?_append_cons {a : List Char} (ha : ':' ∉ a) (b : List Char) :
    sides? (a ++ ':' :: b) = some (trim a, trim b) := by
  rw [sides?, splitOnce_append_cons ha, Option.map_some]

/-- A line without a colon has no sides. -/
theorem sides?_of_not_mem {text : List Char} (h : ':' ∉ text) : sides? text = none := by
  have hnone : contains [':'] text = false := contains_eq_false_of_not_mem List.mem_cons_self h
  rw [contains, Option.isSome_eq_false_iff, Option.isNone_iff_eq_none] at hnone
  rw [sides?, hnone, Option.map_none]

/-- Blanks around a text do not matter to the sides of its colon. -/
theorem sides?_trim (text : List Char) : sides? (trim text) = sides? text := by
  by_cases hcolon : ':' ∈ text
  · obtain ⟨a, b, rfl, ha⟩ := List.eq_append_cons_of_mem hcolon
    have htrim : trim (a ++ ':' :: b) = trimStart a ++ ':' :: trimEnd b :=
      trim_append_of_isSolid (p := [':']) (by decide) a b
    have hstart : ':' ∉ trimStart a := fun h => ha ((List.dropWhile_sublist _).subset h)
    rw [htrim, sides?_append_cons hstart, sides?_append_cons ha, trim_trimEnd, trim_trimStart]
  · obtain ⟨front, back, -, -, htext⟩ := exists_trim_append text
    have htrim : ':' ∉ trim text := by
      intro h
      rw [← htext] at hcolon
      exact hcolon (by simp [h])
    rw [sides?_of_not_mem hcolon, sides?_of_not_mem htrim]

/-- The value that a line gives to a field, if it names the field. -/
def value? (name line : List Char) : Option (List Char) :=
  ((sides? (lineText line)).filter fun sides => sides.1 == name).map Prod.snd

/-- Whether a line names a field. -/
def names (name line : List Char) : Bool := (value? name line).isSome

/-- The last line that names a field. -/
def lastLine? (name : List Char) (ls : List (List Char)) : Option (List Char) :=
  (ls.filter (names name)).getLast?

/-- The value in the last line that names a field. -/
def lastValue? (name : List Char) (ls : List (List Char)) : Option (List Char) :=
  (lastLine? name ls).bind (value? name)

/-- Lines with the same text have the same values. -/
theorem value?_congr {line line' : List Char} (h : lineText line = lineText line')
    (name : List Char) : value? name line = value? name line' := by
  rw [value?, value?, h]

/-- The last value of a name, looked up line by line. -/
theorem getLast?_filterMap_value? (name : List Char) (ls : List (List Char)) :
    (ls.filterMap (value? name)).getLast? = lastValue? name ls :=
  getLast?_filterMap_eq_bind (value? name) ls

/-- The last value is that of a line after which no line names the field. -/
theorem lastValue?_append_cons {name line v : List Char} (hline : value? name line = some v)
    (before : List (List Char)) {after : List (List Char)}
    (hafter : ∀ l ∈ after, value? name l = none) :
    lastValue? name (before ++ line :: after) = some v := by
  rw [← getLast?_filterMap_value?, List.filterMap_append, List.filterMap_cons_some hline,
    List.filterMap_eq_nil_iff.2 hafter, List.getLast?_concat]

/-- The names of the fields of a check. -/
def fieldNames : List (List Char) := ["Status", "Description", "Location"].map String.toList

/-- A name that can stand in front of a colon, after indentation and dashes. -/
structure IsName (name : List Char) : Prop where
  solid : IsSolid name
  noColon : ':' ∉ name
  noDash : name.head? ≠ some '-'

instance (name : List Char) : Decidable (IsName name) :=
  decidable_of_iff (IsSolid name ∧ ':' ∉ name ∧ name.head? ≠ some '-')
    ⟨fun h => ⟨h.1, h.2.1, h.2.2⟩, fun h => ⟨h.solid, h.noColon, h.noDash⟩⟩

/-- A line with a name in front of a colon gives a value to the field of that name only. -/
theorem value?_laidOut {indent gap name : List Char} (hindent : ∀ c ∈ indent, isBlank c = true)
    (hgap : ∀ c ∈ gap, isBlank c = true) (hname : IsName name) (dashes : Nat) (value : List Char)
    (field : List Char) :
    value? field (laidOut indent dashes (gap ++ (name ++ ':' :: value))) =
      if name = field then some (trim value) else none := by
  have hcolon : ':' ∉ gap ++ name := by
    rw [List.mem_append, not_or]
    exact ⟨not_mem_of_forall_isBlank hgap (by decide), hname.noColon⟩
  have hstart : (trimStart (gap ++ (name ++ ':' :: value))).head? ≠ some '-' := by
    obtain ⟨d, ds, rfl, hd⟩ := hname.solid.exists_eq_cons
    rw [trimStart_blanks_append hgap, List.cons_append, trimStart_cons_of_not_isBlank hd]
    exact hname.noDash
  have htext : (gap ++ (name ++ ':' :: value)).head? ≠ some '-' := by
    intro h
    obtain ⟨rest, hrest⟩ := List.head?_eq_some_iff.1 h
    rw [hrest, trimStart_cons_of_not_isBlank (by decide)] at hstart
    exact hstart rfl
  have htrim : trim (gap ++ name) = name := by
    have h := trim_append_of_isSolid hname.solid gap []
    rw [List.append_nil] at h
    rw [h, trimStart, List.dropWhile_eq_nil_iff.2 hgap]
    exact List.append_nil name
  rw [value?, lineText_laidOut hindent htext fun _ => hstart, sides?_trim, ← List.append_assoc,
    sides?_append_cons hcolon, htrim, Option.filter_some]
  by_cases h : name = field
  · rw [if_pos h, if_pos (beq_iff_eq.2 h), Option.map_some]
  · rw [if_neg h, if_neg (mt beq_iff_eq.1 h), Option.map_none]

/-- What a line does to the fields is what it says for each name. -/
theorem update_trim (fields : Fields) (line : List Char) : fields.update (trim line) =
    { status := ((value? "Status".toList line).map fun v =>
        some (Status.ofString (String.ofList v))).getD fields.status
      description := ((value? "Description".toList line).map (trimMatches '\x22')).getD
        fields.description
      location := (value? "Location".toList line).getD fields.location } := by
  have hupdate : fields.update (trim line) =
      (sides? ((trim line).dropWhile (· == '-'))).elim fields fun sides =>
        if sides.1 == "Status".toList then
          { fields with status := some (.ofString (String.ofList sides.2)) }
        else if sides.1 == "Description".toList then
          { fields with description := trimMatches '\x22' sides.2 }
        else if sides.1 == "Location".toList then { fields with location := sides.2 }
        else fields := by
    rw [Fields.update, sides?]
    cases splitOnce [':'] ((trim line).dropWhile (· == '-')) <;> rfl
  rw [hupdate, ← sides?_trim, ← lineText]
  simp only [value?]
  -- The three names are different, so that at most one of the three fields is written.
  cases sides? (lineText line) with
  | none => rfl
  | some sides =>
    obtain ⟨name, value⟩ := sides
    simp only [Option.filter_some, Option.elim_some]
    cases hstatus : name == "Status".toList with
    | true =>
      obtain rfl := beq_iff_eq.1 hstatus
      rfl
    | false =>
      cases hdescription : name == "Description".toList with
      | true =>
        obtain rfl := beq_iff_eq.1 hdescription
        rfl
      | false => cases name == "Location".toList <;> rfl

/-- Lines that are left empty change nothing. -/
theorem foldl_update_filled (fields : Fields) (ls : List (List Char)) :
    (ls.filter fun line => !line.isEmpty).foldl Fields.update fields =
      ls.foldl Fields.update fields := by
  rw [List.foldl_filter]
  congr 1
  funext fields line
  cases line <;> rfl

/-- Of the lines that name a field the last one counts. -/
theorem foldl_update_field {β : Type} (field : Fields → β) (name : List Char) (read : List Char → β)
    (hstep : ∀ fields line,
      field (fields.update (trim line)) = ((value? name line).map read).getD (field fields))
    (ls : List (List Char)) :
    field ((ls.map trim).foldl Fields.update .empty) =
      ((lastValue? name ls).map read).getD (field .empty) := by
  have hlast := foldl_last_write (fun fields => some (field fields))
    (fun fields line => fields.update (trim line)) (fun line => (value? name line).map read)
    (fun fields line => by rw [hstep]; cases value? name line <;> rfl) ls .empty
  rw [← List.map_filterMap, List.getLast?_map, getLast?_filterMap_value?, Option.or_some,
    Option.some.injEq] at hlast
  rw [List.foldl_map, hlast]

/-! ## The check -/

/-- The check that a header and the last line of each field make. -/
def checkOf? (header : List Char) (ls : List (List Char)) : Option Check :=
  (stripPrefix "Check ".toList (trim header)).map fun title =>
    let (number, property) := (splitOnce [':'] title).getD (title, [])
    { number := readSignedWord (trim number)
      property := String.ofList (trim property)
      status := ((lastValue? "Status".toList ls).map fun v =>
        Status.ofString (String.ofList v)).getD (.unknown "")
      description := String.ofList
        (((lastValue? "Description".toList ls).map (trimMatches '\x22')).getD [])
      location := String.ofList ((lastValue? "Location".toList ls).getD []) }

/-- What the filled lines of a paragraph are read as. -/
theorem check?_of_filledLines {paragraph header : List Char} {ls : List (List Char)}
    (h : filledLines paragraph = trim header :: (ls.map trim).filter fun line => !line.isEmpty) :
    check? paragraph = checkOf? header ls := by
  have hstatus := foldl_update_field Fields.status "Status".toList
    (fun v => some (Status.ofString (String.ofList v)))
    (fun fields line => by rw [update_trim]) ls
  have hdescription := foldl_update_field Fields.description "Description".toList
    (trimMatches '\x22') (fun fields line => by rw [update_trim]) ls
  have hlocation := foldl_update_field Fields.location "Location".toList id
    (fun fields line => by rw [update_trim, Option.map_id_apply]) ls
  rw [Option.map_id_apply] at hlocation
  rw [check?, h]
  simp only [foldl_update_filled, hstatus, hdescription, hlocation]
  rw [checkOf?]
  cases lastValue? "Status".toList ls <;> rfl

/-- The filled lines of lines of which the first one that is filled is a header. -/
theorem filledLines_join_dropReturn {blanks ls : List (List Char)} {header : List Char}
    (hnewline : ∀ l ∈ blanks ++ header :: ls, '\n' ∉ l) (hblanks : ∀ l ∈ blanks, trim l = [])
    (hheader : trim header ≠ []) :
    filledLines (join ['\n'] ((blanks ++ header :: ls).map dropReturn)) =
      trim header :: (ls.map trim).filter fun line => !line.isEmpty := by
  have htrim : ((blanks ++ header :: ls).map dropReturn).map trim =
      (blanks ++ header :: ls).map trim := by
    rw [List.map_map]
    exact List.map_congr_left fun l _ => trim_dropReturn l
  have hnone : (blanks.map trim).filter (fun line => !line.isEmpty) = [] := by
    rw [List.filter_eq_nil_iff, List.forall_mem_map]
    intro l hl
    rw [hblanks l hl]
    decide
  rw [filledLines_join (not_mem_map_dropReturn hnewline), htrim, List.map_append, List.map_cons,
    List.filter_append, hnone, List.nil_append, List.filter_cons_of_pos (by simpa using hheader)]

end ProofHarness.Report
