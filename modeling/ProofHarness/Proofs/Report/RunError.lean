import ProofHarness.Proofs.Text.Marker
import ProofHarness.Report.RunError

/-!
# Why a run failed

The answer for a failed run as a statement about its lines (`Explains`): a line that says that no
harness matched comes before all else, a name between backticks is read off it unchanged, and a
failed compilation is reported only where there is no such line.  The statement leaves one answer
open for each run, and it is the one that is given (`ofOutput?_eq_iff`).
-/

set_option autoImplicit false

namespace ProofHarness.RunError

open Text

variable {stdout stderr : String} {answer answer' : Option RunError}

/-! ## Lines with the marker -/

/-- The marker neither starts nor ends with a blank. -/
theorem isSolid_noHarnessMarker : IsSolid noHarnessMarker := by decide

/-- It does not overlap itself. -/
theorem unbordered_noHarnessMarker : Unbordered noHarnessMarker := by decide

/-- It is not empty. -/
theorem noHarnessMarker_ne_nil : noHarnessMarker ≠ [] := by decide

/-- No marker of a compilation starts or ends with a blank. -/
theorem isSolid_of_mem_compilationMarkers : ∀ m ∈ compilationMarkers, IsSolid m := by decide

/-- A line with the marker has a part before the first one and a part after it. -/
theorem exists_eq_append_of_contains {line : List Char}
    (h : contains noHarnessMarker line = true) :
    ∃ before rest, line = before ++ (noHarnessMarker ++ rest) ∧
      contains noHarnessMarker before = false := by
  obtain ⟨⟨before, rest⟩, hsides⟩ := Option.isSome_iff_exists.1 h
  refine ⟨before, rest, ?_, contains_eq_false_of_splitOnce noHarnessMarker_ne_nil hsides⟩
  rw [splitOnce_eq_some hsides, List.append_assoc]

/-- Blanks at the end of a line do not matter to the name in it. -/
theorem filterOf_trimEnd (rest : List Char) : filterOf (trimEnd rest) = filterOf rest := by
  obtain ⟨blanks, hblanks, hrest⟩ := exists_trimEnd_append rest
  have hdrop : trim ((trimEnd rest ++ blanks).dropWhile (· == ':')) =
      trim ((trimEnd rest).dropWhile (· == ':')) := by
    rw [List.dropWhile_append]
    split
    · next hnil =>
      have hleft : ∀ c ∈ blanks.dropWhile (· == ':'), isBlank c = true := fun c hc =>
        hblanks c ((List.dropWhile_sublist _).subset hc)
      rw [List.isEmpty_iff.1 hnil]
      exact trim_append_blanks hleft []
    · exact trim_append_blanks hblanks _
  rw [filterOf, ← hdrop, hrest, filterOf]

/-- The filter is what comes after the first marker. -/
theorem noHarness?_trim_append {before : List Char}
    (hbefore : contains noHarnessMarker before = false) (rest : List Char) :
    noHarness? (trim (before ++ (noHarnessMarker ++ rest))) =
      some (.noHarness (String.ofList (filterOf rest))) := by
  rw [noHarness?, splitOnce_trim_append isSolid_noHarnessMarker unbordered_noHarnessMarker hbefore,
    Option.map_some, filterOf_trimEnd]

/-- A line without the marker has no filter. -/
theorem noHarness?_trim_eq_none {line : List Char} (h : contains noHarnessMarker line = false) :
    noHarness? (trim line) = none := by
  rw [← contains_trim isSolid_noHarnessMarker, contains, Option.isSome_eq_false_iff,
    Option.isNone_iff_eq_none] at h
  rw [noHarness?, h, Option.map_none]

/-- What stands between backticks after the marker and a colon is the name, whatever is in it. -/
theorem filterOf_quoted {name : List Char} (hfirst : name.head? ≠ some '\x60')
    (hlast : name.getLast? ≠ some '\x60') :
    filterOf (": `".toList ++ (name ++ "`".toList)) = name := by
  have hquoted : trim (' ' :: '\x60' :: (name ++ ['\x60'])) = '\x60' :: (name ++ ['\x60']) := by
    rw [trim_cons_of_isBlank (by decide)]
    exact trim_cons_append_cons (by decide) (by decide) name []
  have hdrop : (": `".toList ++ (name ++ "`".toList)).dropWhile (· == ':') =
      ' ' :: '\x60' :: (name ++ ['\x60']) := rfl
  rw [filterOf, hdrop, hquoted, trimMatches_cons_append_singleton,
    trimMatches_eq_self_iff.2 ⟨hfirst, hlast⟩]

/-! ## The answer -/

/-- The lines of a run, those on standard error first. -/
def runLines (stdout stderr : String) : List (List Char) :=
  lines stderr.toList ++ lines stdout.toList

/-- The first line that has the marker. -/
def markedLine? (stdout stderr : String) : Option (List Char) :=
  (runLines stdout stderr).find? (contains noHarnessMarker)

/-- What an answer says about a run, in terms of its lines. -/
structure Explains (stdout stderr : String) (answer : Option RunError) : Prop where
  /-- No harness matched just if some line says so, whatever the other lines say. -/
  noHarness_iff : (∃ filter, answer = some (.noHarness filter)) ↔
    ∃ line ∈ runLines stdout stderr, contains noHarnessMarker line = true
  /-- The name is what the first such line has after the marker, without colons, blanks and
  backticks around it. -/
  filter : ∀ before rest, markedLine? stdout stderr = some (before ++ (noHarnessMarker ++ rest)) →
    contains noHarnessMarker before = false →
      answer = some (.noHarness (String.ofList (filterOf rest)))
  /-- A name between backticks is given back as it is. -/
  quoted : ∀ before name,
    markedLine? stdout stderr = some (before ++
      ("no harnesses matched the harness filter".toList ++
        (": `".toList ++ (name ++ "`".toList)))) →
    contains noHarnessMarker before = false →
    name.head? ≠ some '\x60' → name.getLast? ≠ some '\x60' →
      answer = some (.noHarness (String.ofList name))
  /-- Otherwise compilation failed just if some line says that, and the message is the first line
  that starts as an error, or empty. -/
  compilation_iff : ∀ message, answer = some (.compilation message) ↔
    (∀ line ∈ runLines stdout stderr, contains noHarnessMarker line = false) ∧
      (∃ line ∈ runLines stdout stderr, ∃ m ∈ compilationMarkers, contains m line = true) ∧
        message = String.ofList ((((runLines stdout stderr).map trim).find?
          fun line => "error".toList.isPrefixOf line).getD [])
  none_iff : answer = none ↔
    ∀ line ∈ runLines stdout stderr, contains noHarnessMarker line = false ∧
      ∀ m ∈ compilationMarkers, contains m line = false

/-- There is no marked line exactly if no line has the marker. -/
theorem markedLine?_eq_none_iff : markedLine? stdout stderr = none ↔
    ∀ line ∈ runLines stdout stderr, contains noHarnessMarker line = false := by
  rw [markedLine?, List.find?_eq_none]
  simp only [Bool.not_eq_true]

/-- A run has one answer. -/
theorem Explains.unique (h : Explains stdout stderr answer) (h' : Explains stdout stderr answer') :
    answer = answer' := by
  cases hline : markedLine? stdout stderr with
  | some line =>
    obtain ⟨before, rest, rfl, hbefore⟩ := exists_eq_append_of_contains (List.find?_some hline)
    rw [h.filter before rest hline hbefore, h'.filter before rest hline hbefore]
  | none =>
    have hunmarked := markedLine?_eq_none_iff.1 hline
    by_cases hfailed :
        ∃ line ∈ runLines stdout stderr, ∃ m ∈ compilationMarkers, contains m line = true
    · rw [(h.compilation_iff _).2 ⟨hunmarked, hfailed, rfl⟩,
        (h'.compilation_iff _).2 ⟨hunmarked, hfailed, rfl⟩]
    · have hnone : ∀ line ∈ runLines stdout stderr, contains noHarnessMarker line = false ∧
          ∀ m ∈ compilationMarkers, contains m line = false := by
        intro line hmem
        refine ⟨hunmarked line hmem, fun m hm => ?_⟩
        rw [Bool.eq_false_iff]
        exact fun hc => hfailed ⟨line, hmem, m, hm, hc⟩
      rw [h.none_iff.2 hnone, h'.none_iff.2 hnone]

/-- Blanks around a line do not matter to the markers of a compilation. -/
theorem isCompilation_trim_iff {line : List Char} :
    isCompilation (trim line) = true ↔ ∃ m ∈ compilationMarkers, contains m line = true := by
  rw [isCompilation, List.any_eq_true]
  constructor
  · rintro ⟨m, hm, hc⟩
    exact ⟨m, hm, by rwa [contains_trim (isSolid_of_mem_compilationMarkers m hm)] at hc⟩
  · rintro ⟨m, hm, hc⟩
    exact ⟨m, hm, by rwa [contains_trim (isSolid_of_mem_compilationMarkers m hm)]⟩

/-- The first line with the marker decides, if there is one. -/
theorem findSome?_noHarness? (ls : List (List Char)) :
    (ls.map trim).findSome? noHarness? =
      (ls.find? (contains noHarnessMarker)).bind fun line => noHarness? (trim line) := by
  induction ls with
  | nil => rfl
  | cons l ls ih =>
    rw [List.map_cons, List.findSome?_cons, List.find?_cons]
    cases h : contains noHarnessMarker l with
    | false => rw [noHarness?_trim_eq_none h, ih]
    | true =>
      obtain ⟨before, rest, rfl, hbefore⟩ := exists_eq_append_of_contains h
      rw [Option.bind_some, noHarness?_trim_append hbefore]

/-- A marked line decides before any compilation. -/
theorem ofOutput?_of_marked {before : List Char} (hbefore : contains noHarnessMarker before = false)
    {rest : List Char}
    (hline : markedLine? stdout stderr = some (before ++ (noHarnessMarker ++ rest))) :
    ofOutput? stdout stderr = some (.noHarness (String.ofList (filterOf rest))) := by
  have hlines : outputLines stdout stderr = (runLines stdout stderr).map trim := rfl
  rw [markedLine?] at hline
  rw [ofOutput?, hlines, findSome?_noHarness?, hline, Option.bind_some,
    noHarness?_trim_append hbefore, Option.some_or]

/-- Without a marked line the compilation decides. -/
theorem ofOutput?_of_unmarked (hline : markedLine? stdout stderr = none) :
    ofOutput? stdout stderr =
      if ((runLines stdout stderr).map trim).any isCompilation then
        some (.compilation (String.ofList (compilationMessage ((runLines stdout stderr).map trim))))
      else none := by
  have hlines : outputLines stdout stderr = (runLines stdout stderr).map trim := rfl
  rw [markedLine?] at hline
  rw [ofOutput?, hlines, findSome?_noHarness?, hline, Option.bind_none, Option.none_or]

/-- A compilation is reported exactly if some line has one of its markers. -/
theorem any_isCompilation_iff :
    ((runLines stdout stderr).map trim).any isCompilation = true ↔
      ∃ line ∈ runLines stdout stderr, ∃ m ∈ compilationMarkers, contains m line = true := by
  rw [List.any_map, List.any_eq_true]
  exact exists_congr fun line => and_congr_right fun _ => isCompilation_trim_iff

/-- A run with a line that has the marker. -/
theorem explains_of_marked {line : List Char} (hline : markedLine? stdout stderr = some line) :
    Explains stdout stderr (ofOutput? stdout stderr) := by
  have hmem := List.mem_of_find?_eq_some hline
  have hmarked : contains noHarnessMarker line = true := List.find?_some hline
  obtain ⟨before, rest, rfl, hbefore⟩ := exists_eq_append_of_contains hmarked
  have hanswer := ofOutput?_of_marked hbefore hline
  constructor
  case noHarness_iff => exact ⟨fun _ => ⟨_, hmem, hmarked⟩, fun _ => ⟨_, hanswer⟩⟩
  case filter => exact fun before' rest' hline' hbefore' => ofOutput?_of_marked hbefore' hline'
  case quoted =>
    intro before' name hline' hbefore' hfirst hlast
    rw [ofOutput?_of_marked hbefore' hline', filterOf_quoted hfirst hlast]
  case compilation_iff =>
    intro message
    rw [hanswer]
    constructor
    · rintro ⟨⟩
    · rintro ⟨hunmarked, -⟩
      rw [hunmarked _ hmem] at hmarked
      cases hmarked
  case none_iff =>
    rw [hanswer]
    constructor
    · rintro ⟨⟩
    · intro hnone
      rw [(hnone _ hmem).1] at hmarked
      cases hmarked

/-- A run without such a line. -/
theorem explains_of_unmarked (hline : markedLine? stdout stderr = none) :
    Explains stdout stderr (ofOutput? stdout stderr) := by
  have hunmarked := markedLine?_eq_none_iff.1 hline
  have hanswer := ofOutput?_of_unmarked hline
  have hfailed := @any_isCompilation_iff stdout stderr
  have hno : ¬ ∃ line ∈ runLines stdout stderr, contains noHarnessMarker line = true := by
    rintro ⟨line, hmem, hmarked⟩
    rw [hunmarked line hmem] at hmarked
    cases hmarked
  -- What is left is whether some line tells of an error, and which message comes first.
  constructor
  case noHarness_iff =>
    refine iff_of_false ?_ hno
    rintro ⟨filter, hfilter⟩
    rw [hanswer] at hfilter
    split at hfilter <;> cases hfilter
  case filter =>
    intro before rest hmarked
    rw [hline] at hmarked
    cases hmarked
  case quoted =>
    intro before name hmarked
    rw [hline] at hmarked
    cases hmarked
  case compilation_iff =>
    intro message
    rw [hanswer, ← hfailed]
    split
    · next hany =>
      rw [Option.some.injEq, RunError.compilation.injEq, eq_comm]
      exact ⟨fun heq => ⟨hunmarked, hany, heq⟩, fun h => h.2.2⟩
    · next hany => exact iff_of_false (by simp) fun h => hany h.2.1
  case none_iff =>
    rw [hanswer]
    split
    · next hany =>
      refine iff_of_false (by simp) fun hnone => ?_
      obtain ⟨line, hmem, m, hm, hc⟩ := hfailed.1 hany
      rw [(hnone line hmem).2 m hm] at hc
      cases hc
    · next hany =>
      refine iff_of_true rfl fun line hmem => ⟨hunmarked line hmem, fun m hm => ?_⟩
      rw [Bool.eq_false_iff]
      exact fun hc => hany (hfailed.2 ⟨line, hmem, m, hm, hc⟩)

/-- The answer for a run is the one that its lines call for. -/
theorem ofOutput?_eq_iff (stdout stderr : String) (answer : Option RunError) :
    ofOutput? stdout stderr = answer ↔ Explains stdout stderr answer := by
  have hexplains : Explains stdout stderr (ofOutput? stdout stderr) := by
    cases hline : markedLine? stdout stderr with
    | some line => exact explains_of_marked hline
    | none => exact explains_of_unmarked hline
  constructor
  · rintro rfl
    exact hexplains
  · exact hexplains.unique

/-- The name has colons and quotes in it, and compilation failed as well. -/
example : ofOutput? "note: could not compile\n"
    "error: x\r\n ! no harnesses matched the harness filter: ` 'a`::b: `\r\n" =
      some (.noHarness " 'a`::b: ") := by
  decide +kernel

end ProofHarness.RunError
