import ProofHarness.Proofs.Discovery.Sources
import ProofHarness.Proofs.Scan.Completeness

/-!
# What becomes of each source

A source file is scanned, or it cannot be read; it is passed over if it was read and has no harness,
since a scan has never anything else to report (`Accounted`).  What is reported of a file depends on
that file alone: of the ways to write its path the walk comes first to the same one, whatever other
files there are (`find?_sources_congr`).
-/

set_option autoImplicit false

namespace ProofHarness.Discovery

open Disk Syntax

variable {parse : String → Node} {disk disk' : Disk} {strategy : ModulePaths} {path : String}
  {roots : List String}
  {place : List Component}

/-! ## The result for one path -/

/-- The scan of the text of a file sets nothing apart. -/
theorem desyncs_ofFile (hparse : Faithful parse) (path text : String) (strategy : ModulePaths) :
    (Scan.ofFileWith parse path text strategy).desyncs = [] :=
  (keepsAll_ofTree (hparse text) strategy).desyncs

/-- A scan is reported if the file can be read and has a harness. -/
theorem scanOf?_scanFileWith_eq_some_iff (hparse : Faithful parse) {s : Scan} :
    scanOf? (scanFileWith parse disk strategy path) = some s ↔
      ∃ text, disk.read path = .ok text ∧ s = Scan.ofFileWith parse path text strategy ∧
        s.harnesses ≠ [] := by
  rw [scanFileWith]
  cases hread : disk.read path with
  | error e => simp [scanOf?]
  | ok text =>
    have hempty : (Scan.ofFileWith parse path text strategy).isEmpty =
        (Scan.ofFileWith parse path text strategy).harnesses.isEmpty := by
      rw [Scan.isEmpty, desyncs_ofFile hparse, List.isEmpty_nil, Bool.and_true]
    simp only [scanOf?, hempty, List.isEmpty_iff, Except.ok.injEq, exists_eq_left']
    split
    · next hnone =>
      constructor
      · intro h
        cases h
      · rintro ⟨rfl, hsome⟩
        exact absurd hnone hsome
    · next hsome =>
      rw [Option.some.injEq, eq_comm]
      exact ⟨fun h => ⟨h, h ▸ hsome⟩, And.left⟩

/-- A failure is reported if the file cannot be read. -/
theorem failureOf?_scanFileWith_eq_some_iff {f : ReadFailure} :
    failureOf? (scanFileWith parse disk strategy path) = some f ↔
      ∃ e, disk.read path = .error e ∧ f = ⟨path, e⟩ := by
  rw [scanFileWith]
  cases disk.read path with
  | error e => simp [failureOf?, eq_comm]
  | ok text => simp [failureOf?]

/-- The scans that are reported are those of the sources that can be read and have a harness. -/
theorem mem_scans_iff (hparse : Faithful parse) {s : Scan} :
    s ∈ (ofRootsWith parse disk roots strategy).scans ↔
    ∃ path ∈ sources disk roots, ∃ text, disk.read path = .ok text ∧
      s = Scan.ofFileWith parse path text strategy ∧ s.harnesses ≠ [] := by
  simp only [ofRootsWith, List.filterMap_map, List.mem_filterMap, Function.comp_apply,
    scanOf?_scanFileWith_eq_some_iff hparse]

/-- The failures that are reported are those of the sources that cannot be read. -/
theorem mem_failures_iff {f : ReadFailure} : f ∈ (ofRootsWith parse disk roots strategy).failures ↔
    ∃ path ∈ sources disk roots, ∃ e, disk.read path = .error e ∧ f = ⟨path, e⟩ := by
  simp only [ofRootsWith, List.filterMap_map, List.mem_filterMap, Function.comp_apply,
    failureOf?_scanFileWith_eq_some_iff]

/-- A path is in exactly one place of what discovery returns: it has a scan if its file can be read
and has a harness, it has a failure if its file cannot be read, and otherwise it is passed over. -/
structure Accounted (parse : String → Node) (disk : Disk) (strategy : ModulePaths) (d : Discovery)
    (path : String) : Prop
    where
  scanned : (∃ s ∈ d.scans, s.path = some path) ↔
    ∃ text, disk.read path = .ok text ∧ (Scan.ofFileWith parse path text strategy).harnesses ≠ []
  scan : ∀ s ∈ d.scans, s.path = some path →
    ∃ text, disk.read path = .ok text ∧ s = Scan.ofFileWith parse path text strategy
  failed : (∃ f ∈ d.failures, f.path = path) ↔ ∃ e, disk.read path = .error e
  failure : ∀ f ∈ d.failures, f.path = path → disk.read path = .error f.error
  passed : ((∀ s ∈ d.scans, s.path ≠ some path) ∧ ∀ f ∈ d.failures, f.path ≠ path) ↔
    ∃ text, disk.read path = .ok text ∧ (Scan.ofFileWith parse path text strategy).harnesses = []
  exclusive : ¬ ((∃ s ∈ d.scans, s.path = some path) ∧ ∃ f ∈ d.failures, f.path = path)

/-- A scan under a path is that of the file at the path. -/
theorem eq_of_mem_scans (hparse : Faithful parse) {s : Scan}
    (hs : s ∈ (ofRootsWith parse disk roots strategy).scans)
    (hpath : s.path = some path) :
    ∃ text, disk.read path = .ok text ∧ s = Scan.ofFileWith parse path text strategy ∧
      s.harnesses ≠ [] := by
  obtain ⟨p, -, text, hread, rfl, hsome⟩ := (mem_scans_iff hparse).1 hs
  obtain rfl := Option.some.inj hpath
  exact ⟨text, hread, rfl, hsome⟩

/-- A failure under a path is that of reading the file at the path. -/
theorem eq_of_mem_failures {f : ReadFailure}
    (hf : f ∈ (ofRootsWith parse disk roots strategy).failures)
    (hpath : f.path = path) : disk.read path = .error f.error := by
  obtain ⟨p, -, e, hread, rfl⟩ := mem_failures_iff.1 hf
  obtain rfl := hpath
  exact hread

/-- Each source is accounted for. -/
theorem accounted_of_mem_sources (hparse : Faithful parse) (hpath : path ∈ sources disk roots) :
    Accounted parse disk strategy (ofRootsWith parse disk roots strategy) path := by
  have hscanned : (∃ s ∈ (ofRootsWith parse disk roots strategy).scans, s.path = some path) ↔
      ∃ text, disk.read path = .ok text ∧
        (Scan.ofFileWith parse path text strategy).harnesses ≠ [] := by
    constructor
    · rintro ⟨s, hs, hown⟩
      obtain ⟨text, hread, rfl, hsome⟩ := eq_of_mem_scans hparse hs hown
      exact ⟨text, hread, hsome⟩
    · rintro ⟨text, hread, hsome⟩
      exact ⟨_, (mem_scans_iff hparse).2 ⟨path, hpath, text, hread, rfl, hsome⟩, rfl⟩
  have hfailed : (∃ f ∈ (ofRootsWith parse disk roots strategy).failures, f.path = path) ↔
      ∃ e, disk.read path = .error e := by
    constructor
    · rintro ⟨f, hf, hown⟩
      exact ⟨_, eq_of_mem_failures hf hown⟩
    · rintro ⟨e, hread⟩
      exact ⟨_, mem_failures_iff.2 ⟨path, hpath, e, hread, rfl⟩, rfl⟩
  refine ⟨hscanned, ?_, hfailed, fun f => eq_of_mem_failures, ?_, ?_⟩
  · intro s hs hown
    obtain ⟨text, hread, hscan, -⟩ := eq_of_mem_scans hparse hs hown
    exact ⟨text, hread, hscan⟩
  -- A file that is read has no failure; whether it has a scan is whether it has a harness.
  · have hnone : ((∀ s ∈ (ofRootsWith parse disk roots strategy).scans, s.path ≠ some path) ∧
        ∀ f ∈ (ofRootsWith parse disk roots strategy).failures, f.path ≠ path) ↔
        ¬ (∃ s ∈ (ofRootsWith parse disk roots strategy).scans, s.path = some path) ∧
          ¬ ∃ f ∈ (ofRootsWith parse disk roots strategy).failures, f.path = path := by
      simp only [not_exists, not_and, ne_eq]
    rw [hnone, hscanned, hfailed]
    cases disk.read path <;> simp
  · rw [hscanned, hfailed]
    rintro ⟨⟨text, hread, -⟩, e, hread'⟩
    rw [hread] at hread'
    cases hread'

/-! ## Results in the order of the paths -/

section

variable {α β γ : Type} {result? : α → Option β} {own : β → γ} {key : α → γ}
  (hown : ∀ a b, result? a = some b → own b = key a)

include hown

/-- The results carry the keys of what they are made of, in their order. -/
theorem map_filterMap_sublist (l : List α) :
    ((l.filterMap result?).map own).Sublist (l.map key) := by
  induction l with
  | nil => exact .slnil
  | cons a l ih =>
    rw [List.filterMap_cons, List.map_cons]
    split
    · exact ih.cons (key a)
    · next b hb =>
      rw [List.map_cons, hown a b hb]
      exact ih.cons_cons (key a)

/-- Choosing results by their keys is choosing what they are made of. -/
theorem filter_filterMap (accepts : γ → Bool) (l : List α) :
    (l.filterMap result?).filter (accepts ∘ own) =
      (l.filter (accepts ∘ key)).filterMap result? := by
  induction l with
  | nil => rfl
  | cons a l ih =>
    rw [List.filterMap_cons]
    split
    · next hnone =>
      rw [ih, List.filter_cons]
      split
      · rw [List.filterMap_cons_none hnone]
      · rfl
    · next b hb =>
      rw [List.filter_cons, List.filter_cons, Function.comp_apply, Function.comp_apply,
        hown a b hb, ih]
      split
      · rw [List.filterMap_cons_some hb]
      · rfl

end

/-- A scan is reported under the path of its file. -/
theorem path_of_scanOf? (parse : String → Node) (disk : Disk) (strategy : ModulePaths)
    (path : String) (s : Scan) (hs : (scanOf? ∘ scanFileWith parse disk strategy) path = some s) :
    s.path = some path := by
  rw [Function.comp_apply, scanFileWith] at hs
  cases hread : disk.read path with
  | error e =>
    rw [hread] at hs
    cases hs
  | ok text =>
    rw [hread] at hs
    simp only [scanOf?] at hs
    split at hs
    · cases hs
    · cases hs
      rfl

/-- A failure is reported under the path of its file. -/
theorem path_of_failureOf? (parse : String → Node) (disk : Disk) (strategy : ModulePaths)
    (path : String) (f : ReadFailure)
    (hf : (failureOf? ∘ scanFileWith parse disk strategy) path = some f) : f.path = id path := by
  obtain ⟨e, -, rfl⟩ := failureOf?_scanFileWith_eq_some_iff.1 hf
  rfl

/-- The scans come in the order of the paths. -/
theorem scans_eq_filterMap : (ofRootsWith parse disk roots strategy).scans =
    (sources disk roots).filterMap (scanOf? ∘ scanFileWith parse disk strategy) :=
  List.filterMap_map ..

/-- And so do the failures. -/
theorem failures_eq_filterMap : (ofRootsWith parse disk roots strategy).failures =
    (sources disk roots).filterMap (failureOf? ∘ scanFileWith parse disk strategy) :=
  List.filterMap_map ..

/-! ## One file among others -/

/-- The scans and failures of the paths that have given components. -/
def reportAt (d : Discovery) (place : List Component) : List Scan × List ReadFailure :=
  (d.scans.filter fun s => s.path.any (isAt place), d.failures.filter fun f => isAt place f.path)

/-- Two disks have the same file at a place, or none, whichever root it is reached from; they may
differ in every other file. -/
structure SameAt (disk disk' : Disk) (roots : List String) (place : List Component) : Prop where
  hasFile : ∀ root ∈ roots, ∀ names, placeBelow root names = place →
    (disk.HasFile root names ↔ disk'.HasFile root names)
  read : ∀ root ∈ roots, ∀ names, placeBelow root names = place →
    disk.read (names.foldl pathIn root) = disk'.read (names.foldl pathIn root)

/-- Below a root there is one way to write the path of a place. -/
theorem find?_sourcesBelow_eq_some_iff (hdisk : disk.WellNamed) {root p : String} :
    (sourcesBelow disk root).find? (isAt place) = some p ↔
      ∃ names, Finds disk root names ∧ placeBelow root names = place ∧
        p = names.foldl pathIn root := by
  have hfound : ∀ q, (sourcesBelow disk root).find? (isAt place) = some q →
      ∃ names, Finds disk root names ∧ placeBelow root names = place ∧
        q = names.foldl pathIn root := by
    intro q hq
    obtain ⟨names, hfinds, rfl⟩ :=
      (mem_sourcesBelow_iff_finds hdisk).1 (List.mem_of_find?_eq_some hq)
    have hplace := isAt_iff.1 (List.find?_some hq)
    rw [components_foldl_pathIn (hfinds.file.isEntryName hdisk)] at hplace
    exact ⟨names, hfinds, hplace, rfl⟩
  constructor
  · exact hfound p
  · rintro ⟨names, hfinds, hplace, rfl⟩
    have hmem : place ∈ (sourcesBelow disk root).map components :=
      (mem_map_components_sourcesBelow_iff hdisk).2 ⟨names, hfinds, hplace.symm⟩
    obtain ⟨q, hq⟩ := Option.isSome_iff_exists.1 (mem_map_components_iff.1 hmem)
    obtain ⟨names', -, hplace', rfl⟩ := hfound q hq
    rw [hq, placeBelow_inj.1 (hplace'.trans hplace.symm)]

/-- What is found depends on what is looked at only. -/
theorem findSome?_congr {α β : Type} {f g : α → Option β} {l : List α}
    (h : ∀ a ∈ l, f a = g a) : l.findSome? f = l.findSome? g := by
  induction l with
  | nil => rfl
  | cons a l ih =>
    obtain ⟨ha, hl⟩ := List.forall_mem_cons.1 h
    rw [List.findSome?_cons, List.findSome?_cons, ha, ih hl]

/-- The first path of a place is the first one below the first root that has one. -/
theorem find?_sources (disk : Disk) (roots : List String) (place : List Component) :
    (sources disk roots).find? (isAt place) =
      roots.findSome? fun root => (sourcesBelow disk root).find? (isAt place) := by
  rw [sources, find?_dropRepeated_mergeSort, List.find?_flatMap]

/-- The path that is listed for a place depends on the files at that place only. -/
theorem find?_sources_congr (hdisk : disk.WellNamed) (hdisk' : disk'.WellNamed)
    (hsame : SameAt disk disk' roots place) :
    (sources disk roots).find? (isAt place) = (sources disk' roots).find? (isAt place) := by
  rw [find?_sources, find?_sources]
  apply findSome?_congr
  intro root hroot
  apply Option.ext
  intro p
  rw [find?_sourcesBelow_eq_some_iff hdisk, find?_sourcesBelow_eq_some_iff hdisk']
  constructor
  · rintro ⟨names, hfinds, hplace, rfl⟩
    have hfile := (hsame.hasFile root hroot names hplace).1 hfinds.file
    exact ⟨names, ⟨hfile, hfinds.entered, hfinds.extension⟩, hplace, rfl⟩
  · rintro ⟨names, hfinds, hplace, rfl⟩
    have hfile := (hsame.hasFile root hroot names hplace).2 hfinds.file
    exact ⟨names, ⟨hfile, hfinds.entered, hfinds.extension⟩, hplace, rfl⟩

/-- The path that is listed for a place is read alike from both disks. -/
theorem scanFileWith_congr (hdisk : disk.WellNamed) (hsame : SameAt disk disk' roots place)
    (hpath : (sources disk roots).find? (isAt place) = some path) :
    scanFileWith parse disk strategy path = scanFileWith parse disk' strategy path := by
  rw [find?_sources] at hpath
  obtain ⟨root, hroot, hfind⟩ := List.exists_of_findSome?_eq_some hpath
  obtain ⟨names, -, hplace, rfl⟩ := (find?_sourcesBelow_eq_some_iff hdisk).1 hfind
  rw [scanFileWith, scanFileWith, hsame.read root hroot names hplace]

/-- Where keys are distinct, at most one element has a given key. -/
theorem filter_eq_toList_find? {α β : Type} [BEq β] [LawfulBEq β] {key : α → β} {l : List α}
    (hl : (l.map key).Nodup) (k : β) :
    l.filter (fun a => key a == k) = (l.find? fun a => key a == k).toList := by
  induction l with
  | nil => rfl
  | cons a l ih =>
    rw [List.map_cons, List.nodup_cons] at hl
    obtain ⟨ha, hl⟩ := hl
    rw [List.filter_cons, List.find?_cons]
    split
    · next hkey =>
      have hnone : l.filter (fun b => key b == k) = [] := by
        rw [List.filter_eq_nil_iff]
        intro b hb hsame
        rw [eq_of_beq hkey, ← eq_of_beq hsame] at ha
        exact ha (List.mem_map_of_mem hb)
      rw [hkey, hnone]
      rfl
    · next hkey =>
      rw [Bool.not_eq_true] at hkey
      rw [hkey, ih hl]

/-- Where keys are distinct, an element is the only one with its key. -/
theorem filter_eq_singleton {α β : Type} [BEq β] [LawfulBEq β] {key : α → β} {l : List α} {a : α}
    (hl : (l.map key).Nodup) (ha : a ∈ l) : l.filter (fun b => key b == key a) = [a] := by
  have hsome : (l.find? fun b => key b == key a).isSome = true :=
    List.find?_isSome.2 ⟨a, ha, beq_self_eq_true (key a)⟩
  obtain ⟨b, hb⟩ := Option.isSome_iff_exists.1 hsome
  have hsame : key b = key a := by simpa using List.find?_some hb
  have heq : b = a := List.inj_on_of_nodup_map hl (List.mem_of_find?_eq_some hb) ha hsame
  rw [filter_eq_toList_find? hl, hb, heq]
  rfl

/-- In a listing there is at most one path of a place. -/
theorem filter_isAt_eq_toList {paths : List String}
    (h : (paths.map components).Pairwise (· < ·)) (place : List Component) :
    paths.filter (isAt place) = (paths.find? (isAt place)).toList :=
  filter_eq_toList_find? (h.imp ne_of_lt) place

/-- What is reported at a place is what comes of the path that is listed for it. -/
theorem reportAt_ofRootsWith (disk : Disk) (roots : List String) (strategy : ModulePaths)
    (place : List Component) :
    reportAt (ofRootsWith parse disk roots strategy) place =
      (((sources disk roots).find? (isAt place)).toList.filterMap
          (scanOf? ∘ scanFileWith parse disk strategy),
        ((sources disk roots).find? (isAt place)).toList.filterMap
          (failureOf? ∘ scanFileWith parse disk strategy)) := by
  have hfilter : (sources disk roots).filter (isAt place) =
      ((sources disk roots).find? (isAt place)).toList :=
    filter_isAt_eq_toList (isListing_dropRepeated_mergeSort _).ascending place
  rw [reportAt, scans_eq_filterMap, failures_eq_filterMap, ← hfilter]
  congr 1
  · exact filter_filterMap (path_of_scanOf? parse disk strategy) (fun o => o.any (isAt place)) _
  · exact filter_filterMap (path_of_failureOf? parse disk strategy) (isAt place) _

/-- What is reported at a place depends on the files at that place only. -/
theorem reportAt_congr (hdisk : disk.WellNamed) (hdisk' : disk'.WellNamed)
    (hsame : SameAt disk disk' roots place) :
    reportAt (ofRootsWith parse disk roots strategy) place =
      reportAt (ofRootsWith parse disk' roots strategy) place := by
  rw [reportAt_ofRootsWith, reportAt_ofRootsWith, ← find?_sources_congr hdisk hdisk' hsame]
  cases hpath : (sources disk roots).find? (isAt place) with
  | none => rfl
  | some path =>
    have hscan : scanFileWith parse disk strategy path = scanFileWith parse disk' strategy path :=
      scanFileWith_congr hdisk hsame hpath
    simp only [Option.toList_some, List.filterMap_cons, List.filterMap_nil, Function.comp_apply,
      hscan]

/-- Each source is in one place of what discovery returns, scans and failures being in the order of
the paths; and whatever other files are added, removed or spoilt, what is reported of a file stays
the same. -/
theorem ofRoots_accounts (hparse : Faithful parse) (disk : Disk) (roots : List String)
    (strategy : ModulePaths) :
    ((ofRootsWith parse disk roots strategy).scans.map Scan.path).Sublist
        ((sources disk roots).map some) ∧
      ((ofRootsWith parse disk roots strategy).failures.map ReadFailure.path).Sublist
        (sources disk roots) ∧
      (∀ path ∈ sources disk roots,
        Accounted parse disk strategy (ofRootsWith parse disk roots strategy) path) ∧
      ∀ disk' place, disk.WellNamed → disk'.WellNamed → SameAt disk disk' roots place →
        reportAt (ofRootsWith parse disk roots strategy) place =
          reportAt (ofRootsWith parse disk' roots strategy) place := by
  refine ⟨?_, ?_, fun path => accounted_of_mem_sources hparse, fun disk' place => reportAt_congr⟩
  · rw [scans_eq_filterMap]
    exact map_filterMap_sublist (path_of_scanOf? parse disk strategy) _
  · rw [failures_eq_filterMap]
    have hsublist :=
      map_filterMap_sublist (path_of_failureOf? parse disk strategy) (sources disk roots)
    rwa [List.map_id] at hsublist

/-- A file with a harness among others of which one is spoilt, one removed and one added. -/
theorem ofRoots_accounts_changed_others :
    let harness : Entry := .file "#[kani::proof]\nfn f() \x7b\x7d\n".toUTF8
    let disk : Disk := ⟨[("", .directory [("a.rs", harness), ("b.rs", .file .empty),
      ("c.rs", .file ⟨#[0xff]⟩)])]⟩
    let disk' : Disk := ⟨[("", .directory [("0.rs", harness), ("a.rs", harness),
      ("b.rs", .file ⟨#[0xff]⟩)])]⟩
    let place := components "./a.rs"
    let d := ofRootsWith Node.ofSource disk ["."] .reverseIndex
    let d' := ofRootsWith Node.ofSource disk' ["."] .reverseIndex
    Faithful Node.ofSource ∧ disk.WellNamed ∧ disk'.WellNamed ∧ SameAt disk disk' ["."] place ∧
      sources disk ["."] = ["./a.rs", "./b.rs", "./c.rs"] ∧
      d.scans.map (fun s => (s.path, s.harnesses.map Harness.name)) = [(some "./a.rs", ["f"])] ∧
      d.failures = [⟨"./c.rs", .notUnicode⟩] ∧
      (∀ path ∈ ["./a.rs", "./b.rs", "./c.rs"],
        Accounted Node.ofSource disk .reverseIndex d path) ∧
      reportAt d place = reportAt d' place := by
  intro harness disk disk' place d d'
  have hdisk : disk.WellNamed := by decide
  have hdisk' : disk'.WellNamed := by decide
  have hnames : ∀ names, placeBelow "." names = place → names = ["a.rs"] :=
    fun names h => placeBelow_inj.1 (h.trans (by decide : place = placeBelow "." ["a.rs"]))
  have hsame : SameAt disk disk' ["."] place := by
    constructor
    · intro root hroot names hplace
      obtain rfl := List.mem_singleton.1 hroot
      obtain rfl := hnames names hplace
      have hfile : disk.HasFile "." ["a.rs"] :=
        ⟨_, _, rfl, .inside List.mem_cons_self (.here harness)⟩
      have hfile' : disk'.HasFile "." ["a.rs"] :=
        ⟨_, _, rfl, .inside (List.mem_cons_of_mem _ List.mem_cons_self) (.here harness)⟩
      exact iff_of_true hfile hfile'
    · intro root hroot names hplace
      obtain rfl := List.mem_singleton.1 hroot
      obtain rfl := hnames names hplace
      decide +kernel
  have hsources : sources disk ["."] = ["./a.rs", "./b.rs", "./c.rs"] := by
    have hwalk : ["."].flatMap (sourcesBelow disk) = ["./a.rs", "./b.rs", "./c.rs"] := by
      decide +kernel
    rw [sources, hwalk, List.mergeSort_of_pairwise (by decide)]
    decide
  have hscans : d.scans.map (fun s => (s.path, s.harnesses.map Harness.name)) =
      [(some "./a.rs", ["f"])] := by
    rw [scans_eq_filterMap, hsources]
    decide +kernel
  have hfailures : d.failures = [⟨"./c.rs", .notUnicode⟩] := by
    rw [failures_eq_filterMap, hsources]
    decide +kernel
  obtain ⟨-, -, haccounted, hreport⟩ := ofRoots_accounts faithful_ofSource disk ["."] .reverseIndex
  rw [hsources] at haccounted
  exact ⟨faithful_ofSource, hdisk, hdisk', hsame, hsources, hscans, hfailures, haccounted,
    hreport disk' place hdisk hdisk' hsame⟩

end ProofHarness.Discovery
