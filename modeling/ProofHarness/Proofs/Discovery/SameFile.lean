import ProofHarness.Proofs.Disk.Location
import ProofHarness.Proofs.Discovery.Accounting

/-!
# How often a file is listed

Paths are compared as they are written, but a file may be reached from two roots by paths that are
written in different ways.  The listed paths denote different files exactly if that does not happen:
if a root that leads to a place in another one is written as this one and names after it
(`sources_nodup_iff`).  Roots that begin alike and never go up are always written so.
-/

set_option autoImplicit false

namespace ProofHarness.Discovery

open Disk Syntax

variable {disk : Disk} {strategy : ModulePaths} {whole : Entry} {here roots : List String}
  {p q text : String}

/-- A root that leads to a place in another one is written as that one and names after it, at least
if there is a source that is found from both. -/
def SpelledAlike (disk : Disk) (here roots : List String) : Prop :=
  ∀ root ∈ roots, ∀ root' ∈ roots, ∀ inside names,
    location here root' = location here root ++ inside →
      Finds disk root (inside ++ names) → Finds disk root' names →
        components root' = placeBelow root inside

/-- The harnesses that are reported for a file, in whatever way its path is written. -/
def reportedFor (here : List String) (d : Discovery) (file : List String) : List Harness :=
  (d.scans.filter fun s => s.path.any fun p => location here p == file).flatMap Scan.harnesses

/-! ## Sources and the places where they are -/

/-- A listed path belongs to a file below one of the roots. -/
theorem exists_of_mem_sources (hdisk : disk.WellNamed) (here : List String)
    (hp : p ∈ sources disk roots) :
    ∃ root ∈ roots, ∃ names, Finds disk root names ∧ components p = placeBelow root names ∧
      location here p = location here root ++ names := by
  obtain ⟨root, hroot, names, hfinds, hplace⟩ :=
    ((isListing_sources hdisk roots).mem_iff _).1 (List.mem_map_of_mem hp)
  refine ⟨root, hroot, names, hfinds, hplace, ?_⟩
  rw [location, hplace, locate_placeBelow]

/-- What is found from a root is listed. -/
theorem exists_mem_sources (hdisk : disk.WellNamed) (here : List String) {root : String}
    (hroot : root ∈ roots) {names : List String} (hfinds : Finds disk root names) :
    ∃ p ∈ sources disk roots, components p = placeBelow root names ∧
      location here p = location here root ++ names := by
  obtain ⟨p, hp, hplace⟩ := List.mem_map.1
    (((isListing_sources hdisk roots).mem_iff _).2 ⟨root, hroot, names, hfinds, rfl⟩)
  refine ⟨p, hp, hplace, ?_⟩
  rw [location, hplace, locate_placeBelow]

/-- Each listed path denotes a file of the whole tree. -/
theorem exists_leads_of_mem_sources (hdisk : disk.WellNamed) (hwhole : disk.LiesIn whole here)
    (hp : p ∈ sources disk roots) : ∃ bytes, whole.Leads (location here p) (.file bytes) := by
  obtain ⟨root, -, names, hfinds, -, hlocation⟩ := exists_of_mem_sources hdisk here hp
  rw [hlocation]
  exact hfinds.file.leads hwhole

/-- Where roots are spelled alike, two paths of one file are written alike. -/
theorem components_eq_of_location_eq (hdisk : disk.WellNamed)
    (hspelled : SpelledAlike disk here roots) (hp : p ∈ sources disk roots)
    (hq : q ∈ sources disk roots) (hsame : location here p = location here q) :
    components p = components q := by
  obtain ⟨root, hroot, names, hfinds, hplace, hlocation⟩ := exists_of_mem_sources hdisk here hp
  obtain ⟨root', hroot', names', hfinds', hplace', hlocation'⟩ :=
    exists_of_mem_sources hdisk here hq
  rw [hlocation, hlocation', List.append_eq_append_iff] at hsame
  rw [hplace, hplace']
  -- One of the roots leads to a place in the other one.
  rcases hsame with ⟨inside, hinside, rfl⟩ | ⟨inside, hinside, rfl⟩
  · have hroots := hspelled root hroot root' hroot' inside names' hinside hfinds hfinds'
    rw [placeBelow_append, ← hroots]
    rfl
  · have hroots := hspelled root' hroot' root hroot inside names hinside hfinds' hfinds
    rw [placeBelow_append, ← hroots]
    rfl

/-- No file is listed twice exactly if the roots are spelled alike. -/
theorem nodup_map_location_iff (hdisk : disk.WellNamed) :
    ((sources disk roots).map (location here)).Nodup ↔ SpelledAlike disk here roots := by
  constructor
  · intro hnodup root hroot root' hroot' inside names hinside hfinds hfinds'
    obtain ⟨p, hp, hplace, hlocation⟩ := exists_mem_sources hdisk here hroot hfinds
    obtain ⟨q, hq, hplace', hlocation'⟩ := exists_mem_sources hdisk here hroot' hfinds'
    have hsame : location here p = location here q := by
      rw [hlocation, hlocation', hinside, List.append_assoc]
    rw [List.inj_on_of_nodup_map hnodup hp hq hsame, hplace', placeBelow_append] at hplace
    exact List.append_cancel_right hplace
  · intro hspelled
    have hascending := List.pairwise_map.1 (isListing_sources hdisk roots).ascending
    rw [List.Nodup, List.pairwise_map]
    refine hascending.imp_of_mem fun hp hq hlt hsame => ?_
    rw [components_eq_of_location_eq hdisk hspelled hp hq hsame] at hlt
    exact lt_irrefl _ hlt

/-- Roots that begin alike and never go up are spelled alike. -/
theorem spelledAlike_of_writtenAlike (h : WrittenAlike roots) : SpelledAlike disk here roots :=
  fun _ hroot _ hroot' _ _ hinside _ _ => h.components_eq hroot hroot' hinside

/-! ## Reports -/

/-- Where no file is listed twice, the harnesses of a file that can be read are reported once. -/
theorem reportedFor_ofRootsWith (parse : String → Node)
    (hnodup : ((sources disk roots).map (location here)).Nodup) (hp : p ∈ sources disk roots)
    (hread : disk.read p = .ok text) :
    reportedFor here (ofRootsWith parse disk roots strategy) (location here p) =
      (Scan.ofFileWith parse p text strategy).harnesses := by
  have hscans : (ofRootsWith parse disk roots strategy).scans.filter
      (fun s => s.path.any fun q => location here q == location here p) =
        (scanOf? (.ok (Scan.ofFileWith parse p text strategy))).toList := by
    have hfilter := filter_filterMap (path_of_scanOf? parse disk strategy)
      (fun path => path.any fun q => location here q == location here p) (sources disk roots)
    have hsources : (sources disk roots).filter
        ((fun path => path.any fun q => location here q == location here p) ∘ some) = [p] :=
      filter_eq_singleton hnodup hp
    have hscan :
        scanFileWith parse disk strategy p = .ok (Scan.ofFileWith parse p text strategy) := by
      rw [scanFileWith, hread]
    rw [scans_eq_filterMap]
    refine hfilter.trans ?_
    rw [hsources, List.filterMap_cons, List.filterMap_nil, Function.comp_apply, hscan]
    cases scanOf? (.ok (Scan.ofFileWith parse p text strategy)) <;> rfl
  rw [reportedFor, hscans, scanOf?]
  split
  · next hempty =>
    rw [Scan.isEmpty, Bool.and_eq_true, List.isEmpty_iff] at hempty
    rw [hempty.1]
    rfl
  · exact List.append_nil _

/-- Each listed path denotes a file.  No two of them denote the same one exactly if the roots are
spelled alike, as they are if they begin alike and never go up; then the harnesses of each file are
reported once. -/
theorem sources_nodup_iff (parse : String → Node) (hdisk : disk.WellNamed)
    (hwhole : disk.LiesIn whole here) (roots : List String) (strategy : ModulePaths) :
    (∀ p ∈ sources disk roots, ∃ bytes, whole.Leads (location here p) (.file bytes)) ∧
      (((sources disk roots).map (location here)).Nodup ↔ SpelledAlike disk here roots) ∧
      (WrittenAlike roots → SpelledAlike disk here roots) ∧
      (SpelledAlike disk here roots →
        ∀ p ∈ sources disk roots, ∀ text, disk.read p = .ok text →
          reportedFor here (ofRootsWith parse disk roots strategy) (location here p) =
            (Scan.ofFileWith parse p text strategy).harnesses) := by
  refine ⟨fun p => exists_leads_of_mem_sources hdisk hwhole, nodup_map_location_iff hdisk,
    spelledAlike_of_writtenAlike, fun hspelled p hp text hread => ?_⟩
  exact reportedFor_ofRootsWith parse ((nodup_map_location_iff hdisk).2 hspelled) hp hread

/-- A root in another one, given twice, with a dot in it and with separators that do not count. -/
theorem sources_nodup_iff_nested :
    let text := "#[kani::proof]\nfn check() \x7b\x7d\n"
    let tree : Entry := .directory [("src", .directory
      [("a.rs", .file text.toUTF8), ("inner", .directory [("b.rs", .file text.toUTF8)])])]
    let whole : Entry := .directory [("work", tree)]
    let disk : Disk := ⟨[("", tree), ("/work", tree)]⟩
    let here := ["work"]
    let roots := ["src", "src/.//inner", "src/inner/"]
    disk.WellNamed ∧ disk.LiesIn whole here ∧ WrittenAlike roots ∧
      sources disk roots = ["src/a.rs", "src/inner/b.rs"] ∧
      ((sources disk roots).map (location here)).Nodup ∧
      disk.read "src/inner/b.rs" = .ok text ∧
      reportedFor here (ofRoots disk roots .reverseIndex) ["work", "src", "inner", "b.rs"] =
        (Scan.ofFileWith Node.ofSource "src/inner/b.rs" text .reverseIndex).harnesses := by
  intro text tree whole disk here roots
  have hdisk : disk.WellNamed := by decide
  have hwhole : disk.LiesIn whole here := by
    have htree : whole.Leads ["work"] tree := .inside List.mem_cons_self (.here tree)
    simpa [LiesIn, disk] using ⟨htree, htree⟩
  have hwritten : WrittenAlike roots := ⟨by decide, by decide⟩
  have hwalk : roots.flatMap (sourcesBelow disk) =
      ["src/a.rs", "src/inner/b.rs", "src/.//inner/b.rs", "src/inner/b.rs"] := by
    decide +kernel
  have hsources : sources disk roots = ["src/a.rs", "src/inner/b.rs"] := by
    rw [sources, hwalk, List.mergeSort_of_pairwise (by decide)]
    decide
  have hread : disk.read "src/inner/b.rs" = .ok text := by decide +kernel
  have hmem : "src/inner/b.rs" ∈ sources disk roots := by
    rw [hsources]
    decide
  obtain ⟨-, hnodup, halike, hreported⟩ :=
    sources_nodup_iff Node.ofSource hdisk hwhole roots .reverseIndex
  have hspelled := halike hwritten
  exact ⟨hdisk, hwhole, hwritten, hsources, hnodup.2 hspelled, hread,
    hreported hspelled _ hmem text hread⟩

/-- A tree with one source that is reached from the present directory and from a directory in it. -/
theorem not_sources_nodup_dot :
    let text := "#[kani::proof]\nfn check() \x7b\x7d\n"
    let disk : Disk := ⟨[("", .directory [("src", .directory [("lib.rs", .file text.toUTF8)])])]⟩
    let whole : Entry := .directory [("src", .directory [("lib.rs", .file text.toUTF8)])]
    let roots := [".", "src"]
    disk.WellNamed ∧ disk.LiesIn whole [] ∧
      sources disk roots = ["./src/lib.rs", "src/lib.rs"] ∧
      ¬((sources disk roots).map (location [])).Nodup ∧
      (reportedFor [] (ofRoots disk roots .reverseIndex) ["src", "lib.rs"]).map Harness.name =
        ["check", "check"] := by
  intro text disk whole roots
  have hdisk : disk.WellNamed := by decide
  have hwhole : disk.LiesIn whole [] := by
    intro m hm
    obtain rfl := List.mem_singleton.1 hm
    exact .here whole
  have hwalk : roots.flatMap (sourcesBelow disk) = ["./src/lib.rs", "src/lib.rs"] := by
    decide +kernel
  have hsources : sources disk roots = ["./src/lib.rs", "src/lib.rs"] := by
    rw [sources, hwalk, List.mergeSort_of_pairwise (by decide)]
    decide
  refine ⟨hdisk, hwhole, hsources, by rw [hsources]; decide, ?_⟩
  rw [reportedFor, ofRoots, scans_eq_filterMap, hsources]
  decide +kernel

end ProofHarness.Discovery
