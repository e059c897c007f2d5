import Mathlib.Data.Char
import Mathlib.Data.List.Lex
import Mathlib.Data.List.TakeWhile
import Mathlib.Data.Prod.Lex
import ProofHarness.Disk.Path
import ProofHarness.Proofs.Text.Join

/-!
# The components of paths

Paths are compared by their components, which are ordered by their sorts and, if they are names, by
their characters; so the comparison of paths is that of lists over a linear order (`pathLe_iff`).
The path of an entry of a directory has the components of the directory and the name as its last
one, however the directory is written (`components_pathIn`).  A name has an extension if there is
something in front of its last dot (`snd_splitName_eq_some_iff`).
-/

set_option autoImplicit false

namespace ProofHarness.Disk

open Text

/-! ## The order of components -/

/-- The rank of a component, and its characters if it is a name. -/
def Component.key (c : Component) : ℕ ×ₗ List Char := toLex (c.rank, c.text)

/-- The key of a component tells which one it is. -/
theorem Component.key_injective : Function.Injective Component.key := by
  intro a b h
  cases a <;> cases b <;> simp_all [Component.key, Component.rank, Component.text]

/-- The root comes before a dot, a dot before two dots, and these before names, which have the order
of their characters. -/
instance : LinearOrder Component where
  toPartialOrder := PartialOrder.lift Component.key Component.key_injective
  le_total a b := le_total a.key b.key
  toDecidableLE a b := inferInstanceAs (Decidable (a.key ≤ b.key))
  toDecidableEq := inferInstance

/-- Components are ordered by their keys. -/
theorem Component.before_iff {a b : Component} : a.before b = true ↔ a < b := by
  show _ ↔ a.key < b.key
  rw [Component.before, Component.key, Component.key, Prod.Lex.toLex_lt_toLex]
  simp

/-- Lists of components are in lexicographic order. -/
theorem componentsLe_iff {as bs : List Component} : componentsLe as bs = true ↔ as ≤ bs := by
  rw [le_iff_lt_or_eq]
  induction as generalizing bs with
  | nil =>
    cases bs with
    | nil => simp [componentsLe]
    | cons b bs => simp [componentsLe, List.nil_lt_cons]
  | cons a as ih =>
    cases bs with
    | nil => simp [componentsLe]
    | cons b bs =>
      rw [componentsLe, List.cons_lt_cons_iff]
      split
      · next h => simp [h, ih]
      · next h => simp [h, Component.before_iff]

/-- Paths are ordered by their components. -/
theorem pathLe_iff {p q : String} : pathLe p q = true ↔ components p ≤ components q :=
  componentsLe_iff

/-- Paths are the same if their components are. -/
theorem samePath_iff {p q : String} : samePath p q = true ↔ components p = components q :=
  beq_iff_eq

/-- The order of paths is transitive. -/
theorem pathLe_trans (p q r : String) (hpq : pathLe p q = true) (hqr : pathLe q r = true) :
    pathLe p r = true :=
  pathLe_iff.2 ((pathLe_iff.1 hpq).trans (pathLe_iff.1 hqr))

/-- The order of paths is total. -/
theorem pathLe_total (p q : String) : (pathLe p q || pathLe q p) = true := by
  rw [Bool.or_eq_true, pathLe_iff, pathLe_iff]
  exact le_total _ _

/-! ## The path of an entry -/

/-- A directory can have an entry of this name. -/
def IsEntryName (name : String) : Prop :=
  name ≠ "" ∧ name ≠ "." ∧ name ≠ ".." ∧ '/' ∉ name.toList

instance (name : String) : Decidable (IsEntryName name) :=
  inferInstanceAs (Decidable (name ≠ "" ∧ name ≠ "." ∧ name ≠ ".." ∧ '/' ∉ name.toList))

/-- The component at the beginning of a path that is no piece of it, or a dot. -/
def lead (s : List Char) : List Component :=
  if s.head? == some '/' then [.root]
  else if (splitOn ['/'] s).head? == some ['.'] then [.current]
  else []

/-- The components of a path: its lead, and those of its pieces. -/
theorem components_eq (path : String) : components path =
    lead path.toList ++ (splitOn ['/'] path.toList).filterMap Component.ofPiece? := rfl

/-- How a path begins is settled in front of its first separator. -/
theorem lead_append_cons (s t t' : List Char) : lead (s ++ '/' :: t) = lead (s ++ '/' :: t') := by
  have hpieces : ∀ u, (splitOn ['/'] (s ++ '/' :: u)).head? = (splitOn ['/'] s).head? := by
    intro u
    rw [splitOn_append_cons, List.head?_append_of_ne_nil _ (splitOn_ne_nil s)]
  have hhead : ∀ u, (s ++ '/' :: u).head? = s.head?.or (some '/') := by
    intro u
    rw [List.head?_append, List.head?_cons]
  rw [lead, lead, hpieces, hpieces, hhead, hhead]

/-- The lead of a path depends on its first piece. -/
theorem lead_append_cons_of_ne_nil {s : List Char} (hs : s ≠ []) (t : List Char) :
    lead (s ++ '/' :: t) = lead s := by
  rw [lead, lead, splitOn_append_cons, List.head?_append_of_ne_nil _ hs,
    List.head?_append_of_ne_nil _ (splitOn_ne_nil s)]

section

variable {name : String} (hname : IsEntryName name)

include hname

/-- The name of an entry is a component. -/
theorem ofPiece?_of_isEntryName : Component.ofPiece? name.toList = some (.name name.toList) := by
  obtain ⟨hempty, hdot, hdots, -⟩ := hname
  rw [Component.ofPiece?, if_neg, if_neg]
  · rw [beq_iff_eq]
    exact fun h => hdots (String.toList_inj.1 h)
  · rw [Bool.or_eq_true, beq_iff_eq, beq_iff_eq]
    rintro (h | h)
    · exact hempty (String.toList_inj.1 h)
    · exact hdot (String.toList_inj.1 h)

/-- It is one piece. -/
theorem splitOn_of_isEntryName : splitOn ['/'] name.toList = [name.toList] :=
  splitOn_of_not_mem hname.2.2.2

/-- It has no lead. -/
theorem lead_of_isEntryName : lead name.toList = [] := by
  rw [lead, splitOn_of_isEntryName hname, if_neg, if_neg]
  · rw [List.head?_cons, beq_iff_eq, Option.some.injEq]
    exact fun h => hname.2.1 (String.toList_inj.1 h)
  · rw [beq_iff_eq]
    exact fun h => hname.2.2.2 (List.mem_of_mem_head? h)

/-- The path of an entry goes on from that of its directory, with or without a separator at the end
of that. -/
theorem components_pathIn (directory : String) :
    components (pathIn directory name) = components directory ++ [.name name.toList] := by
  have happend : ∀ s : List Char, (splitOn ['/'] (s ++ '/' :: name.toList)).filterMap
      Component.ofPiece? = (splitOn ['/'] s).filterMap Component.ofPiece? ++
        [.name name.toList] := by
    intro s
    rw [splitOn_append_cons, splitOn_of_isEntryName hname, List.filterMap_append,
      List.filterMap_cons_some (ofPiece?_of_isEntryName hname), List.filterMap_nil]
  -- A slash is put between them, but not where the directory is empty or ends with one.
  rw [pathIn]
  split
  · next hend =>
    rw [Bool.or_eq_true, beq_iff_eq, beq_iff_eq] at hend
    rcases hend with rfl | hslash
    · rw [String.empty_append, components_eq, lead_of_isEntryName hname,
        splitOn_of_isEntryName hname, List.filterMap_cons_some (ofPiece?_of_isEntryName hname)]
      rfl
    · obtain ⟨s, hs⟩ := List.getLast?_eq_some_iff.1 hslash
      have hpieces : (splitOn ['/'] (s ++ ['/'])).filterMap Component.ofPiece? =
          (splitOn ['/'] s).filterMap Component.ofPiece? := by
        rw [splitOn_append_cons, List.filterMap_append]
        exact List.append_nil _
      rw [components_eq, components_eq, String.toList_append, hs, hpieces, List.append_assoc,
        List.singleton_append, happend, lead_append_cons s name.toList [], List.append_assoc]
  · next hend =>
    rw [Bool.or_eq_true, beq_iff_eq, beq_iff_eq, not_or] at hend
    have hne : directory.toList ≠ [] := fun h => hend.1 (String.toList_inj.1 h)
    have htext : (directory ++ "/" ++ name).toList = directory.toList ++ '/' :: name.toList := by
      simp
    rw [components_eq, components_eq, htext, happend, lead_append_cons_of_ne_nil hne,
      List.append_assoc]

end

/-- The components of the place to which names lead from a root. -/
def placeBelow (root : String) (names : List String) : List Component :=
  components root ++ names.map fun name => .name name.toList

/-- Names are put behind a place one after the other. -/
theorem placeBelow_append (root : String) (names names' : List String) :
    placeBelow root (names ++ names') =
      placeBelow root names ++ names'.map fun name => .name name.toList := by
  rw [placeBelow, placeBelow, List.map_append, List.append_assoc]

/-- The path of an entry below a root has the place of the entry as its components. -/
theorem components_foldl_pathIn {names : List String} (hnames : ∀ n ∈ names, IsEntryName n)
    (root : String) : components (names.foldl pathIn root) = placeBelow root names := by
  induction names generalizing root with
  | nil => exact (List.append_nil _).symm
  | cons n ns ih =>
    obtain ⟨hn, hns⟩ := List.forall_mem_cons.1 hnames
    rw [List.foldl_cons, ih hns, placeBelow, placeBelow, components_pathIn hn, List.append_assoc,
      List.singleton_append, List.map_cons]

/-- The names below a root are known from the place. -/
theorem placeBelow_inj {root : String} {names names' : List String} :
    placeBelow root names = placeBelow root names' ↔ names = names' := by
  have hinjective : Function.Injective fun name : String => Component.name name.toList := by
    intro a b h
    rw [Component.name.injEq] at h
    exact String.toList_inj.1 h
  rw [placeBelow, placeBelow, List.append_right_inj, hinjective.list_map.eq_iff]

/-! ## Extensions -/

/-- A name is divided at its last dot. -/
theorem splitName_append_cons {after : List Char} (hafter : '.' ∉ after) (stem : List Char) :
    splitName (stem ++ '.' :: after) =
      if stem = [] then (stem ++ '.' :: after, none) else (stem, some after) := by
  have hdots : ∀ c ∈ after.reverse, (c != '.') = true := by
    intro c hc
    rw [bne_iff_ne]
    rintro rfl
    exact hafter (List.mem_reverse.1 hc)
  have hreverse : (stem ++ '.' :: after).reverse = after.reverse ++ '.' :: stem.reverse := by simp
  have htake : ((stem ++ '.' :: after).reverse.takeWhile (· != '.')).reverse = after := by
    rw [hreverse, List.takeWhile_append_of_pos hdots]
    simp
  have hdrop : ((stem ++ '.' :: after).reverse.dropWhile (· != '.')).reverse = stem ++ ['.'] := by
    rw [hreverse, List.dropWhile_append_of_pos hdots]
    simp
  rw [splitName, htake, hdrop]
  cases stem with
  | nil => rfl
  | cons c cs =>
    have hlast : (c :: (cs ++ ['.'])).dropLast = c :: cs := by
      rw [← List.cons_append, List.dropLast_concat]
    simp [hlast]

/-- A name without a dot has no ending. -/
theorem splitName_of_not_mem {name : List Char} (hname : '.' ∉ name) :
    splitName name = (name, none) := by
  have hdrop : name.reverse.dropWhile (· != '.') = [] := by
    rw [List.dropWhile_eq_nil_iff]
    intro c hc
    rw [bne_iff_ne]
    rintro rfl
    exact hname (List.mem_reverse.1 hc)
  rw [splitName, hdrop]
  rfl

/-- The ending of a name is what comes after its last dot, if something comes before that. -/
theorem snd_splitName_eq_some_iff {name after : List Char} :
    (splitName name).2 = some after ↔ '.' ∉ after ∧ ∃ stem ≠ [], name = stem ++ '.' :: after := by
  constructor
  · intro h
    by_cases hdot : '.' ∈ name
    · obtain ⟨back, front, hname, hback⟩ := List.eq_append_cons_of_mem (List.mem_reverse.2 hdot)
      have hname : name = front.reverse ++ '.' :: back.reverse := by
        rw [← List.reverse_reverse name, hname]
        simp
      have hback : '.' ∉ back.reverse := mt List.mem_reverse.1 hback
      rw [hname, splitName_append_cons hback] at h
      split at h
      · cases h
      · next hstem =>
        obtain rfl := Option.some.inj h
        exact ⟨hback, front.reverse, hstem, hname⟩
    · rw [splitName_of_not_mem hdot] at h
      cases h
  · rintro ⟨hafter, stem, hstem, rfl⟩
    rw [splitName_append_cons hafter, if_neg hstem]

/-- The file name of a path is its last component, if that is a name. -/
theorem fileName?_eq_some_iff {path : String} {name : List Char} :
    fileName? path = some name ↔ (components path).getLast? = some (.name name) := by
  rw [fileName?]
  split
  · next h => simp [h]
  · next h => simpa using fun hname => h name hname

end ProofHarness.Disk
