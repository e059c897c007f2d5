import ProofHarness.Disk.Basic
import ProofHarness.Proofs.Disk.Path

/-!
# Trees of files

The entries of a tree and the names that lead to them, one directory after the other
(`Entry.Leads`).  In a tree whose directories have entries with proper names only, what a path is
followed to has this property again (`wellNamed_of_lookup`).
-/

set_option autoImplicit false

namespace ProofHarness.Disk

namespace Entry

/-- The names lead from an entry to another one. -/
inductive Leads : Entry → List String → Entry → Prop
  | here (e : Entry) : Leads e [] e
  | inside {entries : List (String × Entry)} {name : String} {inner found : Entry}
      {names : List String} (hmem : (name, inner) ∈ entries) (hleads : Leads inner names found) :
      Leads (.directory entries) (name :: names) found

/-- All directories have entries with proper names only. -/
inductive WellNamed : Entry → Prop
  | file (bytes : ByteArray) : WellNamed (.file bytes)
  | directory {entries : List (String × Entry)} (names : ∀ e ∈ entries, IsEntryName e.1)
      (inner : ∀ e ∈ entries, WellNamed e.2) : WellNamed (.directory entries)

/-- Induction over a tree. -/
theorem treeInduction {motive : Entry → Prop} (file : ∀ bytes, motive (.file bytes))
    (directory : ∀ entries, (∀ e ∈ entries, motive e.2) → motive (.directory entries))
    (e : Entry) : motive e :=
  @Entry.rec motive (fun entries => ∀ e ∈ entries, motive e.2) (fun e => motive e.2) file directory
    (fun _ h => absurd h List.not_mem_nil)
    (fun _ _ head tail => List.forall_mem_cons.2 ⟨head, tail⟩)
    (fun _ _ h => h) e

variable {e found : Entry} {names : List String} {bytes : ByteArray}
  {entries : List (String × Entry)}

/-- A file has nothing in it. -/
theorem leads_file_iff : (file bytes).Leads names found ↔ names = [] ∧ found = .file bytes := by
  constructor
  · rintro ⟨⟩
    exact ⟨rfl, rfl⟩
  · rintro ⟨rfl, rfl⟩
    exact .here _

/-- A directory is well named if its entries are. -/
theorem wellNamed_directory_iff :
    (directory entries).WellNamed ↔ ∀ e ∈ entries, IsEntryName e.1 ∧ e.2.WellNamed := by
  constructor
  · intro h
    cases h with
    | directory names inner => exact fun e he => ⟨names e he, inner e he⟩
  · intro h
    exact .directory (fun e he => (h e he).1) fun e he => (h e he).2

mutual

/-- Whether all directories have entries with proper names only. -/
def decideWellNamed : (e : Entry) → Decidable e.WellNamed
  | .file bytes => isTrue (.file bytes)
  | .directory entries => @decidable_of_iff' _ _ wellNamed_directory_iff (decideAllNamed entries)

/-- Whether entries have proper names, and in them all others. -/
def decideAllNamed :
    (entries : List (String × Entry)) → Decidable (∀ e ∈ entries, IsEntryName e.1 ∧ e.2.WellNamed)
  | [] => isTrue fun _ he => absurd he List.not_mem_nil
  | (name, entry) :: rest =>
    have := decideWellNamed entry
    have := decideAllNamed rest
    decidable_of_iff' ((IsEntryName name ∧ entry.WellNamed) ∧
      ∀ e ∈ rest, IsEntryName e.1 ∧ e.2.WellNamed) List.forall_mem_cons

end

instance (e : Entry) : Decidable e.WellNamed := decideWellNamed e

/-- The names on the way to an entry are names of entries. -/
theorem WellNamed.isEntryName (he : e.WellNamed) (hleads : e.Leads names found) :
    ∀ n ∈ names, IsEntryName n := by
  induction hleads with
  | here e => simp
  | inside hmem _ ih =>
    cases he with
    | directory hnames hinner =>
      exact List.forall_mem_cons.2 ⟨hnames _ hmem, ih (hinner _ hmem)⟩

end Entry

/-- All trees of a disk have entries with proper names only. -/
def WellNamed (disk : Disk) : Prop := ∀ m ∈ disk.mounts, m.2.WellNamed

instance (disk : Disk) : Decidable disk.WellNamed :=
  inferInstanceAs (Decidable (∀ m ∈ disk.mounts, m.2.WellNamed))

/-- There is a file to which names lead from a root. -/
def HasFile (disk : Disk) (root : String) (names : List String) : Prop :=
  ∃ entry bytes, disk.lookup root = .ok entry ∧ entry.Leads names (.file bytes)

/-! ## Following a path -/

/-- A program that ends well has done so in both of its parts. -/
theorem exists_of_bind_eq_ok {ε α β : Type} {x : Except ε α} {f : α → Except ε β} {b : β}
    (h : x.bind f = .ok b) : ∃ a, x = .ok a ∧ f a = .ok b := by
  cases x with
  | error e => cases h
  | ok a => exact ⟨a, rfl, h⟩

/-- A piece of a path that is no component leaves the entries on the way as they are, one that is
the parent takes the last of them back, and a name goes to the entry of that name in the last one.
-/
theorem follow_cases {above above' : List Entry} {piece : List Char}
    (hfollow : follow above piece = .ok above') :
    (Component.ofPiece? piece = none ∧ above' = above) ∨
      (Component.ofPiece? piece = some .parent ∧ above' ≠ [] ∧ ∃ e, above = e :: above') ∨
      ∃ entries outer name found, Component.ofPiece? piece = some (.name name.toList) ∧
        above = .directory entries :: outer ∧ (name, found) ∈ entries ∧
        above' = found :: above := by
  -- Only a directory can be left in any way; then the piece is none, the way up, or a name.
  unfold follow at hfollow
  split at hfollow
  · next entries outer =>
    split at hfollow
    · next hstay =>
      exact .inl ⟨by rw [Component.ofPiece?, if_pos hstay], (Except.ok.inj hfollow).symm⟩
    next hstay =>
    split at hfollow
    · next hup =>
      split at hfollow
      · cases hfollow
      · next houter =>
        obtain rfl := Except.ok.inj hfollow
        exact .inr (.inl ⟨by rw [Component.ofPiece?, if_neg hstay, if_pos hup],
          fun hnil => houter (List.isEmpty_iff.2 hnil), _, rfl⟩)
    next hup =>
    split at hfollow
    · cases hfollow
    split at hfollow
    · next name found hfind =>
      have hname : name.toList = piece := by simpa using List.find?_some hfind
      exact .inr (.inr ⟨entries, outer, name, found,
        by rw [Component.ofPiece?, if_neg hstay, if_neg hup, hname], rfl,
        List.mem_of_find?_eq_some hfind, (Except.ok.inj hfollow).symm⟩)
    · cases hfollow
  · cases hfollow
  · cases hfollow

/-- One step keeps to entries that are well named. -/
theorem wellNamed_of_follow {above above' : List Entry} {piece : List Char}
    (habove : ∀ e ∈ above, e.WellNamed) (hfollow : follow above piece = .ok above') :
    ∀ e ∈ above', e.WellNamed := by
  obtain ⟨-, rfl⟩ | ⟨-, -, e, rfl⟩ | ⟨entries, outer, name, found, -, rfl, hmem, rfl⟩ :=
    follow_cases hfollow
  · exact habove
  · exact (List.forall_mem_cons.1 habove).2
  · cases habove _ List.mem_cons_self with
    | directory _ hinner => exact List.forall_mem_cons.2 ⟨hinner _ hmem, habove⟩

/-- So do all steps of a path. -/
theorem wellNamed_of_foldlM_follow {pieces : List (List Char)} {above above' : List Entry}
    (habove : ∀ e ∈ above, e.WellNamed) (hfollow : pieces.foldlM follow above = .ok above') :
    ∀ e ∈ above', e.WellNamed := by
  induction pieces generalizing above with
  | nil =>
    obtain rfl := Except.ok.inj hfollow
    exact habove
  | cons piece pieces ih =>
    rw [List.foldlM_cons] at hfollow
    obtain ⟨next, hstep, hrest⟩ := exists_of_bind_eq_ok hfollow
    exact ih (wellNamed_of_follow habove hstep) hrest

variable {disk : Disk} {path : String} {entry : Entry}

/-- What a path is followed to was reached from a tree of the disk, piece by piece. -/
theorem exists_mount_of_lookup (hlookup : disk.lookup path = .ok entry) :
    ∃ m ∈ disk.mounts, ∃ (pieces : List (List Char)) (above : List Entry),
      piecesBelow? m.1 path = some pieces ∧
        pieces.foldlM follow [m.2] = Except.ok (entry :: above) := by
  unfold lookup at hlookup
  split at hlookup
  · cases hlookup
  · split at hlookup
    · cases hlookup
    · split at hlookup
      · cases hlookup
      · split at hlookup
        · cases hlookup
        · next tree pieces hfind =>
          obtain ⟨m, hm, hbelow⟩ := List.exists_of_findSome?_eq_some hfind
          obtain ⟨_, hpieces, heq⟩ := Option.map_eq_some_iff.1 hbelow
          obtain ⟨rfl, rfl⟩ := Prod.mk.inj heq
          obtain ⟨above, hfollow, hfound⟩ := exists_of_bind_eq_ok hlookup
          cases above with
          | nil => cases hfound
          | cons found above =>
            obtain rfl := Except.ok.inj hfound
            exact ⟨m, hm, _, above, hpieces, hfollow⟩

/-- What a path is followed to has entries with proper names only. -/
theorem wellNamed_of_lookup (hdisk : disk.WellNamed) (hlookup : disk.lookup path = .ok entry) :
    entry.WellNamed := by
  obtain ⟨m, hm, pieces, above, -, hfollow⟩ := exists_mount_of_lookup hlookup
  have htree : ∀ e ∈ [m.2], e.WellNamed := by
    intro e he
    rw [List.mem_singleton.1 he]
    exact hdisk m hm
  exact wellNamed_of_foldlM_follow htree hfollow entry List.mem_cons_self

/-- The names on the way to a file are names of entries. -/
theorem HasFile.isEntryName {root : String} {names : List String} (hdisk : disk.WellNamed)
    (hfile : disk.HasFile root names) : ∀ n ∈ names, IsEntryName n := by
  obtain ⟨entry, bytes, hlookup, hleads⟩ := hfile
  exact (wellNamed_of_lookup hdisk hlookup).isEntryName hleads

end ProofHarness.Disk
