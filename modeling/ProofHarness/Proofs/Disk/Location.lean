import ProofHarness.Proofs.Disk.Tree

/-!
# Where paths lead

There are no links, so where a path leads can be read off it: from the root or the present
directory, each name goes one directory down and two dots go one up (`location`).  If the trees of a
disk are parts of one tree of files, each at the place where its path leads (`LiesIn`), then what a
path is followed to stands at its place in the whole tree (`leads_of_lookup`).  So two paths denote
the same file if they lead to the same place.
-/

set_option autoImplicit false

namespace ProofHarness.Disk

open Text

/-! ## Places -/

/-- Where a component leads from a place in the whole tree. -/
def Component.goFrom (place : List String) : Component → List String
  | .root => []
  | .current => place
  | .parent => place.dropLast
  | .name text => place ++ [String.ofList text]

/-- Where components lead, one after the other. -/
def locate (place : List String) (path : List Component) : List String :=
  path.foldl Component.goFrom place

/-- The place in the whole tree to which a path leads; `here` is that of the present directory. -/
def location (here : List String) (path : String) : List String := locate here (components path)

variable {place here names names' : List String} {path root : String}

/-- Components are gone through one after the other. -/
theorem locate_append (place : List String) (as bs : List Component) :
    locate place (as ++ bs) = locate (locate place as) bs :=
  List.foldl_append

/-- Names lead down. -/
theorem locate_names (place names : List String) :
    locate place (names.map fun name => .name name.toList) = place ++ names := by
  induction names generalizing place with
  | nil => exact (List.append_nil place).symm
  | cons n ns ih =>
    have hstep : Component.goFrom place (.name n.toList) = place ++ [n] := by
      rw [Component.goFrom, String.ofList_toList]
    rw [List.map_cons, locate, List.foldl_cons, hstep, ← locate, ih, List.append_assoc,
      List.singleton_append]

/-- Names lead downwards from the place of the root. -/
theorem locate_placeBelow (here : List String) (root : String) (names : List String) :
    locate here (placeBelow root names) = location here root ++ names := by
  rw [placeBelow, locate_append, locate_names]
  rfl

/-! ## Following a path -/

namespace Entry

variable {e inner found : Entry}

/-- Ways are put together. -/
theorem Leads.append (h : e.Leads names inner) (h' : inner.Leads names' found) :
    e.Leads (names ++ names') found := by
  induction h with
  | here e => exact h'
  | inside hmem _ ih => exact .inside hmem (ih h')

end Entry

/-- The entries on the way to a place of the whole tree, the last one first.  The way begins at some
place and goes on from one directory to an entry of it. -/
inductive IsWay (whole : Entry) : List String → List Entry → Prop
  | start {place : List String} {e : Entry} (hleads : whole.Leads place e) : IsWay whole place [e]
  | inside {place : List String} {entries : List (String × Entry)} {outer : List Entry}
      {name : String} {found : Entry} (hmem : (name, found) ∈ entries)
      (hway : IsWay whole place (.directory entries :: outer)) :
      IsWay whole (place ++ [name]) (found :: .directory entries :: outer)

variable {whole entry : Entry} {above above' : List Entry} {piece : List Char}
  {pieces : List (List Char)}

/-- The names of a way lead to its end. -/
theorem IsWay.leads {outer : List Entry} (hway : IsWay whole place (entry :: outer)) :
    whole.Leads place entry := by
  generalize hentries : entry :: outer = above at hway
  induction hway generalizing entry outer with
  | start hleads =>
    obtain ⟨rfl, -⟩ := List.cons.inj hentries
    exact hleads
  | inside hmem _ ih =>
    obtain ⟨rfl, -⟩ := List.cons.inj hentries
    exact (ih rfl).append (.inside hmem (.here entry))

/-- One piece of a path goes to where its component leads. -/
theorem isWay_of_follow (hway : IsWay whole place above)
    (hfollow : follow above piece = .ok above') :
    IsWay whole (locate place (Component.ofPiece? piece).toList) above' := by
  rcases follow_cases hfollow with ⟨hpiece, rfl⟩ | ⟨hpiece, hne, e, rfl⟩ |
    ⟨entries, outer, name, found, hpiece, rfl, hmem, rfl⟩
  · rw [hpiece]
    exact hway
  · cases hway with
    | start => exact absurd rfl hne
    | @inside place _ _ name _ _ hway =>
      have hback : locate (place ++ [name]) [.parent] = place := List.dropLast_concat
      rw [hpiece, Option.toList_some, hback]
      exact hway
  · have hstep : locate place [.name name.toList] = place ++ [name] := locate_names place [name]
    rw [hpiece, Option.toList_some, hstep]
    exact .inside hmem hway

/-- Following pieces is going through the components that they are. -/
theorem isWay_of_foldlM_follow (hway : IsWay whole place above)
    (hfollow : pieces.foldlM follow above = .ok above') :
    IsWay whole (locate place (pieces.filterMap Component.ofPiece?)) above' := by
  induction pieces generalizing place above with
  | nil =>
    obtain rfl := Except.ok.inj hfollow
    exact hway
  | cons piece pieces ih =>
    rw [List.foldlM_cons] at hfollow
    obtain ⟨next, hstep, hrest⟩ := exists_of_bind_eq_ok hfollow
    have hcomponents : (piece :: pieces).filterMap Component.ofPiece? =
        (Component.ofPiece? piece).toList ++ pieces.filterMap Component.ofPiece? := by
      rw [List.filterMap_cons]
      cases Component.ofPiece? piece <;> rfl
    rw [hcomponents, locate_append]
    exact ih (isWay_of_follow hway hstep) hrest

/-- The pieces of a path below a mount lead on from where the mount is. -/
theorem location_of_piecesBelow? {mount : String} (hpieces : piecesBelow? mount path = some pieces)
    (here : List String) : location here path =
      locate (location here mount) (pieces.filterMap Component.ofPiece?) := by
  rw [piecesBelow?] at hpieces
  split at hpieces
  · next hempty =>
    obtain rfl : mount = "" := by simpa using hempty
    have hmount : location here "" = here := rfl
    split at hpieces
    · cases hpieces
    · next hroot =>
      obtain rfl := Option.some.inj hpieces
      rw [hmount, location, components_eq, locate_append, lead, if_neg hroot]
      split <;> rfl
  · next hempty =>
    split at hpieces
    · next hsame =>
      obtain rfl := Option.some.inj hpieces
      obtain rfl : mount = path := by simpa using hsame
      rfl
    · obtain ⟨rest, hrest, rfl⟩ := Option.map_eq_some_iff.1 hpieces
      have hpath : path.toList = mount.toList ++ '/' :: rest := by
        simpa using stripPrefix_eq_some_iff.1 hrest
      have hne : mount.toList ≠ [] := by simpa using hempty
      rw [location, location, components_eq, components_eq, hpath, splitOn_append_cons,
        lead_append_cons_of_ne_nil hne, List.filterMap_append, ← List.append_assoc, locate_append]

/-- The trees of a disk are parts of one tree, each at the place where its path leads. -/
def LiesIn (disk : Disk) (whole : Entry) (here : List String) : Prop :=
  ∀ m ∈ disk.mounts, whole.Leads (location here m.1) m.2

variable {disk : Disk}

/-- Following a path comes to what stands in the whole tree at the place where the path leads. -/
theorem leads_of_lookup (hdisk : disk.LiesIn whole here) (hlookup : disk.lookup path = .ok entry) :
    whole.Leads (location here path) entry := by
  obtain ⟨m, hm, pieces, above, hpieces, hfollow⟩ := exists_mount_of_lookup hlookup
  rw [location_of_piecesBelow? hpieces]
  exact (isWay_of_foldlM_follow (.start (hdisk m hm)) hfollow).leads

/-- The files below a root stand in the whole tree at the places where their names lead. -/
theorem HasFile.leads (hdisk : disk.LiesIn whole here) (hfile : disk.HasFile root names) :
    ∃ bytes, whole.Leads (location here root ++ names) (.file bytes) := by
  obtain ⟨entry, bytes, hlookup, hleads⟩ := hfile
  exact ⟨bytes, (leads_of_lookup hdisk hlookup).append hleads⟩

/-! ## Paths that are written alike -/

/-- Paths that begin alike and never go up. -/
structure WrittenAlike (paths : List String) : Prop where
  lead : ∀ p ∈ paths, ∀ q ∈ paths, lead p.toList = lead q.toList
  down : ∀ p ∈ paths, Component.parent ∉ components p

/-- Pieces that do not go up are names. -/
theorem exists_names_of_pieces (hdown : Component.parent ∉ pieces.filterMap Component.ofPiece?) :
    ∃ names : List String,
      pieces.filterMap Component.ofPiece? = names.map fun name => .name name.toList := by
  induction pieces with
  | nil => exact ⟨[], rfl⟩
  | cons piece pieces ih =>
    rw [List.filterMap_cons] at hdown ⊢
    cases hpiece : Component.ofPiece? piece with
    | none =>
      rw [hpiece] at hdown
      exact ih hdown
    | some c =>
      rw [hpiece] at hdown
      obtain ⟨hc, hdown⟩ := List.ne_and_not_mem_of_not_mem_cons hdown
      obtain ⟨names, hnames⟩ := ih hdown
      rw [Component.ofPiece?] at hpiece
      split at hpiece
      · cases hpiece
      · split at hpiece
        · exact absurd (Option.some.inj hpiece) hc
        · obtain rfl := Option.some.inj hpiece
          exact ⟨String.ofList piece :: names, by rw [List.map_cons, String.toList_ofList, hnames]⟩

/-- Of paths that are written alike one that leads to a place in another one is written as that one
and names after it. -/
theorem WrittenAlike.components_eq {paths : List String} (h : WrittenAlike paths) {p q : String}
    (hp : p ∈ paths) (hq : q ∈ paths) (hinside : location here q = location here p ++ names) :
    components q = placeBelow p names := by
  have hwritten : ∀ r ∈ paths, ∃ inner : List String,
      components r = Disk.lead r.toList ++ inner.map fun name => .name name.toList := by
    intro r hr
    have hdown := h.down r hr
    rw [Disk.components_eq, List.mem_append, not_or] at hdown
    obtain ⟨inner, hinner⟩ := exists_names_of_pieces hdown.2
    exact ⟨inner, by rw [Disk.components_eq, hinner]⟩
  obtain ⟨ps, hps⟩ := hwritten p hp
  obtain ⟨qs, hqs⟩ := hwritten q hq
  rw [location, location, hps, hqs, h.lead q hq p hp, locate_append, locate_append, locate_names,
    locate_names, List.append_assoc, List.append_right_inj] at hinside
  rw [placeBelow, hps, hqs, h.lead q hq p hp, hinside, List.map_append, List.append_assoc]

end ProofHarness.Disk
