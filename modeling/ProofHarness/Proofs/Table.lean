import Mathlib.Data.List.Forall2
import Mathlib.Data.List.Induction
import Mathlib.Data.List.Nodup
import ProofHarness.Table

/-!
# Looking up in tables

A table whose keys are distinct has the values of its entries and no others (`get?_eq_some_iff`), so
that the order of its entries does not matter.  Putting distinct keys into a table one after the
other makes the same look-ups as the list of what was put in.  Keys that come in one after the other
stand in the order of the places at which each comes for the first time (`exists_places_addKeys`).
-/

set_option autoImplicit false

namespace ProofHarness.Table

variable {κ υ : Type} [DecidableEq κ]

/-! ## Keys that come in -/

/-- Some keys, and after them those of others that are new, in the order in which they come in. -/
def addKeys (keys more : List κ) : List κ :=
  more.foldl (fun keys key => if key ∈ keys then keys else keys ++ [key]) keys

/-- Keys come in one after the other. -/
theorem addKeys_append (keys more rest : List κ) :
    addKeys keys (more ++ rest) = addKeys (addKeys keys more) rest :=
  List.foldl_append

/-- A key comes in at the end, once. -/
theorem addKeys_singleton (keys : List κ) (key : κ) :
    addKeys keys [key] = if key ∈ keys then keys else keys ++ [key] := rfl

/-- The first key comes in first. -/
theorem addKeys_cons (keys more : List κ) (key : κ) :
    addKeys keys (key :: more) = addKeys (addKeys keys [key]) more := rfl

/-- The keys are those from before and those that come in. -/
theorem mem_addKeys_iff {keys more : List κ} {key : κ} :
    key ∈ addKeys keys more ↔ key ∈ keys ∨ key ∈ more := by
  induction more generalizing keys with
  | nil => simp [addKeys]
  | cons k more ih =>
    have hk : key ∈ addKeys keys [k] ↔ key ∈ keys ∨ key = k := by
      rw [addKeys_singleton]
      split
      · next hmem =>
        constructor
        · exact .inl
        · rintro (h | rfl)
          · exact h
          · exact hmem
      · rw [List.mem_append, List.mem_singleton]
    rw [addKeys_cons, ih, hk, List.mem_cons, or_assoc]

/-- No key comes in twice. -/
theorem nodup_addKeys {keys : List κ} (hkeys : keys.Nodup) (more : List κ) :
    (addKeys keys more).Nodup := by
  induction more generalizing keys with
  | nil => exact hkeys
  | cons k more ih =>
    rw [addKeys_cons]
    apply ih
    rw [addKeys_singleton]
    split
    · exact hkeys
    · next hnew =>
      rw [← List.concat_eq_append]
      exact hkeys.concat hnew

/-- Keys that are there already change nothing. -/
theorem addKeys_of_subset {keys more : List κ} (h : more ⊆ keys) : addKeys keys more = keys := by
  induction more with
  | nil => rfl
  | cons k more ih =>
    obtain ⟨hk, hmore⟩ := List.cons_subset.1 h
    rw [addKeys_cons, addKeys_singleton, if_pos hk, ih hmore]

/-- A key that is there already may be left out of those that come in. -/
theorem addKeys_filter {keys : List κ} {key : κ} (hkey : key ∈ keys) (more : List κ) :
    addKeys keys (more.filter fun k => !(k == key)) = addKeys keys more := by
  induction more generalizing keys with
  | nil => rfl
  | cons k more ih =>
    rw [List.filter_cons, addKeys_cons keys more]
    split
    · rw [addKeys_cons, ih (mem_addKeys_iff.2 (.inl hkey))]
    · next hk =>
      have hsame : k = key := by simpa using hk
      rw [hsame, addKeys_singleton, if_pos hkey, ih hkey]

/-- Of equal keys that come in only the first counts. -/
theorem addKeys_eraseDups (keys more : List κ) :
    addKeys keys more.eraseDups = addKeys keys more := by
  match more with
  | [] => rfl
  | k :: more =>
    rw [List.eraseDups_cons, addKeys_cons, addKeys_eraseDups _ (more.filter fun l => !(l == k)),
      addKeys_filter (mem_addKeys_iff.2 (.inr List.mem_cons_self)), ← addKeys_cons]
termination_by more.length
decreasing_by
  have hle := List.length_filter_le (fun l => !(l == k)) more
  rw [List.length_cons]
  omega

/-! ## Values -/

/-- The value of a key stands beside it in the table. -/
theorem mem_of_get?_eq_some {table : List (κ × υ)} {key : κ} {value : υ}
    (h : get? table key = some value) : (key, value) ∈ table := by
  obtain ⟨entry, hfind, rfl⟩ := Option.map_eq_some_iff.1 h
  have hkey : entry.1 = key := by simpa using List.find?_some hfind
  rw [← hkey]
  exact List.mem_of_find?_eq_some hfind

/-- There is no entry exactly if the key is not in the table. -/
theorem get?_eq_none_iff {table : List (κ × υ)} {key : κ} :
    get? table key = none ↔ key ∉ table.map Prod.fst := by
  rw [get?, Option.map_eq_none_iff, List.find?_eq_none, List.mem_map, not_exists]
  apply forall_congr'
  intro entry
  rw [not_and, beq_iff_eq]

/-- Where keys are distinct, the values are those that stand beside the keys. -/
theorem get?_eq_some_iff {table : List (κ × υ)} (hkeys : (table.map Prod.fst).Nodup) {key : κ}
    {value : υ} : get? table key = some value ↔ (key, value) ∈ table := by
  constructor
  · exact mem_of_get?_eq_some
  · intro hmem
    cases hget : get? table key with
    | none => exact absurd (List.mem_map_of_mem hmem) (get?_eq_none_iff.1 hget)
    | some other =>
      have heq := List.inj_on_of_nodup_map hkeys hmem (mem_of_get?_eq_some hget) rfl
      rw [Prod.mk.injEq] at heq
      rw [heq.2]

/-- No key comes to stand in a table twice. -/
theorem nodup_keys_alter {table : List (κ × υ)} (hkeys : (table.map Prod.fst).Nodup) (key : κ)
    (f : Option υ → υ) : ((alter key f table).map Prod.fst).Nodup := by
  rw [keys_alter, ← addKeys_singleton]
  exact nodup_addKeys hkeys [key]

/-- Putting entries in keeps the keys distinct. -/
theorem nodup_keys_foldl_put {table : List (κ × υ)} (hkeys : (table.map Prod.fst).Nodup)
    (entries : List (κ × υ)) :
    ((entries.foldl (fun table entry => put entry.1 entry.2 table) table).map Prod.fst).Nodup := by
  induction entries generalizing table with
  | nil => exact hkeys
  | cons entry rest ih => exact ih (nodup_keys_alter hkeys entry.1 _)

/-- Changing all values changes the value of each key. -/
theorem get?_map {ω : Type} (f : υ → ω) (table : List (κ × υ)) (key : κ) :
    get? (table.map fun entry => (entry.1, f entry.2)) key = (get? table key).map f := by
  induction table with
  | nil => rfl
  | cons entry rest ih =>
    rw [List.map_cons, get?_cons, get?_cons, ih]
    split <;> rfl

/-- Putting entries with distinct keys into a table adds them to it. -/
theorem get?_foldl_put {entries : List (κ × υ)} (hkeys : (entries.map Prod.fst).Nodup)
    (table : List (κ × υ)) (key : κ) :
    get? (entries.foldl (fun table entry => put entry.1 entry.2 table) table) key =
      (get? entries key).or (get? table key) := by
  induction entries generalizing table with
  | nil => rfl
  | cons entry rest ih =>
    rw [List.map_cons, List.nodup_cons] at hkeys
    rw [List.foldl_cons, ih hkeys.2, put, get?_alter, get?_cons]
    split
    · next h =>
      rw [← h, get?_eq_none_iff.2 hkeys.1, Option.none_or, Option.some_or]
    · rfl

/-! ## The order of keys -/

/-- The keys of a table after the values of some keys were changed one after the other. -/
theorem keys_foldl_alter (f : Option υ → υ) (keys : List κ) (table : List (κ × υ)) :
    (keys.foldl (fun table key => alter key f table) table).map Prod.fst =
      addKeys (table.map Prod.fst) keys := by
  induction keys generalizing table with
  | nil => rfl
  | cons key keys ih =>
    rw [List.foldl_cons, ih, keys_alter, addKeys_cons, addKeys_singleton]

/-- Of the elements of a list that have keys, number `i` is the first with the given key. -/
structure IsFirstAt {α : Type} (key? : α → Option κ) (l : List α) (key : κ) (i : Nat) : Prop where
  here : l[i]?.bind key? = some key
  first : ∀ j < i, l[j]?.bind key? ≠ some key

omit [DecidableEq κ] in
/-- A place with a key is in the list. -/
theorem IsFirstAt.lt_length {α : Type} {key? : α → Option κ} {l : List α} {key : κ} {i : Nat}
    (h : IsFirstAt key? l key i) : i < l.length := by
  refine Nat.lt_of_not_le fun hle => ?_
  have hhere := h.here
  rw [List.getElem?_eq_none hle] at hhere
  cases hhere

omit [DecidableEq κ] in
/-- What comes later does not change the first place. -/
theorem IsFirstAt.append {α : Type} {key? : α → Option κ} {l : List α} {key : κ} {i : Nat}
    (h : IsFirstAt key? l key i) (m : List α) : IsFirstAt key? (l ++ m) key i := by
  refine ⟨?_, fun j hj => ?_⟩
  · rw [List.getElem?_append_left h.lt_length]
    exact h.here
  · rw [List.getElem?_append_left (Nat.lt_trans hj h.lt_length)]
    exact h.first j hj

/-- The keys of the elements of a list stand in the order of the first elements that have them. -/
theorem exists_places_addKeys {α : Type} (key? : α → Option κ) (l : List α) :
    ∃ places, List.Forall₂ (IsFirstAt key? l) (addKeys [] (l.filterMap key?)) places ∧
      places.Pairwise (· < ·) ∧ ∀ i ∈ places, i < l.length := by
  induction l using List.reverseRecOn with
  | nil => exact ⟨[], .nil, .nil, by simp⟩
  | append_singleton l a ih =>
    obtain ⟨places, hplaces, hsorted, hbefore⟩ := ih
    have hlater : List.Forall₂ (IsFirstAt key? (l ++ [a])) (addKeys [] (l.filterMap key?)) places :=
      hplaces.imp fun _ _ h => h.append [a]
    have hlength : ∀ i ∈ places, i < (l ++ [a]).length := by
      intro i hi
      rw [List.length_append]
      exact Nat.lt_add_right _ (hbefore i hi)
    rw [List.filterMap_append, addKeys_append]
    cases hkey : key? a with
    | none =>
      rw [List.filterMap_cons_none hkey]
      exact ⟨places, hlater, hsorted, hlength⟩
    | some key =>
      rw [List.filterMap_cons_some hkey, List.filterMap_nil, addKeys_singleton]
      split
      · exact ⟨places, hlater, hsorted, hlength⟩
      · next hnew =>
        -- The key comes for the first time, at the end of the list.
        have hfirst : IsFirstAt key? (l ++ [a]) key l.length := by
          refine ⟨by simp [hkey], fun j hj hsame => hnew ?_⟩
          rw [List.getElem?_append_left hj] at hsame
          obtain ⟨b, hb, hb'⟩ := Option.bind_eq_some_iff.1 hsame
          exact mem_addKeys_iff.2
            (.inr (List.mem_filterMap.2 ⟨b, List.mem_of_getElem? hb, hb'⟩))
        refine ⟨places ++ [l.length], List.rel_append hlater (.cons hfirst .nil), ?_, ?_⟩
        · exact List.pairwise_append.2
            ⟨hsorted, List.pairwise_singleton _ _, by simpa using hbefore⟩
        · intro i hi
          rcases List.mem_append.1 hi with hi | hi
          · exact hlength i hi
          · rw [List.mem_singleton.1 hi, List.length_append]
            exact Nat.lt_succ_self _

end ProofHarness.Table
