/-!
# Tables

Lists of keys with values in which each key stands at the place where it came in first.  The
lemmas say what `alter` does to the look-up and to the order of the keys.
-/

set_option autoImplicit false

namespace ProofHarness.Table

variable {κ υ : Type} [DecidableEq κ]

/-- The value of a key. -/
def get? (table : List (κ × υ)) (key : κ) : Option υ :=
  (table.find? fun entry => entry.1 == key).map Prod.snd

/-- Gives a key the value computed from the one it has; a new key comes last. -/
def alter (key : κ) (f : Option υ → υ) : List (κ × υ) → List (κ × υ)
  | [] => [(key, f none)]
  | entry :: rest =>
    if entry.1 = key then (entry.1, f (some entry.2)) :: rest else entry :: alter key f rest

/-- Gives a key a value, in the place of any other that it has. -/
def put (key : κ) (value : υ) (table : List (κ × υ)) : List (κ × υ) :=
  alter key (fun _ => value) table

/-- An empty table has no entries. -/
@[simp] theorem get?_nil (key : κ) : get? ([] : List (κ × υ)) key = none := rfl

/-- The first entry with a key is the one that is found. -/
theorem get?_cons (entry : κ × υ) (rest : List (κ × υ)) (key : κ) :
    get? (entry :: rest) key = if entry.1 = key then some entry.2 else get? rest key := by
  by_cases h : entry.1 = key <;> simp [get?, h]

/-- `alter` changes the value of its key and of no other. -/
theorem get?_alter (key key' : κ) (f : Option υ → υ) (table : List (κ × υ)) :
    get? (alter key f table) key' =
      if key = key' then some (f (get? table key)) else get? table key' := by
  induction table with
  | nil => simp [alter, get?_cons]
  | cons entry rest ih =>
    by_cases h : entry.1 = key
    · subst h
      by_cases h' : entry.1 = key' <;> simp [alter, get?_cons, h']
    · by_cases h' : entry.1 = key'
      · have hk : key ≠ key' := fun e => h (h'.trans e.symm)
        rw [alter, if_neg h, if_neg hk, get?_cons, get?_cons, if_pos h', if_pos h']
      · rw [alter, if_neg h, get?_cons, if_neg h', ih, get?_cons, if_neg h, get?_cons, if_neg h']

/-- `alter` keeps the order of the keys; a new one comes last. -/
theorem keys_alter (key : κ) (f : Option υ → υ) (table : List (κ × υ)) :
    (alter key f table).map Prod.fst =
      if key ∈ table.map Prod.fst then table.map Prod.fst else table.map Prod.fst ++ [key] := by
  induction table with
  | nil => simp [alter]
  | cons entry rest ih =>
    by_cases h : entry.1 = key
    · simp [alter, h]
    · have h' : key ≠ entry.1 := Ne.symm h
      simp only [alter, h, if_false, List.map_cons, ih, List.mem_cons, h', false_or]
      split <;> simp

end ProofHarness.Table
