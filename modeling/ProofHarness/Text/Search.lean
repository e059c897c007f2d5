import ProofHarness.Text.Blank

/-!
# Searching text

Occurrences of one text in another: whether there is one, what stands on its two sides, cutting
at every occurrence and putting another text in its place.  Occurrences are taken from the left
and do not overlap.
-/

set_option autoImplicit false

namespace ProofHarness.Text

/-- What follows `p` in a text that starts with it. -/
def stripPrefix : List Char → List Char → Option (List Char)
  | [], s => some s
  | _ :: _, [] => none
  | p :: ps, c :: cs => if p == c then stripPrefix ps cs else none

/-- What is left is what comes after the prefix. -/
theorem stripPrefix_eq_some_iff {p s r : List Char} :
    stripPrefix p s = some r ↔ s = p ++ r := by
  induction p generalizing s with
  | nil => simp [stripPrefix, eq_comm]
  | cons p ps ih =>
    cases s with
    | nil => simp [stripPrefix]
    | cons c cs =>
      by_cases h : p = c
      · simp [stripPrefix, h, ih]
      · simp [stripPrefix, h, Ne.symm h]

/-- The two sides of the first occurrence of `p`. -/
def splitOnce (p : List Char) : List Char → Option (List Char × List Char)
  | [] => (stripPrefix p []).map fun r => ([], r)
  | c :: cs =>
    match stripPrefix p (c :: cs) with
    | some r => some ([], r)
    | none => (splitOnce p cs).map fun sides => (c :: sides.1, sides.2)

/-- Whether `p` occurs in the text. -/
def contains (p s : List Char) : Bool := (splitOnce p s).isSome

/-- Whether the text `word` occurs in the string `s`. -/
def mentions (word s : String) : Bool := contains word.toList s.toList

/-- Puts a character in front of the first of some pieces. -/
def extendFirst (c : Char) : List (List Char) → List (List Char)
  | [] => [[c]]
  | piece :: pieces => (c :: piece) :: pieces

/-- The pieces between the occurrences of a non-empty `p`; `skip` characters of an occurrence
that was met are still to be passed over. -/
def splitFrom (p : List Char) : Nat → List Char → List (List Char)
  | _, [] => [[]]
  | skip + 1, _ :: cs => splitFrom p skip cs
  | 0, c :: cs =>
    if p.isPrefixOf (c :: cs) then [] :: splitFrom p (p.length - 1) cs
    else extendFirst c (splitFrom p 0 cs)

/-- The pieces between the occurrences of a non-empty `p`. -/
def splitOn (p s : List Char) : List (List Char) := splitFrom p 0 s

/-- Puts `new` in the place of each occurrence of a non-empty `old`. -/
def replaceFrom (old new : List Char) : Nat → List Char → List Char
  | _, [] => []
  | skip + 1, _ :: cs => replaceFrom old new skip cs
  | 0, c :: cs =>
    if old.isPrefixOf (c :: cs) then new ++ replaceFrom old new (old.length - 1) cs
    else c :: replaceFrom old new 0 cs

/-- Puts `new` in the place of each occurrence of `old`; the empty text occurs once before each
character and once at the end. -/
def replaceAll (old new s : List Char) : List Char :=
  if old.isEmpty then new ++ s.flatMap (fun c => c :: new) else replaceFrom old new 0 s

/-- The texts one after the other with `sep` between neighbours. -/
def join (sep : List Char) : List (List Char) → List Char
  | [] => []
  | [s] => s
  | s :: t :: rest => s ++ sep ++ join sep (t :: rest)

/-- `join` on strings. -/
def joined (sep : String) (parts : List String) : String :=
  String.ofList (join sep.toList (parts.map String.toList))

/-- The two parts and the separator make up the text. -/
theorem splitOnce_eq_some {p s a b : List Char} (h : splitOnce p s = some (a, b)) :
    s = a ++ p ++ b := by
  induction s generalizing a with
  | nil =>
    simp only [splitOnce, Option.map_eq_some_iff, Prod.mk.injEq] at h
    obtain ⟨r, hr, rfl, rfl⟩ := h
    simpa using stripPrefix_eq_some_iff.1 hr
  | cons c cs ih =>
    rw [splitOnce] at h
    split at h
    · rename_i r hr
      simp only [Option.some.injEq, Prod.mk.injEq] at h
      obtain ⟨rfl, rfl⟩ := h
      simpa using stripPrefix_eq_some_iff.1 hr
    · simp only [Option.map_eq_some_iff, Prod.mk.injEq] at h
      obtain ⟨⟨a', b'⟩, hs, rfl, rfl⟩ := h
      simp [ih hs]

/-- A text that is built around `p` is found to contain it. -/
theorem splitOnce_isSome_append (p a b : List Char) : (splitOnce p (a ++ p ++ b)).isSome := by
  induction a with
  | nil =>
    have h : stripPrefix p (p ++ b) = some b := stripPrefix_eq_some_iff.2 rfl
    cases hs : p ++ b with
    | nil => rw [hs] at h; simp [splitOnce, hs, h]
    | cons c cs => rw [hs] at h; simp [splitOnce, hs, h]
  | cons c cs ih =>
    simp only [List.cons_append, splitOnce]
    split
    · rfl
    · simpa using ih

/-- Containing `p` is standing around it. -/
theorem contains_iff {p s : List Char} : contains p s = true ↔ ∃ a b, s = a ++ p ++ b := by
  constructor
  · intro h
    obtain ⟨⟨a, b⟩, hs⟩ := Option.isSome_iff_exists.1 h
    exact ⟨a, b, splitOnce_eq_some hs⟩
  · rintro ⟨a, b, rfl⟩
    exact splitOnce_isSome_append p a b

end ProofHarness.Text
