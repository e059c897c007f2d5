import Mathlib.Data.List.Infix
import Mathlib.Data.List.TakeWhile
import ProofHarness.Attribute.Payload
import ProofHarness.Proofs.Text.Occurrence
import ProofHarness.Proofs.Text.Trim

/-!
# Where payloads stand

A payload stands in parentheses after the word and some blanks, and the leftmost place counts at
which there is one (`payload?_eq_some_iff`).  A word of which the first character does not come
again in it has its payload where it was put, if it does not occur before (`payload?_append`).
-/

set_option autoImplicit false

namespace ProofHarness.Attribute

open Text

variable {w s payload : List Char}

/-- A text starts with the word, some blanks, and a payload in parentheses. -/
def StartsWithPayload (w payload s : List Char) : Prop :=
  ∃ blanks rest, (∀ c ∈ blanks, isBlank c = true) ∧ ')' ∉ payload ∧
    s = w ++ (blanks ++ '(' :: (payload ++ ')' :: rest))

/-- The payload after the leftmost occurrence of the word that has one. -/
def IsLeftmostPayload (w payload s : List Char) : Prop :=
  ∃ before after, s = before ++ after ∧ StartsWithPayload w payload after ∧
    ∀ before' after', s = before' ++ after' → before'.length < before.length →
      ∀ payload', ¬StartsWithPayload w payload' after'

/-! ## The payload at the start of a text -/

/-- A payload ends at the first closing parenthesis. -/
theorem takeWhile_append_closing (h : ')' ∉ payload) (rest : List Char) :
    (payload ++ ')' :: rest).takeWhile (· != ')') = payload := by
  have hpayload : ∀ c ∈ payload, (c != ')') = true := by
    intro c hc
    rw [bne_iff_ne]
    rintro rfl
    exact h hc
  rw [List.takeWhile_append_of_pos hpayload, List.takeWhile_cons_of_neg (by decide),
    List.append_nil]

/-- A text with a closing parenthesis is cut at the first one. -/
theorem exists_eq_takeWhile_append (h : ')' ∈ s) :
    ∃ rest, s = s.takeWhile (· != ')') ++ ')' :: rest := by
  have hsplit := List.takeWhile_append_dropWhile (p := (· != ')')) (l := s)
  have hhead := List.head?_dropWhile_not (· != ')') s
  cases hs : s.dropWhile (· != ')') with
  | nil =>
    rw [hs, List.append_nil] at hsplit
    rw [← hsplit] at h
    exact absurd (List.mem_takeWhile_imp h) (by decide)
  | cons c rest =>
    rw [hs] at hhead hsplit
    have hc : c = ')' := by simpa using hhead
    subst hc
    exact ⟨rest, hsplit.symm⟩

/-- The payload at the start of a text is the one with which it starts. -/
theorem payloadHere?_eq_some_iff :
    payloadHere? w s = some payload ↔ StartsWithPayload w payload s := by
  constructor
  · intro h
    obtain ⟨rest, inner, rfl, hrest, rfl, hmem⟩ := payloadHere?_eq_some h
    obtain ⟨after, hafter⟩ := exists_eq_takeWhile_append hmem
    refine ⟨rest.takeWhile isBlank, after, fun c hc => List.mem_takeWhile_imp hc, ?_, ?_⟩
    · intro hclosing
      exact absurd (List.mem_takeWhile_imp hclosing) (by decide)
    · rw [← hafter, ← hrest, trimStart, List.takeWhile_append_dropWhile]
  · rintro ⟨blanks, rest, hblanks, hpayload, rfl⟩
    have hstrip : stripPrefix w (w ++ (blanks ++ '(' :: (payload ++ ')' :: rest))) =
        some (blanks ++ '(' :: (payload ++ ')' :: rest)) := stripPrefix_eq_some_iff.2 rfl
    have hopening : trimStart ('(' :: (payload ++ ')' :: rest)) =
        '(' :: (payload ++ ')' :: rest) := by
      rw [trimStart, List.dropWhile_cons_of_neg (by decide)]
    rw [payloadHere?, hstrip, Option.bind_some, trimStart_blanks_append hblanks, hopening]
    simp only
    rw [if_pos (by simp), takeWhile_append_closing hpayload]

/-! ## The leftmost payload -/

/-- An empty text starts with no payload. -/
theorem not_startsWithPayload_nil : ¬StartsWithPayload w payload [] := by
  rintro ⟨blanks, rest, -, -, h⟩
  simp at h

/-- The leftmost payload of a text is at its start, or the leftmost one of the rest if there is none
at the start. -/
theorem isLeftmostPayload_cons_iff {c : Char} :
    IsLeftmostPayload w payload (c :: s) ↔
      StartsWithPayload w payload (c :: s) ∨
        (∀ payload', ¬StartsWithPayload w payload' (c :: s)) ∧ IsLeftmostPayload w payload s := by
  constructor
  · rintro ⟨before, after, hs, hafter, hfirst⟩
    cases before with
    | nil => exact .inl (hs ▸ hafter)
    | cons d before =>
      obtain ⟨rfl, rfl⟩ := List.cons.inj hs
      refine .inr ⟨hfirst [] _ rfl (Nat.succ_pos _), before, after, rfl, hafter, ?_⟩
      intro before' after' hs' hlt
      exact hfirst (c :: before') after' (by rw [hs', List.cons_append]) (Nat.succ_lt_succ hlt)
  · rintro (h | ⟨hnone, before, after, rfl, hafter, hfirst⟩)
    · exact ⟨[], c :: s, rfl, h, fun _ _ _ hlt => absurd hlt (Nat.not_lt_zero _)⟩
    · refine ⟨c :: before, after, rfl, hafter, ?_⟩
      intro before' after' hs hlt
      cases before' with
      | nil =>
        rw [List.nil_append] at hs
        exact hs ▸ hnone
      | cons d before' =>
        exact hfirst before' after' (List.cons.inj hs).2 (Nat.lt_of_succ_lt_succ hlt)

/-- The payload that is found is the leftmost one. -/
theorem payload?_eq_some_iff : payload? w s = some payload ↔ IsLeftmostPayload w payload s := by
  induction s with
  | nil =>
    constructor
    · intro h
      cases h
    · rintro ⟨before, after, hs, hafter, -⟩
      rw [(List.append_eq_nil_iff.1 hs.symm).2] at hafter
      exact absurd hafter not_startsWithPayload_nil
  | cons c cs ih =>
    rw [payload?, Option.or_eq_some_iff, payloadHere?_eq_some_iff, ih, isLeftmostPayload_cons_iff]
    simp only [Option.eq_none_iff_forall_ne_some, ne_eq, payloadHere?_eq_some_iff]

/-! ## Words that open nothing -/

/-- Whether the word stands in a text with an opening parenthesis after it, blanks aside. -/
def opensAfter (w s : List Char) : Bool :=
  s.tails.any fun t => (stripPrefix w t).any fun rest => (trimStart rest).head? == some '('

/-- The places of which `opensAfter` speaks. -/
theorem opensAfter_iff :
    opensAfter w s = true ↔
      ∃ front blanks back, (∀ c ∈ blanks, isBlank c = true) ∧
        s = front ++ (w ++ (blanks ++ '(' :: back)) := by
  simp only [opensAfter, List.any_eq_true, List.mem_tails, Option.any_eq_true, beq_iff_eq,
    stripPrefix_eq_some_iff]
  constructor
  · rintro ⟨_, ⟨front, rfl⟩, rest, rfl, hopen⟩
    have hsplit : rest.takeWhile isBlank ++ trimStart rest = rest :=
      List.takeWhile_append_dropWhile
    obtain ⟨back, hback⟩ := List.head?_eq_some_iff.1 hopen
    rw [hback] at hsplit
    exact ⟨front, _, back, fun c hc => List.mem_takeWhile_imp hc, by rw [hsplit]⟩
  · rintro ⟨front, blanks, back, hblanks, rfl⟩
    refine ⟨_, List.suffix_append front _, _, rfl, ?_⟩
    rw [trimStart_blanks_append hblanks, trimStart, List.dropWhile_cons_of_neg (by decide)]
    rfl

/-- A word that does not occur opens nothing. -/
theorem opensAfter_eq_false_of_contains (h : contains w s = false) : opensAfter w s = false := by
  rw [Bool.eq_false_iff]
  intro hopens
  obtain ⟨front, blanks, back, -, rfl⟩ := opensAfter_iff.1 hopens
  rw [contains_iff.2 ⟨front, blanks ++ '(' :: back, by simp only [List.append_assoc]⟩] at h
  cases h

/-- What comes later and has no parenthesis does not matter. -/
theorem opensAfter_append_of_not_mem {b : List Char} (hb : '(' ∉ b) :
    opensAfter w (s ++ b) = opensAfter w s := by
  rw [Bool.eq_iff_iff, opensAfter_iff, opensAfter_iff]
  constructor
  · rintro ⟨front, blanks, back, hblanks, h⟩
    have hcut : s ++ b = (front ++ (w ++ blanks)) ++ '(' :: back := by
      rw [h]
      simp only [List.append_assoc]
    rcases List.append_eq_append_iff.1 hcut with ⟨_, -, rfl⟩ | ⟨tail, rfl, htail⟩
    · exact absurd (List.mem_append_right _ List.mem_cons_self) hb
    · cases tail with
      | nil =>
        rw [List.nil_append] at htail
        rw [← htail] at hb
        exact absurd List.mem_cons_self hb
      | cons c tail =>
        obtain ⟨rfl, -⟩ := List.cons.inj htail
        exact ⟨front, blanks, tail, hblanks, by simp only [List.append_assoc]⟩
  · rintro ⟨front, blanks, back, hblanks, rfl⟩
    exact ⟨front, blanks, back ++ b, hblanks, by simp only [List.append_assoc, List.cons_append]⟩

/-- A word that opens nothing has no payload. -/
theorem payload?_eq_none (h : opensAfter w s = false) : payload? w s = none := by
  rw [Option.eq_none_iff_forall_ne_some]
  intro a ha
  obtain ⟨before, after, rfl, ⟨blanks, rest, hblanks, -, rfl⟩, -⟩ := payload?_eq_some_iff.1 ha
  rw [opensAfter_iff.2 ⟨before, blanks, a ++ ')' :: rest, hblanks, rfl⟩] at h
  cases h

/-- The payload at the start of a text counts, and so does its lack where the word opens nothing. -/
theorem payload?_eq_payloadHere? (hs : s ≠ [])
    (h : (payloadHere? w s).isSome = true ∨ opensAfter w s = false) :
    payload? w s = payloadHere? w s := by
  cases s with
  | nil => exact absurd rfl hs
  | cons c cs =>
    cases hhere : payloadHere? w (c :: cs) with
    | some a => rw [payload?, hhere, Option.some_or]
    | none =>
      rw [hhere] at h
      exact payload?_eq_none (h.resolve_left (by simp))

/-- A word whose first character does not come again in it, and is no blank and no parenthesis, has
no payload before that character where it opens nothing there. -/
theorem payload?_append_cons_of_fresh {d : Char} {ds a : List Char} (hd : d ∉ ds)
    (hplain : isBlank d = false ∧ d ≠ '(') (ha : opensAfter (d :: ds) a = false) (b : List Char) :
    payload? (d :: ds) (a ++ d :: b) = payload? (d :: ds) (d :: b) := by
  induction a with
  | nil => rfl
  | cons c cs ih =>
    have hhere : payloadHere? (d :: ds) (c :: (cs ++ d :: b)) = none := by
      rw [Option.eq_none_iff_forall_ne_some]
      intro v hv
      obtain ⟨blanks, rest, hblanks, -, heq⟩ := payloadHere?_eq_some_iff.1 hv
      obtain ⟨r, hr⟩ := prefix_of_prefix_append_cons hd (List.cons_ne_nil c cs) ⟨_, heq.symm⟩
      -- The parenthesis comes before that character, too.
      have hcut : r ++ d :: b = blanks ++ '(' :: (v ++ ')' :: rest) := by
        rw [← List.cons_append, ← hr, List.append_assoc] at heq
        exact List.append_cancel_left heq
      rcases List.append_eq_append_iff.1 hcut with ⟨tail, rfl, htail⟩ | ⟨tail, rfl, htail⟩
      · cases tail with
        | nil => exact hplain.2 (List.cons.inj htail).1
        | cons e tail =>
          have hblank := hblanks d (by rw [(List.cons.inj htail).1]; simp)
          rw [hplain.1] at hblank
          cases hblank
      · cases tail with
        | nil => exact hplain.2 (List.cons.inj htail).1.symm
        | cons e tail =>
          obtain ⟨rfl, -⟩ := List.cons.inj htail
          rw [opensAfter_iff.2 ⟨[], blanks, tail, hblanks, hr.symm⟩] at ha
          cases ha
    have hcs : opensAfter (d :: ds) cs = false := by
      rw [opensAfter, List.tails_cons, List.any_cons, Bool.or_eq_false_iff] at ha
      exact ha.2
    rw [List.cons_append, payload?, hhere, Option.none_or, ih hcs]

/-- A word has its payload where it was put, if it does not occur before. -/
theorem payload?_append {d : Char} {ds before blanks after : List Char} (hd : d ∉ ds)
    (hplain : isBlank d = false ∧ d ≠ '(') (hbefore : contains (d :: ds) before = false)
    (hblanks : ∀ c ∈ blanks, isBlank c = true) (hpayload : ')' ∉ payload) :
    payload? (d :: ds)
        (before ++ ((d :: ds) ++ (blanks ++ '(' :: (payload ++ ')' :: after)))) = some payload := by
  have hstart : payloadHere? (d :: ds)
      ((d :: ds) ++ (blanks ++ '(' :: (payload ++ ')' :: after))) = some payload :=
    payloadHere?_eq_some_iff.2 ⟨blanks, after, hblanks, hpayload, rfl⟩
  rw [List.cons_append] at hstart ⊢
  rw [payload?_append_cons_of_fresh hd hplain (opensAfter_eq_false_of_contains hbefore), payload?,
    hstart, Option.some_or]

end ProofHarness.Attribute
