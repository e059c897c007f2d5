import Mathlib.Data.List.Basic
import ProofHarness.Json.Token
import ProofHarness.Json.Value
import ProofHarness.Proofs.Text.Numeral

/-!
# What JSON texts denote

A JSON text consists of signs, that is brackets, commas, colons, strings, numbers and words, with
blanks between them (`Reads`).  A value has its signs in one order (`Value.signs`), and a text
denotes the value whose signs it is read as.

What is written for a value denotes this value and no other one (`denotes_pretty_iff`): the layout
consists of blanks (`reads_render_append`), a text is read in one way only (`Reads.unique`), and no
two values have the same signs (`signs_append_inj`).
-/

set_option autoImplicit false

namespace ProofHarness.Json

open Text

/-! ## Strings -/

/-- What stands between the quotes of a string, and the characters that it stands for.  Control
characters, quotes and backslashes have to be escaped, and other characters may be. -/
inductive Spells : List Char → List Char → Prop
  | nil : Spells [] []
  | plain {c : Char} {lit s : List Char} (hcontrol : isControl c = false) (hquote : c ≠ '\x22')
    (hback : c ≠ '\x5c') (hrest : Spells lit s) : Spells (c :: lit) (c :: s)
  | short {e c : Char} {lit s : List Char} (hc : simpleEscape? e = some c) (hrest : Spells lit s) :
    Spells ('\x5c' :: e :: lit) (c :: s)
  | code {a b d e c : Char} {lit s : List Char}
    (hc : (hexEscape 0 [a, b, d, e]).toOption = some c.toNat) (hrest : Spells lit s) :
    Spells ('\x5c' :: 'u' :: a :: b :: d :: e :: lit) (c :: s)

/-- A string ends at the first quote that is not escaped, and stands for one text only. -/
theorem Spells.unique {lit lit' s s' t t' : List Char} (h : Spells lit s) (h' : Spells lit' s')
    (heq : lit ++ '\x22' :: t = lit' ++ '\x22' :: t') : s = s' ∧ t = t' := by
  have hu : simpleEscape? 'u' = none := by decide
  -- On the first way of spelling. The first character tells which kind comes next, but for the two
  -- kinds of escapes, which the character after the backslash tells apart.
  induction h generalizing lit' s' with
  | nil =>
    cases h' with
    | nil => exact ⟨rfl, (List.cons.inj heq).2⟩
    | plain _ hquote _ _ => exact absurd (List.cons.inj heq).1.symm hquote
    | short _ _ | code _ _ => exact absurd (List.cons.inj heq).1 (by decide)
  | plain hcontrol hquote hback hrest ih =>
    cases h' with
    | nil => exact absurd (List.cons.inj heq).1 hquote
    | plain _ _ _ hrest' =>
      obtain ⟨rfl, hlit⟩ := List.cons.inj heq
      obtain ⟨rfl, ht⟩ := ih hrest' hlit
      exact ⟨rfl, ht⟩
    | short _ _ | code _ _ => exact absurd (List.cons.inj heq).1 hback
  | short hc hrest ih =>
    cases h' with
    | nil => exact absurd (List.cons.inj heq).1 (by decide)
    | plain _ _ hback _ => exact absurd (List.cons.inj heq).1.symm hback
    | short hc' hrest' =>
      obtain ⟨rfl, hlit⟩ := List.cons.inj (List.cons.inj heq).2
      obtain ⟨rfl, ht⟩ := ih hrest' hlit
      rw [hc, Option.some.injEq] at hc'
      exact ⟨by rw [hc'], ht⟩
    | code _ _ =>
      obtain ⟨rfl, -⟩ := List.cons.inj (List.cons.inj heq).2
      rw [hu] at hc
      cases hc
  | code hc hrest ih =>
    cases h' with
    | nil => exact absurd (List.cons.inj heq).1 (by decide)
    | plain _ _ hback _ => exact absurd (List.cons.inj heq).1.symm hback
    | short hc' _ =>
      obtain ⟨rfl, -⟩ := List.cons.inj (List.cons.inj heq).2
      rw [hu] at hc'
      cases hc'
    | code hc' hrest' =>
      simp only [List.cons_append, List.cons.injEq, true_and] at heq
      obtain ⟨rfl, rfl, rfl, rfl, hlit⟩ := heq
      obtain ⟨rfl, ht⟩ := ih hrest' hlit
      rw [hc, Option.some.injEq, Char.toNat_inj] at hc'
      exact ⟨by rw [hc'], ht⟩

/-- Control characters have codes of four digits. -/
theorem fourDigits_of_lt : ∀ n < 0x20, (Value.fourDigits n).length = 4 ∧
    (hexEscape 0 (Value.fourDigits n)).toOption = some n := by
  decide +kernel

/-- A character that has an escape of its own is written with it. -/
theorem exists_quotedChar_eq {c : Char}
    (hmem : c ∈ ['\x22', '\x5c', '\x08', '\x0c', '\n', '\r', '\t']) :
    ∃ e, simpleEscape? e = some c ∧ Value.quotedChar c = ['\x5c', e] := by
  simp only [List.mem_cons, List.not_mem_nil, or_false] at hmem
  obtain rfl | rfl | rfl | rfl | rfl | rfl | rfl := hmem
  exacts [⟨'\x22', rfl, rfl⟩, ⟨'\x5c', rfl, rfl⟩, ⟨'b', rfl, rfl⟩, ⟨'f', rfl, rfl⟩,
    ⟨'n', rfl, rfl⟩, ⟨'r', rfl, rfl⟩, ⟨'t', rfl, rfl⟩]

/-- The way a character is written spells it. -/
theorem spells_quotedChar_append (c : Char) {lit s : List Char} (hrest : Spells lit s) :
    Spells (Value.quotedChar c ++ lit) (c :: s) := by
  by_cases hmem : c ∈ ['\x22', '\x5c', '\x08', '\x0c', '\n', '\r', '\t']
  · obtain ⟨e, he, hquoted⟩ := exists_quotedChar_eq hmem
    rw [hquoted]
    exact .short he hrest
  · simp only [List.mem_cons, List.not_mem_nil, or_false, not_or] at hmem
    obtain ⟨hquote, hback, hescapes⟩ := hmem
    have hquoted : Value.quotedChar c =
        if c.toNat < 0x20 then ['\x5c', 'u'] ++ Value.fourDigits c.toNat else [c] := by
      simp [Value.quotedChar, hquote, hback, hescapes]
    rw [hquoted]
    split
    · next hcontrol =>
      obtain ⟨hlength, hcode⟩ := fourDigits_of_lt c.toNat hcontrol
      obtain ⟨a, b, d, e, hdigits⟩ := List.length_eq_four.1 hlength
      rw [hdigits] at hcode ⊢
      exact .code hcode hrest
    · next hcontrol =>
      exact .plain (by simpa [isControl] using hcontrol) hquote hback hrest

/-- The way a text is written between quotes spells it. -/
theorem spells_flatMap_quotedChar (s : List Char) : Spells (s.flatMap Value.quotedChar) s := by
  induction s with
  | nil => exact .nil
  | cons c s ih =>
    rw [List.flatMap_cons]
    exact spells_quotedChar_append c ih

/-! ## Signs -/

/-- A sign of a JSON text. -/
inductive Sign where
  /-- A bracket, a comma or a colon. -/
  | mark (c : Char)
  /-- One of the three words. -/
  | word (w : List Char)
  | number (n : Nat)
  | string (s : List Char)

/-- A text does not start with a digit. -/
def NoDigit (s : List Char) : Prop := ∀ c, s.head? = some c → c.isDigit = false

/-- A text starts with a sign and goes on with `t`.  No more digits come after a number. -/
def Sign.Starts (s t : List Char) : Sign → Prop
  | .mark c => c ∈ ['[', ']', '\x7b', '\x7d', ',', ':'] ∧ s = c :: t
  | .word w => w ∈ ["null", "true", "false"].map String.toList ∧ s = w ++ t
  | .number n => s = Nat.toDigits 10 n ++ t ∧ NoDigit t
  | .string x => ∃ lit, Spells lit x ∧ s = '\x22' :: (lit ++ '\x22' :: t)

/-- A text consists of signs, one after the other, and blanks. -/
inductive Reads : List Char → List Sign → Prop
  | nil : Reads [] []
  | space {c : Char} {s : List Char} {xs : List Sign} (hc : isSpace c = true) (hrest : Reads s xs) :
    Reads (c :: s) xs
  | sign {s t : List Char} {x : Sign} {xs : List Sign} (hx : x.Starts s t) (hrest : Reads t xs) :
    Reads s (x :: xs)

/-- What a character can start: a mark, a word, a number, a string, or nothing. -/
def startKind (c : Char) : Nat :=
  if c ∈ ['[', ']', '\x7b', '\x7d', ',', ':'] then 0
  else if c ∈ ['n', 't', 'f'] then 1
  else if c.isDigit then 2
  else if c = '\x22' then 3
  else 4

/-- The kind of a sign. -/
def Sign.kind : Sign → Nat
  | .mark _ => 0
  | .word _ => 1
  | .number _ => 2
  | .string _ => 3

/-- The first character tells what kind of sign comes. -/
theorem Sign.Starts.exists_startKind {s t : List Char} {x : Sign} (h : x.Starts s t) :
    ∃ c cs, s = c :: cs ∧ startKind c = x.kind := by
  cases x with
  | mark c =>
    obtain ⟨hc, rfl⟩ := h
    exact ⟨c, t, rfl, if_pos hc⟩
  | word w =>
    obtain ⟨hw, rfl⟩ := h
    simp only [List.map_cons, List.map_nil, List.mem_cons, List.not_mem_nil, or_false] at hw
    rcases hw with rfl | rfl | rfl
    · exact ⟨'n', _, rfl, rfl⟩
    · exact ⟨'t', _, rfl, rfl⟩
    · exact ⟨'f', _, rfl, rfl⟩
  | number n =>
    obtain ⟨rfl, -⟩ := h
    have hkind : ∀ c : Char, c.isDigit = true → startKind c = 2 := by
      intro c hc
      have hne : ∀ d : Char, d.isDigit = false → c ≠ d := by
        rintro d hd rfl
        rw [hc] at hd
        cases hd
      have hmark : c ∉ ['[', ']', '\x7b', '\x7d', ',', ':'] := by
        simp [hne]
      have hword : c ∉ ['n', 't', 'f'] := by simp [hne]
      rw [startKind, if_neg hmark, if_neg hword, if_pos hc]
    cases hdigits : Nat.toDigits 10 n with
    | nil => exact absurd hdigits Nat.toDigits_ne_nil
    | cons c cs =>
      have hc : c ∈ Nat.toDigits 10 n := by rw [hdigits]; exact List.mem_cons_self
      exact ⟨c, _, rfl, hkind c (Nat.isDigit_of_mem_toDigits (by decide) (by decide) hc)⟩
  | string x =>
    obtain ⟨lit, -, rfl⟩ := h
    exact ⟨'\x22', _, rfl, rfl⟩

/-- The words differ in their first characters. -/
theorem words_unique {w w' t u : List Char}
    (hw : w ∈ ["null", "true", "false"].map String.toList)
    (hw' : w' ∈ ["null", "true", "false"].map String.toList) (h : w ++ t = w' ++ u) : w = w' := by
  have hheads : ∀ v ∈ ["null", "true", "false"].map String.toList,
      ∀ v' ∈ ["null", "true", "false"].map String.toList, v.head? = v'.head? → v = v' := by decide
  have hne : ∀ v ∈ ["null", "true", "false"].map String.toList, v ≠ [] := by decide
  have hhead := congrArg List.head? h
  rw [List.head?_append_of_ne_nil _ (hne w hw), List.head?_append_of_ne_nil _ (hne w' hw')] at hhead
  exact hheads w hw w' hw' hhead

/-- A number ends where no more digits come. -/
theorem digits_unique {n m : Nat} {t u : List Char} (ht : NoDigit t) (hu : NoDigit u)
    (h : Nat.toDigits 10 n ++ t = Nat.toDigits 10 m ++ u) : n = m ∧ t = u := by
  -- Each side has the longest run of digits that the text starts with.
  have hrun : ∀ {k : Nat} {r : List Char}, NoDigit r →
      (Nat.toDigits 10 k ++ r).takeWhile Char.isDigit = Nat.toDigits 10 k := by
    intro k r hr
    have hall : ∀ c ∈ Nat.toDigits 10 k, c.isDigit = true := fun c hc =>
      Nat.isDigit_of_mem_toDigits (by decide) (by decide) hc
    have hstop : r.takeWhile Char.isDigit = [] := by
      cases r with
      | nil => rfl
      | cons c cs => rw [List.takeWhile_cons, hr c rfl]; rfl
    rw [List.takeWhile_append_of_pos hall, hstop, List.append_nil]
  have hdigits : Nat.toDigits 10 n = Nat.toDigits 10 m := by
    rw [← hrun ht, h, hrun hu]
  have hvalue := congrArg (fun ds => Nat.ofDigitChars 10 ds 0) hdigits
  simp only [Nat.ofDigitChars_toDigits (b := 10) (by decide) (by decide)] at hvalue
  rw [hdigits] at h
  exact ⟨hvalue, List.append_cancel_left h⟩

/-- A sign that a text starts with is the only one. -/
theorem Sign.Starts.unique {s t u : List Char} {x y : Sign} (hx : x.Starts s t)
    (hy : y.Starts s u) : x = y ∧ t = u := by
  obtain ⟨c, cs, hs, hkind⟩ := hx.exists_startKind
  obtain ⟨c', cs', hs', hkind'⟩ := hy.exists_startKind
  have hsame : x.kind = y.kind := by
    obtain ⟨rfl, -⟩ := List.cons.inj (hs.symm.trans hs')
    exact hkind.symm.trans hkind'
  -- Two signs of different kinds cannot start the same text.
  cases x <;> cases y <;> try cases hsame
  case mark.mark =>
    obtain ⟨-, hx⟩ := hx
    obtain ⟨-, hy⟩ := hy
    obtain ⟨rfl, rfl⟩ := List.cons.inj (hx.symm.trans hy)
    exact ⟨rfl, rfl⟩
  case word.word w w' =>
    obtain ⟨hw, hx⟩ := hx
    obtain ⟨hw', hy⟩ := hy
    have heq : w ++ t = w' ++ u := hx.symm.trans hy
    have hwords : w = w' := words_unique hw hw' heq
    subst hwords
    exact ⟨rfl, List.append_cancel_left heq⟩
  case number.number n m =>
    obtain ⟨hx, ht⟩ := hx
    obtain ⟨hy, hu⟩ := hy
    have heq : Nat.toDigits 10 n ++ t = Nat.toDigits 10 m ++ u := hx.symm.trans hy
    obtain ⟨hdigits, htail⟩ := digits_unique ht hu heq
    exact ⟨by rw [hdigits], htail⟩
  case string.string x y =>
    obtain ⟨lit, hlit, hx⟩ := hx
    obtain ⟨lit', hlit', hy⟩ := hy
    have heq : lit ++ '\x22' :: t = lit' ++ '\x22' :: u := (List.cons.inj (hx.symm.trans hy)).2
    obtain ⟨rfl, rfl⟩ := hlit.unique hlit' heq
    exact ⟨rfl, rfl⟩

/-- No sign starts with a blank. -/
theorem startKind_of_isSpace {c : Char} (hc : isSpace c = true) : startKind c ∉ [0, 1, 2, 3] := by
  simp only [isSpace, Bool.or_eq_true, beq_iff_eq] at hc
  rcases hc with ((rfl | rfl) | rfl) | rfl <;> decide

/-- A text is read in one way only. -/
theorem Reads.unique {s : List Char} {xs ys : List Sign} (h : Reads s xs) (h' : Reads s ys) :
    xs = ys := by
  -- At each place a blank is skipped or a sign is taken, and never both.
  have hspace : ∀ {c : Char} {s t : List Char} {x : Sign}, isSpace c = true →
      ¬x.Starts (c :: s) t := by
    intro c s t x hc hx
    obtain ⟨d, ds, hs, hkind⟩ := hx.exists_startKind
    obtain ⟨rfl, -⟩ := List.cons.inj hs
    have hkind' : startKind c ∉ [0, 1, 2, 3] := startKind_of_isSpace hc
    rw [hkind] at hkind'
    cases x <;> exact hkind' (by simp [Sign.kind])
  have hempty : ∀ {t : List Char} {x : Sign}, ¬x.Starts [] t := by
    intro t x hx
    obtain ⟨d, ds, hs, -⟩ := hx.exists_startKind
    cases hs
  induction h generalizing ys with
  | nil =>
    cases h' with
    | nil => rfl
    | sign hx _ => exact absurd hx hempty
  | space hc _ ih =>
    cases h' with
    | space _ hrest => exact ih hrest
    | sign hx _ => exact absurd hx (hspace hc)
  | sign hx _ ih =>
    cases h' with
    | nil => exact absurd hx hempty
    | space hc _ => exact absurd hx (hspace hc)
    | sign hy hrest =>
      obtain ⟨rfl, rfl⟩ := hx.unique hy
      rw [ih hrest]

/-! ## Values -/

mutual

/-- The signs of a value. -/
def Value.signs : Value → List Sign
  | .null => [.word "null".toList]
  | .bool b => [.word (if b then "true" else "false").toList]
  | .number n => [.number n]
  | .string s => [.string s.toList]
  | .list vs => .mark '[' :: (memberSigns vs ++ [.mark ']'])
  | .object ms => .mark '\x7b' :: (fieldSigns ms ++ [.mark '\x7d'])

/-- The signs of the members of a list. -/
def Value.memberSigns : List Value → List Sign
  | [] => []
  | [v] => v.signs
  | v :: w :: vs => v.signs ++ .mark ',' :: memberSigns (w :: vs)

/-- The signs of the members of an object. -/
def Value.fieldSigns : List (String × Value) → List Sign
  | [] => []
  | [(key, v)] => .string key.toList :: .mark ':' :: v.signs
  | (key, v) :: m :: ms =>
    .string key.toList :: .mark ':' :: (v.signs ++ .mark ',' :: fieldSigns (m :: ms))

end

/-- A text denotes a value if it is read as the signs of the value. -/
def Denotes (text : String) (v : Value) : Prop := Reads text.toList v.signs

namespace Value

/-- The mark after a member: the end of the members, or a comma. -/
theorem memberSigns_cons_append (v : Value) (vs : List Value) (r : List Sign) :
    memberSigns (v :: vs) ++ .mark ']' :: r =
      v.signs ++ match vs with
        | [] => .mark ']' :: r
        | w :: ws => .mark ',' :: (memberSigns (w :: ws) ++ .mark ']' :: r) := by
  cases vs with
  | nil => rw [memberSigns]
  | cons w ws => rw [memberSigns, List.append_assoc, List.cons_append]

/-- The mark after a member of an object: the end of the members, or a comma. -/
theorem fieldSigns_cons_append (key : String) (v : Value) (ms : List (String × Value))
    (r : List Sign) :
    fieldSigns ((key, v) :: ms) ++ .mark '\x7d' :: r =
      .string key.toList :: .mark ':' :: (v.signs ++ match ms with
        | [] => .mark '\x7d' :: r
        | m :: ms => .mark ',' :: (fieldSigns (m :: ms) ++ .mark '\x7d' :: r)) := by
  cases ms with
  | nil => rw [fieldSigns, List.cons_append, List.cons_append]
  | cons m ms =>
    rw [fieldSigns, List.cons_append, List.cons_append, List.append_assoc, List.cons_append]

/-- No value starts with the end of a list. -/
theorem signs_append_ne (v : Value) (r r' : List Sign) : v.signs ++ r ≠ .mark ']' :: r' := by
  cases v <;> simp [signs]

/-- The kind of a value. -/
def kind : Value → Nat
  | .null => 0
  | .bool _ => 1
  | .number _ => 2
  | .string _ => 3
  | .list _ => 4
  | .object _ => 5

/-- The first sign of a value tells its kind. -/
theorem kind_eq_of_signs_append {v w : Value} {r r' : List Sign}
    (h : v.signs ++ r = w.signs ++ r') : v.kind = w.kind := by
  have hword : ∀ b : Bool, (if b then "true" else "false").toList ≠ "null".toList := by decide
  cases v <;> cases w <;> try rfl
  case null.bool b => exact absurd (Sign.word.inj (List.cons.inj h).1).symm (hword b)
  case bool.null b => exact absurd (Sign.word.inj (List.cons.inj h).1) (hword b)
  all_goals cases (List.cons.inj h).1

mutual

/-- The signs of a value tell where it ends and which one it is. -/
theorem signs_append_inj : ∀ (v w : Value) {r r' : List Sign},
    v.signs ++ r = w.signs ++ r' → v = w ∧ r = r'
  | .null, w, r, r', h => by
    -- Here and below, a value of another kind is ruled out first.
    have hkind := kind_eq_of_signs_append h
    cases w <;> try cases hkind
    exact ⟨rfl, (List.cons.inj h).2⟩
  | .bool b, w, r, r', h => by
    have hkind := kind_eq_of_signs_append h
    cases w <;> try cases hkind
    next b' =>
    have hword : b = b' := by cases b <;> cases b' <;> simp [signs] at h ⊢
    subst hword
    exact ⟨rfl, (List.cons.inj h).2⟩
  | .number n, w, r, r', h => by
    have hkind := kind_eq_of_signs_append h
    cases w <;> try cases hkind
    simp only [signs, List.cons_append, List.nil_append, List.cons.injEq, Sign.number.injEq] at h
    exact ⟨by rw [h.1], h.2⟩
  | .string s, w, r, r', h => by
    have hkind := kind_eq_of_signs_append h
    cases w <;> try cases hkind
    simp only [signs, List.cons_append, List.nil_append, List.cons.injEq, Sign.string.injEq,
      String.toList_inj] at h
    exact ⟨by rw [h.1], h.2⟩
  | .list vs, w, r, r', h => by
    have hkind := kind_eq_of_signs_append h
    cases w <;> try cases hkind
    next ws =>
    simp only [signs, List.cons_append, List.append_assoc, List.nil_append, List.cons.injEq,
      true_and] at h
    obtain ⟨rfl, hr⟩ := memberSigns_append_inj vs ws h
    exact ⟨rfl, hr⟩
  | .object ms, w, r, r', h => by
    have hkind := kind_eq_of_signs_append h
    cases w <;> try cases hkind
    next ns =>
    simp only [signs, List.cons_append, List.append_assoc, List.nil_append, List.cons.injEq,
      true_and] at h
    obtain ⟨rfl, hr⟩ := fieldSigns_append_inj ms ns h
    exact ⟨rfl, hr⟩

/-- So do those of the members of a list, where the end of the list comes after them. -/
theorem memberSigns_append_inj : ∀ (vs ws : List Value) {r r' : List Sign},
    memberSigns vs ++ .mark ']' :: r = memberSigns ws ++ .mark ']' :: r' → vs = ws ∧ r = r'
  | [], [], r, r', h => ⟨rfl, (List.cons.inj h).2⟩
  | [], w :: ws, r, r', h => by
    rw [memberSigns_cons_append] at h
    exact absurd h.symm (signs_append_ne w _ _)
  | v :: vs, [], r, r', h => by
    rw [memberSigns_cons_append] at h
    exact absurd h (signs_append_ne v _ _)
  | v :: vs, w :: ws, r, r', h => by
    rw [memberSigns_cons_append, memberSigns_cons_append] at h
    obtain ⟨rfl, htail⟩ := signs_append_inj v w h
    -- After a member comes a comma or the end; these are different signs.
    cases vs with
    | nil =>
      cases ws with
      | nil => exact ⟨rfl, (List.cons.inj htail).2⟩
      | cons => simp at htail
    | cons v' vs =>
      cases ws with
      | nil => simp at htail
      | cons w' ws =>
        obtain ⟨hmembers, hr⟩ :=
          memberSigns_append_inj (v' :: vs) (w' :: ws) (List.cons.inj htail).2
        exact ⟨by rw [hmembers], hr⟩

/-- So do those of the members of an object, where the end of the object comes after them. -/
theorem fieldSigns_append_inj : ∀ (ms ns : List (String × Value)) {r r' : List Sign},
    fieldSigns ms ++ .mark '\x7d' :: r = fieldSigns ns ++ .mark '\x7d' :: r' → ms = ns ∧ r = r'
  | [], [], r, r', h => ⟨rfl, (List.cons.inj h).2⟩
  | [], (key, w) :: ns, r, r', h => by
    rw [fieldSigns_cons_append] at h
    cases (List.cons.inj h).1
  | (key, v) :: ms, [], r, r', h => by
    rw [fieldSigns_cons_append] at h
    cases (List.cons.inj h).1
  | (key, v) :: ms, (key', w) :: ns, r, r', h => by
    rw [fieldSigns_cons_append, fieldSigns_cons_append] at h
    simp only [List.cons.injEq, Sign.string.injEq, String.toList_inj, true_and] at h
    obtain ⟨rfl, h⟩ := h
    obtain ⟨rfl, htail⟩ := signs_append_inj v w h
    cases ms with
    | nil =>
      cases ns with
      | nil => exact ⟨rfl, (List.cons.inj htail).2⟩
      | cons => simp at htail
    | cons m ms =>
      cases ns with
      | nil => simp at htail
      | cons n ns =>
        obtain ⟨hmembers, hr⟩ := fieldSigns_append_inj (m :: ms) (n :: ns) (List.cons.inj htail).2
        exact ⟨by rw [hmembers], hr⟩

end

/-- No two values have the same signs. -/
theorem signs_inj {v w : Value} (h : v.signs = w.signs) : v = w := by
  have happend : v.signs ++ [] = w.signs ++ [] := by rw [h]
  exact (signs_append_inj v w happend).1

/-! ## What is written -/

/-- A line break consists of blanks. -/
theorem reads_lineBreak_append (level : Nat) {s : List Char} {xs : List Sign} (h : Reads s xs) :
    Reads ((lineBreak level).toList ++ s) xs := by
  have hblanks : ∀ n, Reads (List.replicate n ' ' ++ s) xs := by
    intro n
    induction n with
    | zero => exact h
    | succ n ih => exact .space rfl ih
  rw [lineBreak, String.toList_ofList]
  exact .space rfl (hblanks _)

/-- An empty text does not start with a digit. -/
theorem noDigit_nil : NoDigit [] := by simp [NoDigit]

/-- Nor does a text with a comma in front. -/
theorem noDigit_comma {s : List Char} : NoDigit (',' :: s) := by simp [NoDigit]

/-- A line break does not start with a digit. -/
theorem noDigit_lineBreak (level : Nat) {s : List Char} :
    NoDigit ((lineBreak level).toList ++ s) := by
  intro c hc
  rw [lineBreak, String.toList_ofList, List.cons_append, List.head?_cons, Option.some.injEq] at hc
  subst hc
  decide

/-- A text in quotes is one sign. -/
theorem reads_quoted_append (text : String) {s : List Char} {xs : List Sign} (h : Reads s xs) :
    Reads ((quoted text).toList ++ s) (.string text.toList :: xs) := by
  refine .sign ⟨_, spells_flatMap_quotedChar text.toList, ?_⟩ h
  simp [quoted]

mutual

/-- What is written for a value is read as its signs, where no digit comes after it. -/
theorem reads_render_append : ∀ (level : Nat) (v : Value) {s : List Char} {xs : List Sign},
    NoDigit s → Reads s xs → Reads ((render level v).toList ++ s) (v.signs ++ xs)
  | level, .null, s, xs, hs, h => by
    rw [render, signs]
    exact .sign ⟨by decide, rfl⟩ h
  | level, .bool b, s, xs, hs, h => by
    rw [render, signs]
    cases b <;> exact .sign ⟨by decide, rfl⟩ h
  | level, .number n, s, xs, hs, h => by
    rw [render, signs, Text.toList_numeral]
    exact .sign ⟨rfl, hs⟩ h
  | level, .string text, s, xs, hs, h => by
    rw [render, signs]
    exact reads_quoted_append text h
  | level, .list [], s, xs, hs, h => by
    rw [render, signs, memberSigns]
    exact .sign (t := ']' :: s) ⟨by decide, rfl⟩ (.sign ⟨by decide, rfl⟩ h)
  | level, .list (v :: vs), s, xs, hs, h => by
    -- A line break comes after the members, so that a number there ends.
    have hend : Reads (']' :: s) (.mark ']' :: xs) := .sign ⟨by decide, rfl⟩ h
    have hmembers := reads_renderMembers_append (level + 1) (v :: vs) (noDigit_lineBreak level)
      (reads_lineBreak_append level hend)
    rw [render, signs]
    simp only [String.toList_append, List.append_assoc, List.cons_append, List.nil_append]
    exact .sign ⟨by decide, rfl⟩ hmembers
  | level, .object [], s, xs, hs, h => by
    rw [render, signs, fieldSigns]
    exact .sign (t := '\x7d' :: s) ⟨by decide, rfl⟩ (.sign ⟨by decide, rfl⟩ h)
  | level, .object (m :: ms), s, xs, hs, h => by
    have hend : Reads ('\x7d' :: s) (.mark '\x7d' :: xs) := .sign ⟨by decide, rfl⟩ h
    have hfields := reads_renderFields_append (level + 1) (m :: ms) (noDigit_lineBreak level)
      (reads_lineBreak_append level hend)
    rw [render, signs]
    simp only [String.toList_append, List.append_assoc, List.cons_append, List.nil_append]
    exact .sign ⟨by decide, rfl⟩ hfields

/-- What is written for members is read as theirs. -/
theorem reads_renderMembers_append : ∀ (level : Nat) (vs : List Value) {s : List Char}
    {xs : List Sign}, NoDigit s → Reads s xs →
      Reads ((renderMembers level vs).toList ++ s) (memberSigns vs ++ xs)
  | level, [], s, xs, hs, h => h
  | level, [v], s, xs, hs, h => by
    rw [renderMembers, memberSigns, String.toList_append, List.append_assoc]
    exact reads_lineBreak_append level (reads_render_append level v hs h)
  | level, v :: w :: vs, s, xs, hs, h => by
    have hrest : Reads (',' :: ((renderMembers level (w :: vs)).toList ++ s))
        (.mark ',' :: (memberSigns (w :: vs) ++ xs)) :=
      .sign ⟨by decide, rfl⟩ (reads_renderMembers_append level (w :: vs) hs h)
    rw [renderMembers, memberSigns]
    simp only [String.toList_append, List.append_assoc, List.cons_append]
    exact reads_lineBreak_append level (reads_render_append level v noDigit_comma hrest)

/-- What is written for the members of an object is read as theirs. -/
theorem reads_renderFields_append : ∀ (level : Nat) (ms : List (String × Value)) {s : List Char}
    {xs : List Sign}, NoDigit s → Reads s xs →
      Reads ((renderFields level ms).toList ++ s) (fieldSigns ms ++ xs)
  | level, [], s, xs, hs, h => h
  | level, [(key, v)], s, xs, hs, h => by
    have hvalue : Reads (':' :: ' ' :: ((render level v).toList ++ s))
        (.mark ':' :: (v.signs ++ xs)) :=
      .sign ⟨by decide, rfl⟩ (.space rfl (reads_render_append level v hs h))
    rw [renderFields, fieldSigns]
    simp only [String.toList_append, List.append_assoc, List.cons_append]
    exact reads_lineBreak_append level (reads_quoted_append key hvalue)
  | level, (key, v) :: m :: ms, s, xs, hs, h => by
    have hrest : Reads (',' :: ((renderFields level (m :: ms)).toList ++ s))
        (.mark ',' :: (fieldSigns (m :: ms) ++ xs)) :=
      .sign ⟨by decide, rfl⟩ (reads_renderFields_append level (m :: ms) hs h)
    have hvalue : Reads (':' :: ' ' :: ((render level v).toList ++
        ',' :: ((renderFields level (m :: ms)).toList ++ s)))
        (.mark ':' :: (v.signs ++ .mark ',' :: (fieldSigns (m :: ms) ++ xs))) :=
      .sign ⟨by decide, rfl⟩ (.space rfl (reads_render_append level v noDigit_comma hrest))
    rw [renderFields, fieldSigns]
    simp only [String.toList_append, List.append_assoc, List.cons_append]
    exact reads_lineBreak_append level (reads_quoted_append key hvalue)

end

/-- What is written for a value is read as its signs. -/
theorem reads_pretty (v : Value) : Reads (pretty v).toList v.signs := by
  have h := reads_render_append 0 v (s := []) noDigit_nil .nil
  rwa [List.append_nil, List.append_nil] at h

end Value

/-- What is written for a value denotes this value and no other one. -/
theorem denotes_pretty_iff {v w : Value} : Denotes v.pretty w ↔ w = v := by
  constructor
  · intro h
    exact Value.signs_inj (h.unique v.reads_pretty)
  · rintro rfl
    exact w.reads_pretty

end ProofHarness.Json
