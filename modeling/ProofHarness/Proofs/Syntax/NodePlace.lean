import ProofHarness.Proofs.Lexical.TokenPlace
import ProofHarness.Proofs.Syntax.Preorder
import ProofHarness.Syntax.Source

/-!
# Where the nodes of a tree stand

`Segment.StandsIn` says of the stretch of a name what can be relied on in a tree of a text: it is
one token on one line, it ends on the row whose number is the number of line feeds before its end,
and its line is the line around its start.  The names in the tree of every source text are such
stretches (`namesStandIn_ofSource`): each comes from a token, and joining pieces makes no other
names.

Of a stretch of any length, `Segment.StartsIn` says that it is what a text says from some place on
and that its line is the line around that place.  This holds of all stretches that the tree of a
source text keeps (`stretchesStartIn_ofSource`), as each of them starts with a token.
-/

set_option autoImplicit false

namespace ProofHarness.Syntax

open Text Lexical

/-- The segment is the token between two parts of a text, the former of which is given backwards,
and the token is on one line. -/
structure Segment.StandsBetween (g : Segment) (before token after : List Char) : Prop where
  text : g.text = String.ofList token
  line : g.line = String.ofList (lineAround before (token ++ after))
  stopRow : g.stop.row = (token.reverse ++ before).count '\n'
  oneLine : '\n' ∉ token

/-- The segment is a token of a text. -/
def Segment.StandsIn (s : List Char) (g : Segment) : Prop :=
  ∃ before token after, s = before.reverse ++ token ++ after ∧ g.StandsBetween before token after

/-- A token that is a word gives a segment that stands in the text of the token. -/
theorem Segment.standsIn_ofToken {s : List Char} {t : Token} (ht : t.PlacedIn s)
    (hword : t.kind = .word) : (Segment.ofToken t).StandsIn s := by
  refine ⟨t.before, t.text, t.after, ht.text, rfl, rfl, ?_, ht.word hword⟩
  rw [Segment.ofToken, stopOf, ht.start, Position.foldl_next_after, Position.row_after]

/-- The segment is what a text says from some place on, and its line is the line around that place.
-/
def Segment.StartsIn (s : List Char) (g : Segment) : Prop :=
  ∃ before after, s = before.reverse ++ after ∧ g.text.toList <+: after ∧ g.start = .after before ∧
    g.line = String.ofList (lineAround before after)

/-- A stretch that begins with a token starts where the token stands. -/
theorem Segment.startsIn_of_first {s : List Char} {t : Token} (ht : t.PlacedIn s) {g : Segment}
    (htext : g.text.toList <+: t.text ++ t.after) (hstart : g.start = t.start)
    (hline : g.line = lineOf t) : g.StartsIn s := by
  refine ⟨t.before, t.text ++ t.after, ?_, htext, ?_, hline⟩
  · rw [← List.append_assoc]
    exact ht.text
  · rw [hstart, ht.start]

/-- So does the stretch of one token. -/
theorem Segment.startsIn_ofToken {s : List Char} {t : Token} (ht : t.PlacedIn s) :
    (Segment.ofToken t).StartsIn s := by
  refine startsIn_of_first ht ?_ rfl rfl
  rw [ofToken, String.toList_ofList]
  exact List.prefix_append t.text t.after

/-- So does the stretch from one token to another. -/
theorem Segment.startsIn_between {s : List Char} {first : Token} (hfirst : first.PlacedIn s)
    (last : Token) : (Segment.between first last).StartsIn s := by
  refine startsIn_of_first hfirst ?_ rfl rfl
  rw [between, String.toList_ofList]
  exact List.take_prefix _ _

namespace Node

/-- The stretches that a tree keeps of a node: its own if it is an attribute, a function or a
module, and that of its name. -/
def stretches (n : Node) : List Segment :=
  (if n.isAttribute || n.isFunction || n.isModule then [n.here] else []) ++ n.name.toList

/-- A node of another kind without a name has no stretches. -/
@[simp] theorem stretches_other {kind : String} {here : Segment} {children : List Node} :
    (mk (.other kind) here none children).stretches = [] := rfl

/-- The names in a tree stand in a text. -/
def NamesStandIn (s : List Char) (root : Node) : Prop :=
  ∀ n ∈ root.preorder, ∀ g, n.name = some g → g.StandsIn s

/-- All stretches that a tree keeps start in a text. -/
def StretchesStartIn (s : List Char) (root : Node) : Prop :=
  ∀ n ∈ root.preorder, ∀ g ∈ n.stretches, g.StartsIn s

variable {s : List Char} {kind : Kind} {here : Segment} {name : Option Segment}
  {children : List Node}

/-- The nodes of a tree are its root and those of its children. -/
theorem forall_mem_preorder_mk {P : Node → Prop} :
    (∀ m ∈ (mk kind here name children).preorder, P m) ↔
      P (mk kind here name children) ∧ ∀ n ∈ children, ∀ m ∈ n.preorder, P m := by
  rw [preorder_eq_cons, List.forall_mem_cons, Node.children]
  refine and_congr_right fun _ => ?_
  constructor
  · intro h n hn m hm
    exact h m (mem_preorderAll_iff.2 ⟨n, hn, hm⟩)
  · intro h m hm
    obtain ⟨n, hn, hm⟩ := mem_preorderAll_iff.1 hm
    exact h n hn m hm

/-- The names of a tree are that of its root and those of its children. -/
theorem namesStandIn_mk : (mk kind here name children).NamesStandIn s ↔
    (∀ g, name = some g → g.StandsIn s) ∧ ∀ n ∈ children, n.NamesStandIn s :=
  forall_mem_preorder_mk

/-- So are its stretches. -/
theorem stretchesStartIn_mk : (mk kind here name children).StretchesStartIn s ↔
    (∀ g ∈ (mk kind here name children).stretches, g.StartsIn s) ∧
      ∀ n ∈ children, n.StretchesStartIn s :=
  forall_mem_preorder_mk

/-- The stretches of a node start in a text if its first token stands there and its name starts
there. -/
theorem startsIn_of_mem_stretches {first last : Token} (hfirst : first.PlacedIn s)
    (hname : ∀ g, name = some g → g.StartsIn s) :
    ∀ g ∈ (mk kind (.ofKind kind first last) name children).stretches, g.StartsIn s := by
  intro g hg
  rw [stretches, List.mem_append] at hg
  rcases hg with hg | hg
  · split at hg
    · next h =>
      have hkind : (kind = .attribute ∨ kind = .function) ∨ kind = .module := by
        simpa [isAttribute, isFunction, isModule, Node.kind] using h
      rw [List.mem_singleton.1 hg]
      rcases hkind with (rfl | rfl) | rfl <;> exact Segment.startsIn_between hfirst last
    · cases hg
  · exact hname g (Option.mem_toList.1 hg)

end Node

/-! ## Pieces -/

namespace Piece

/-- The names and stretches in the node of a piece are where they should be in a text, and so are
the piece's first token and, if the piece can be a name, the piece. -/
structure Sound (s : List Char) (p : Piece) : Prop where
  names : p.node.NamesStandIn s
  stretches : p.node.StretchesStartIn s
  first : p.first.PlacedIn s
  word : ∀ w, p.role = .word w → (Segment.ofToken p.first).StandsIn s

variable {s : List Char}

/-- A sound piece that is a word can be a name. -/
theorem Sound.name {p : Piece} (h : p.Sound s) {w : List Char} (hword : p.role = .word w) :
    ∀ g, some (Segment.ofToken p.first) = some g → g.StandsIn s ∧ g.StartsIn s := by
  rintro g ⟨⟩
  exact ⟨h.word w hword, Segment.startsIn_ofToken h.first⟩

/-- A token is a sound piece. -/
theorem sound_ofToken {t : Token} (ht : t.PlacedIn s) : (Piece.ofToken t).Sound s := by
  constructor
  · rw [Piece.ofToken, Node.namesStandIn_mk]
    simp
  · rw [Piece.ofToken, Node.stretchesStartIn_mk]
    exact ⟨Node.startsIn_of_mem_stretches ht (by simp), by simp⟩
  · exact ht
  · intro w hw
    apply Segment.standsIn_ofToken ht
    cases hkind : t.kind <;> simp [Piece.ofToken, roleOf, hkind] at hw ⊢

/-- A piece that is built of sound ones is sound if its name stands in the text; it cannot be a
name itself. -/
theorem sound_build {role : Role} (hrole : ∀ w, role ≠ .word w) (kind : Kind) {first : Token}
    (hfirst : first.PlacedIn s) (last : Token) {name : Option Segment}
    (hname : ∀ g, name = some g → g.StandsIn s ∧ g.StartsIn s) {children : List Piece}
    (hchildren : ∀ p ∈ children, p.Sound s) :
    (Piece.build role kind first last name children).Sound s := by
  constructor
  · rw [Piece.build, Node.namesStandIn_mk, List.forall_mem_map]
    exact ⟨fun g hg => (hname g hg).1, fun p hp => (hchildren p hp).names⟩
  · rw [Piece.build, Node.stretchesStartIn_mk, List.forall_mem_map]
    exact ⟨Node.startsIn_of_mem_stretches hfirst fun g hg => (hname g hg).2,
      fun p hp => (hchildren p hp).stretches⟩
  · exact hfirst
  · intro w hw
    exact absurd hw (hrole w)

/-- A piece without name and children is sound. -/
theorem sound_build_leaf {role : Role} (hrole : ∀ w, role ≠ .word w) (kind : Kind) {first : Token}
    (hfirst : first.PlacedIn s) (last : Token) :
    (Piece.build role kind first last none []).Sound s :=
  sound_build hrole kind hfirst last (by simp) (by simp)

/-- An item with one more token in front of it has the name and the children that it had. -/
theorem sound_extended {item qualifier : Piece} (h : item.Sound s)
    (hqualifier : qualifier.Sound s) : (qualifier.extended item).Sound s := by
  obtain ⟨role, first, last, ⟨kind, here, name, children⟩⟩ := item
  obtain ⟨hname, hnames⟩ := Node.namesStandIn_mk.1 h.names
  obtain ⟨hstretch, hstretches⟩ := Node.stretchesStartIn_mk.1 h.stretches
  constructor
  · exact Node.namesStandIn_mk.2 ⟨hname, hnames⟩
  · refine Node.stretchesStartIn_mk.2 ⟨?_, hstretches⟩
    apply Node.startsIn_of_mem_stretches hqualifier.first
    intro g hg
    exact hstretch g (List.mem_append_right _ (Option.mem_toList.2 hg))
  · exact hqualifier.first
  · intro w hw
    cases hw

end Piece

/-- All of some pieces are sound. -/
def AllSound (s : List Char) (ps : List Piece) : Prop := ∀ p ∈ ps, p.Sound s

namespace AllSound

variable {s : List Char} {ps : List Piece}

/-- Pieces are sound one by one. -/
theorem cons_iff {p : Piece} : AllSound s (p :: ps) ↔ p.Sound s ∧ AllSound s ps :=
  List.forall_mem_cons

/-- So they are after the comments in front. -/
theorem pastComments (h : AllSound s ps) : AllSound s (pastComments ps) := by
  intro p hp
  exact h p ((List.dropWhile_suffix _).subset hp)

/-- What comes first after any comments is sound, and so is what follows it. -/
theorem of_pastComments (h : AllSound s ps) {q : Piece} {rest : List Piece}
    (hpast : Syntax.pastComments ps = q :: rest) : q.Sound s ∧ AllSound s rest := by
  rw [← cons_iff, ← hpast]
  exact h.pastComments

/-- So they are after some of them. -/
theorem drop (h : AllSound s ps) (n : Nat) : AllSound s (ps.drop n) := by
  intro p hp
  exact h p (List.mem_of_mem_drop hp)

/-- So they are where nothing is joined. -/
theorem getD (h : AllSound s ps) {joined : Option (List Piece)}
    (hjoined : ∀ qs, joined = some qs → AllSound s qs) : AllSound s (joined.getD ps) := by
  cases joined with
  | none => exact h
  | some qs => exact hjoined qs rfl

end AllSound

/-! ## Joining pieces -/

section Joining

variable {s : List Char} {later joined : List Piece}

/-- Joining an attribute keeps the pieces sound. -/
theorem allSound_of_attributeFrom? (h : AllSound s later) {sign : Piece} (hsign : sign.Sound s)
    (hjoin : attributeFrom? sign later = some joined) : AllSound s joined := by
  unfold attributeFrom? at hjoin
  split at hjoin
  · next q rest hlater =>
    obtain ⟨-, hrest⟩ := h.of_pastComments hlater
    split at hjoin
    · cases hjoin
      exact AllSound.cons_iff.2 ⟨Piece.sound_build_leaf (by simp) _ hsign.first _, hrest⟩
    · split at hjoin
      · split at hjoin
        · next r after hlater =>
          obtain ⟨-, hafter⟩ := hrest.of_pastComments hlater
          split at hjoin
          · cases hjoin
            exact AllSound.cons_iff.2 ⟨Piece.sound_build_leaf (by simp) _ hsign.first _, hafter⟩
          · cases hjoin
        · cases hjoin
      · cases hjoin
  · cases hjoin

/-- So does joining the call or the definition of a macro. -/
theorem allSound_of_macroFrom? (h : AllSound s later) {name : Piece} (hname : name.Sound s)
    {defines : Bool} (hjoin : macroFrom? name defines later = some joined) : AllSound s joined := by
  unfold macroFrom? at hjoin
  split at hjoin
  · next q rest hlater =>
    obtain ⟨-, hrest⟩ := h.of_pastComments hlater
    have hgroup : AllSound s (if defines then (pastComments rest).drop 1 else rest) := by
      split
      · exact hrest.pastComments.drop 1
      · exact hrest
    split at hjoin
    · split at hjoin
      · next r after hlater =>
        obtain ⟨-, hafter⟩ := hgroup.of_pastComments hlater
        split at hjoin
        · cases hjoin
          exact AllSound.cons_iff.2 ⟨Piece.sound_build_leaf (by simp) _ hname.first _, hafter⟩
        · cases hjoin
      · cases hjoin
    · cases hjoin
  · cases hjoin

/-- What stands between angle brackets, and after them, stood after the first of them. -/
theorem allSound_of_anglesFrom? {depth : Nat} {last : Option Char} {inside after : List Piece}
    {stop : Piece} (h : AllSound s later)
    (hangles : anglesFrom? depth last later = some (inside, stop, after)) :
    AllSound s inside ∧ AllSound s after := by
  induction later generalizing depth last inside with
  | nil => simp [anglesFrom?] at hangles
  | cons p ps ih =>
    obtain ⟨hp, hps⟩ := AllSound.cons_iff.1 h
    rw [anglesFrom?] at hangles
    split at hangles
    · cases hangles
    split at hangles
    · cases hangles
      exact ⟨by simp [AllSound], hps⟩
    · obtain ⟨⟨inside', stop', after'⟩, hrest, heq⟩ := Option.map_eq_some_iff.1 hangles
      cases heq
      obtain ⟨hinside, hafter⟩ := ih hps hrest
      exact ⟨AllSound.cons_iff.2 ⟨hp, hinside⟩, hafter⟩

/-- So does joining the parameters of a function. -/
theorem allSound_of_parametersFrom? (h : AllSound s later) {bracket : Piece}
    (hbracket : bracket.Sound s) (hjoin : parametersFrom? bracket later = some joined) :
    AllSound s joined := by
  unfold parametersFrom? at hjoin
  obtain ⟨⟨inside, stop, after⟩, hangles, hjoin⟩ := Option.bind_eq_some_iff.1 hjoin
  obtain ⟨hinside, hafter⟩ := allSound_of_anglesFrom? h hangles
  dsimp only at hjoin
  split at hjoin
  · cases hjoin
    exact AllSound.cons_iff.2
      ⟨Piece.sound_build (by simp) _ hbracket.first _ (by simp) hinside, hafter⟩
  · cases hjoin

/-- A header, what ends it and what follows it stood after the name. -/
theorem allSound_of_headerFrom? {depth : Nat} {arrow : Bool} {header after : List Piece}
    {stop : Piece} (h : AllSound s later)
    (hheader : headerFrom? depth arrow later = some (header, stop, after)) :
    AllSound s (header ++ [stop]) ∧ AllSound s after := by
  induction later generalizing depth arrow header with
  | nil => simp [headerFrom?] at hheader
  | cons p ps ih =>
    obtain ⟨hp, hps⟩ := AllSound.cons_iff.1 h
    rw [headerFrom?] at hheader
    split at hheader
    · cases hheader
      exact ⟨AllSound.cons_iff.2 ⟨hp, by simp [AllSound]⟩, hps⟩
    · obtain ⟨⟨header', stop', after'⟩, hrest, heq⟩ := Option.map_eq_some_iff.1 hheader
      cases heq
      obtain ⟨hheader, hafter⟩ := ih hps hrest
      exact ⟨AllSound.cons_iff.2 ⟨hp, hheader⟩, hafter⟩

/-- So does joining a function. -/
theorem allSound_of_functionFrom? (h : AllSound s later) {keyword : Piece}
    (hkeyword : keyword.Sound s) (hjoin : functionFrom? keyword later = some joined) :
    AllSound s joined := by
  unfold functionFrom? at hjoin
  split at hjoin
  · next name rest hlater =>
    obtain ⟨hname, hrest⟩ := h.of_pastComments hlater
    split at hjoin
    · next w hword =>
      obtain ⟨⟨header, stop, after⟩, hheader, hjoin⟩ := Option.bind_eq_some_iff.1 hjoin
      obtain ⟨hheader, hafter⟩ := allSound_of_headerFrom? hrest hheader
      dsimp only at hjoin
      split at hjoin
      · cases hjoin
        refine AllSound.cons_iff.2
          ⟨Piece.sound_build (by simp) _ hkeyword.first _ (hname.name hword) ?_, hafter⟩
        exact AllSound.cons_iff.2 ⟨hname, hheader⟩
      · cases hjoin
    · cases hjoin
  · cases hjoin

/-- So does joining a module. -/
theorem allSound_of_moduleFrom? (h : AllSound s later) {keyword : Piece}
    (hkeyword : keyword.Sound s) (hjoin : moduleFrom? keyword later = some joined) :
    AllSound s joined := by
  unfold moduleFrom? at hjoin
  split at hjoin
  · next name rest hlater =>
    obtain ⟨hname, hrest⟩ := h.of_pastComments hlater
    split at hjoin
    · next w stop after hword hlater =>
      obtain ⟨hstop, hafter⟩ := hrest.of_pastComments hlater
      split at hjoin
      · cases hjoin
        refine AllSound.cons_iff.2
          ⟨Piece.sound_build (by simp) _ hkeyword.first _ (hname.name hword) ?_, hafter⟩
        exact AllSound.cons_iff.2 ⟨hname, AllSound.cons_iff.2 ⟨hstop, by simp [AllSound]⟩⟩
      · cases hjoin
    · cases hjoin
  · cases hjoin

/-- So does joining what comes after a qualifier. -/
theorem allSound_of_qualifiedFrom? (h : AllSound s later) {qualifier : Piece}
    (hqualifier : qualifier.Sound s) {word : List Char}
    (hjoin : qualifiedFrom? qualifier word later = some joined) : AllSound s joined := by
  unfold qualifiedFrom? at hjoin
  split at hjoin
  · next p rest hlater =>
    obtain ⟨hp, hrest⟩ := h.of_pastComments hlater
    have hqualified : AllSound s (if refines word p then rest else p :: rest) := by
      split
      · exact hrest
      · exact AllSound.cons_iff.2 ⟨hp, hrest⟩
    split at hjoin
    · next item after hlater =>
      obtain ⟨hitem, hafter⟩ := hqualified.of_pastComments hlater
      split at hjoin
      · cases hjoin
        exact AllSound.cons_iff.2 ⟨Piece.sound_extended hitem hqualifier, hafter⟩
      · cases hjoin
    · cases hjoin
  · cases hjoin

/-- So does joining whatever a word starts. -/
theorem allSound_of_wordFrom? (h : AllSound s later) {p : Piece} (hp : p.Sound s)
    {word : List Char} (hjoin : wordFrom? p word later = some joined) : AllSound s joined := by
  unfold wordFrom? at hjoin
  split at hjoin
  · exact allSound_of_functionFrom? h hp hjoin
  split at hjoin
  · exact allSound_of_moduleFrom? h hp hjoin
  rw [Option.or_eq_some_iff] at hjoin
  rcases hjoin with hjoin | ⟨-, hjoin⟩
  · split at hjoin
    · exact allSound_of_qualifiedFrom? h hp hjoin
    · cases hjoin
  · split at hjoin
    · exact allSound_of_macroFrom? h hp hjoin
    · cases hjoin

/-- Joining a piece to what follows it makes no names or stretches that are not where they should
be in the text. -/
theorem allSound_joinPiece (h : AllSound s later) {p : Piece} (hp : p.Sound s) :
    AllSound s (joinPiece p later) := by
  unfold joinPiece
  apply AllSound.getD (AllSound.cons_iff.2 ⟨hp, h⟩)
  intro joined hjoin
  split at hjoin
  · exact allSound_of_wordFrom? h hp hjoin
  · exact allSound_of_attributeFrom? h hp hjoin
  · exact allSound_of_parametersFrom? h hp hjoin
  · cases hjoin

/-- So the pieces of a group that are joined are sound if they were sound before. -/
theorem allSound_arrange {backwards : List Piece} (h : AllSound s backwards) :
    AllSound s (arrange backwards) := by
  have hfold : ∀ later, AllSound s later →
      AllSound s (backwards.foldl (fun later p => joinPiece p later) later) := by
    intro later hlater
    induction backwards generalizing later with
    | nil => exact hlater
    | cons p ps ih =>
      obtain ⟨hp, hps⟩ := AllSound.cons_iff.1 h
      exact ih hps _ (allSound_joinPiece hlater hp)
  exact hfold [] (by simp [AllSound])

end Joining

/-! ## Trees of sources -/

/-- The pieces into which placed tokens are grouped are sound, as the open brackets and the pieces
before them are. -/
theorem allSound_of_piecesFrom {s : List Char} {outer : List (Token × Delimiter × List Piece)}
    {done ps : List Piece} {ts : List Token}
    (houter : ∀ o ∈ outer, o.1.PlacedIn s ∧ AllSound s o.2.2)
    (hdone : AllSound s done) (hts : ∀ t ∈ ts, t.PlacedIn s)
    (h : piecesFrom outer done ts = some ps) : AllSound s ps := by
  -- All that is open is sound, and a closing delimiter makes a piece of it.
  induction ts generalizing outer done with
  | nil =>
    cases outer with
    | nil =>
      simp only [piecesFrom, Option.some.injEq] at h
      subst h
      exact allSound_arrange hdone
    | cons o outer => simp [piecesFrom] at h
  | cons t ts ih =>
    obtain ⟨ht, hts⟩ := List.forall_mem_cons.1 hts
    rw [piecesFrom] at h
    split at h
    · exact ih houter hdone hts h
    · refine ih ?_ (by simp [AllSound]) hts h
      exact List.forall_mem_cons.2 ⟨⟨ht, hdone⟩, houter⟩
    · split at h
      · cases h
      · next first opened before rest =>
        obtain ⟨⟨hfirst, hbefore⟩, hrest⟩ := List.forall_mem_cons.1 houter
        split at h
        · refine ih hrest (AllSound.cons_iff.2 ⟨?_, hbefore⟩) hts h
          exact Piece.sound_build (by simp) _ hfirst _ (by simp) (allSound_arrange hdone)
        · cases h
    · exact ih houter (AllSound.cons_iff.2 ⟨Piece.sound_ofToken ht, hdone⟩) hts h

/-- The nodes on the outermost level of a text are where they should be in it. -/
theorem standIn_of_nodes? {s : List Char} {ns : List Node} (h : nodes? s = some ns) :
    ∀ n ∈ ns, n.NamesStandIn s ∧ n.StretchesStartIn s := by
  have hpieces : ∀ ts ps, (∀ t ∈ ts, t.PlacedIn s) → piecesFrom [] [] ts = some ps →
      ∀ n ∈ ps.map Piece.node, n.NamesStandIn s ∧ n.StretchesStartIn s := by
    intro ts ps hts hps n hn
    obtain ⟨p, hp, rfl⟩ := List.mem_map.1 hn
    have hsound := allSound_of_piecesFrom (by simp) (by simp [AllSound]) hts hps p hp
    exact ⟨hsound.names, hsound.stretches⟩
  unfold nodes? at h
  split at h
  · obtain ⟨ts, hts, h⟩ := Option.bind_eq_some_iff.1 h
    obtain ⟨ps, hps, rfl⟩ := Option.map_eq_some_iff.1 h
    have hplaced := placedIn_of_tokensFrom hts Reached.sound_zero
    refine List.forall_mem_cons.2 ⟨?_, hpieces ts ps (by simpa [Reached.zero] using hplaced) hps⟩
    rw [runnerNode, Node.namesStandIn_mk, Node.stretchesStartIn_mk]
    simp
  · obtain ⟨ts, hts, h⟩ := Option.bind_eq_some_iff.1 h
    obtain ⟨ps, hps, rfl⟩ := Option.map_eq_some_iff.1 h
    exact hpieces ts ps (placedIn_of_tokens? hts) hps

/-- The names in the tree of a text stand in the text. -/
theorem namesStandIn_ofSource (text : String) :
    (Node.ofSource text).NamesStandIn text.toList := by
  rw [Node.ofSource, Node.namesStandIn_mk]
  refine ⟨by simp, ?_⟩
  cases h : nodes? text.toList with
  | none => simp
  | some ns => exact fun n hn => (standIn_of_nodes? h n hn).1

/-- The stretches that the tree of a text keeps start in the text. -/
theorem stretchesStartIn_ofSource (text : String) :
    (Node.ofSource text).StretchesStartIn text.toList := by
  rw [Node.ofSource, Node.stretchesStartIn_mk]
  refine ⟨by simp, ?_⟩
  cases h : nodes? text.toList with
  | none => simp
  | some ns => exact fun n hn => (standIn_of_nodes? h n hn).2

end ProofHarness.Syntax
