import ProofHarness.Lexical.Token
import ProofHarness.Text.Escape

/-!
# Token trees

Tokens grouped by their brackets, without blanks and comments.  A documentation comment is not
dropped: it stands for the attribute `doc` with the text of the comment.
-/

set_option autoImplicit false

namespace ProofHarness.Lexical

open Text

/-- A token without what surrounds it, or a bracketed group of such. -/
inductive TokenTree where
  | word (text : List Char)
  /-- A punctuation character; `joint` if another one follows without a blank. -/
  | mark (c : Char) (joint : Bool)
  | lifetime (text : List Char)
  | literal (text : List Char)
  | group (d : Delimiter) (inner : List TokenTree)

namespace TokenTree

mutual

/-- The text of a tree without any blanks. -/
def compact : TokenTree → List Char
  | .word text => Text.compact text
  | .mark c _ => [c]
  | .lifetime text => Text.compact text
  | .literal text => Text.compact text
  | .group d inner => d.opening :: (compactAll inner ++ [d.closing])

/-- The text of several trees, one after the other, without any blanks. -/
def compactAll : List TokenTree → List Char
  | [] => []
  | t :: ts => t.compact ++ compactAll ts

end

/-- Whether the tree is a given mark. -/
def isMark (c : Char) : TokenTree → Bool
  | .mark d _ => c == d
  | _ => false

end TokenTree

/-- What a comment contributes to the trees. -/
inductive CommentUse where
  /-- An ordinary comment contributes nothing. -/
  | ignored
  /-- A documentation comment, about the inside of an item if `inner`. -/
  | documentation (inner : Bool) (content : List Char)

/-- The use of a comment, read off its first characters. -/
def commentUse (text : List Char) : CommentUse :=
  match text with
  | '/' :: '/' :: '!' :: content => .documentation true content
  | '/' :: '/' :: '/' :: content =>
    if content.head? == some '/' then .ignored else .documentation false content
  | '/' :: '*' :: '!' :: content => .documentation true (content.take (content.length - 2))
  | '/' :: '*' :: '*' :: content =>
    if content.head? == some '*' || content.head? == some '/' then .ignored
    else .documentation false (content.take (content.length - 2))
  | _ => .ignored

/-- Whether every carriage return of a text stands in front of a line feed. -/
def returnsPaired : List Char → Bool
  | [] => true
  | c :: cs => (c != '\r' || cs.head? == some '\n') && returnsPaired cs

/-- The attribute for which a documentation comment stands. -/
def documentationTrees (inner : Bool) (content : List Char) : List TokenTree :=
  let item : TokenTree :=
    .group .bracket [.word "doc".toList, .mark '=' false, .literal (escaped content)]
  if inner then [.mark '#' false, .mark '!' false, item] else [.mark '#' false, item]

/-- The trees that a comment contributes; `none` for a documentation comment with a lone carriage
return. -/
def commentTrees? (text : List Char) : Option (List TokenTree) :=
  match commentUse text with
  | .ignored => some []
  | .documentation inner content =>
    if returnsPaired content then some (documentationTrees inner content) else none

/-- Whether the tokens that follow a mark begin with another punctuation character. -/
def followsJoint : List Token → Bool
  | [] => false
  | t :: _ => !t.isComment && (t.text.head?.any fun c => marks.contains c || c == '\x27')

/-- Groups tokens by their brackets.  `outer` holds the open groups, each with what stands before
it, and `done` the trees of the innermost one; trees are held backwards. -/
def groupFrom : List (Delimiter × List TokenTree) → List TokenTree → List Token →
    Option (List TokenTree)
  | [], done, [] => some done.reverse
  | _ :: _, _, [] => none
  | outer, done, t :: ts =>
    if !t.sound then none
    else match t.kind with
    | .blank => groupFrom outer done ts
    | .lineComment | .blockComment =>
      (commentTrees? t.text).bind fun trees => groupFrom outer (trees.reverse ++ done) ts
    | .opening d => groupFrom ((d, done) :: outer) [] ts
    | .closing d =>
      match outer with
      | [] => none
      | (opened, before) :: rest =>
        if opened == d then groupFrom rest (.group d done.reverse :: before) ts else none
    | .literal => groupFrom outer (.literal t.text :: done) ts
    | .mark => groupFrom outer (.mark (t.text.headD ' ') (followsJoint ts) :: done) ts
    | .lifetime => groupFrom outer (.lifetime t.text :: done) ts
    | .word => groupFrom outer (.word t.text :: done) ts

/-- The token trees of a text; `none` when it cannot be cut into sound tokens or its brackets do
not match. -/
def trees? (s : List Char) : Option (List TokenTree) :=
  (tokens? s).bind (groupFrom [] [])

end ProofHarness.Lexical
