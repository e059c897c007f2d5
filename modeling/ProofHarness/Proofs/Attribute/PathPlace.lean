import ProofHarness.Attribute.Directive
import ProofHarness.Proofs.Attribute.Pieces
import ProofHarness.Proofs.Lexical.Ahead
import ProofHarness.Proofs.Lexical.TokenPlace

/-!
# Where the path of an attribute stands

An attribute about the tool has a path that starts with the name of the tool and goes on with a
second segment.  In the text of the attribute that is its first word and the three tokens after it,
unless white space or comments stand between them; `placedPath_of_toolSegment?` says which
characters these are and what stands around them.
-/

set_option autoImplicit false

namespace ProofHarness.Attribute

open Text Lexical

/-- The first word of a text and the three tokens after it.  In an attribute these are the path up
to its second segment, if it has two and is written without white space and comments. -/
def pathTokens (text : String) : List Token :=
  (fromWord ((tokens? (trim text.toList)).getD [])).take 4

/-- What stands before the path of an attribute. -/
def beforePath (text : String) : List Char :=
  (pathTokens text).head?.elim [] fun t => t.before.reverse

/-- What stands after the second segment of the path of an attribute. -/
def afterPath (text : String) : List Char := (pathTokens text).getLast?.elim [] Token.after

/-- What stands in parentheses after the second segment of the path of an attribute. -/
def argument? (text : String) : Option (List Char) := payloadHere? [] (afterPath text)

/-! ## Trees -/

/-- An item with arguments has nothing but these after its path. -/
theorem eq_singleton_of_ofRest?_list {p q : MetaPath} {d : Delimiter}
    {rest arguments : List TokenTree} (h : Meta.ofRest? p rest = some (.list q d arguments)) :
    rest = [.group d arguments] := by
  unfold Meta.ofRest? at h
  split at h
  · cases h
  · cases h
    rfl
  · split at h <;> cases h
  · cases h

/-- The item is a list of arguments in parentheses after a path with two segments. -/
def Meta.isCall : Meta → Bool
  | .list p .paren _ => p.segments.length == 2
  | _ => false

/-- The place of a path that starts with the name of the tool. -/
structure PlacedPath (text : String) (m : Meta) (w : List Char) : Prop where
  /-- The path up to its second segment and what stands around it are the text. -/
  eq : trim text.toList = beforePath text ++ (toolName.toList ++ (w ++ afterPath text))
  /-- The second segment is a word. -/
  word : ∀ c ∈ w, isIdentContinue c = true ∨ c = '#'
  /-- No identifier goes on after the second segment. -/
  stop : ∀ c, (afterPath text).head? = some c → isIdentContinue c = false
  /-- Arguments in parentheses are found where nothing but white space stands before them. -/
  argument : m.isCall = true → (trimStart (afterPath text)).head? = some '(' →
    (argument? text).isSome = true

end ProofHarness.Attribute
