/-!
# Keywords

The reserved words of the language whose sources are read, and what is left for identifiers.
-/

set_option autoImplicit false

namespace ProofHarness.Lexical

/-- The words that are reserved and therefore no identifiers. -/
def keywords : List (List Char) :=
  ["_", "abstract", "as", "async", "await", "become", "box", "break", "const", "continue",
    "crate", "do", "dyn", "else", "enum", "extern", "false", "final", "fn", "for", "if", "impl",
    "in", "let", "loop", "macro", "match", "mod", "move", "mut", "override", "priv", "pub", "ref",
    "return", "Self", "self", "static", "struct", "super", "trait", "true", "try", "type",
    "typeof", "unsafe", "unsized", "use", "virtual", "where", "while", "yield"].map String.toList

/-- The reserved words that may stand in a path. -/
def pathKeywords : List (List Char) := ["super", "self", "Self", "crate"].map String.toList

/-- Whether a word is an identifier. -/
def isIdentifier (word : List Char) : Bool := !keywords.contains word

/-- Whether a word may be a segment of a path. -/
def isSegment (word : List Char) : Bool := isIdentifier word || pathKeywords.contains word

example : isIdentifier "fn".toList = false := by decide
example : isIdentifier "r#fn".toList = true := by decide

end ProofHarness.Lexical
