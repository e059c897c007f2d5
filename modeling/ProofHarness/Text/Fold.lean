/-!
# Option words

Reading a word from a fixed list of lower-case ASCII words without regard to case.
-/

set_option autoImplicit false

namespace ProofHarness.Text

/-- The ASCII letter or other ASCII character that is the lower case of `c`, where it has one.
Besides the ASCII capitals only the Kelvin sign has a lower case in ASCII. -/
def lowerCase (c : Char) : Char :=
  if c == '\u212a' then 'k' else c.toLower

/-- Whether a text is the lower-case ASCII word `word`, written in any case. -/
def isWordInAnyCase (word text : String) : Bool :=
  text.toList.map lowerCase == word.toList

example : isWordInAnyCase "json" "JsOn" = true := by decide
example : isWordInAnyCase "json" "json " = false := by decide

end ProofHarness.Text
