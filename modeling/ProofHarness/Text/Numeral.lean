/-!
# Numerals

Decimal and hexadecimal digits, the decimal numeral of a number, and reading numerals that must
fit into 32 bits.
-/

set_option autoImplicit false

namespace ProofHarness.Text

/-- The first of each run of ten characters that Unicode gives the property
`Decimal_Number`. -/
def decimalZeros : List Nat :=
  [0x30, 0x660, 0x6F0, 0x7C0, 0x966, 0x9E6, 0xA66, 0xAE6, 0xB66, 0xBE6, 0xC66, 0xCE6, 0xD66,
    0xDE6, 0xE50, 0xED0, 0xF20, 0x1040, 0x1090, 0x17E0, 0x1810, 0x1946, 0x19D0, 0x1A80, 0x1A90,
    0x1B50, 0x1BB0, 0x1C40, 0x1C50, 0xA620, 0xA8D0, 0xA900, 0xA9D0, 0xA9F0, 0xAA50, 0xABF0,
    0xFF10, 0x104A0, 0x10D30, 0x10D40, 0x11066, 0x110F0, 0x11136, 0x111D0, 0x112F0, 0x11450,
    0x114D0, 0x11650, 0x116C0, 0x116D0, 0x116DA, 0x11730, 0x118E0, 0x11950, 0x11BF0, 0x11C50,
    0x11D50, 0x11DA0, 0x11F50, 0x16130, 0x16A60, 0x16AC0, 0x16B50, 0x16D70, 0x1CCF0, 0x1D7CE,
    0x1D7D8, 0x1D7E2, 0x1D7EC, 0x1D7F6, 0x1E140, 0x1E2F0, 0x1E4F0, 0x1E5F1, 0x1E950, 0x1FBF0]

/-- Whether a character is a decimal digit of some script. -/
def isDecimal (c : Char) : Bool :=
  decimalZeros.any fun first => first ≤ c.toNat && c.toNat ≤ first + 9

/-- The number that ASCII digits denote, continuing from `acc`. -/
def readDigits : Nat → List Char → Option Nat
  | acc, [] => some acc
  | acc, c :: cs => if c.isDigit then readDigits (acc * 10 + (c.toNat - 48)) cs else none

/-- The number that a non-empty run of ASCII digits denotes, when it fits into 32 bits. -/
def readWord (s : List Char) : Option Nat :=
  if s.isEmpty then none
  else (readDigits 0 s).bind fun n => if n < UInt32.size then some n else none

/-- `readWord` that also accepts one plus sign in front of the digits. -/
def readSignedWord : List Char → Option Nat
  | '+' :: cs => readWord cs
  | cs => readWord cs

/-- The value of a hexadecimal digit. -/
def hexDigit? (c : Char) : Option Nat :=
  if c.isDigit then some (c.toNat - 48)
  else if 97 ≤ c.toNat && c.toNat ≤ 102 then some (c.toNat - 87)
  else if 65 ≤ c.toNat && c.toNat ≤ 70 then some (c.toNat - 55)
  else none

/-- The decimal numeral of a number. -/
def numeral (n : Nat) : String := String.ofList (Nat.toDigits 10 n)

end ProofHarness.Text
