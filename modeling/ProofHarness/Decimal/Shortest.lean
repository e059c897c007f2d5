/-!
# Shortest decimals

The fewest decimal digits that still tell a binary fraction from its neighbours.  A positive
number m · 2^q is taken with the interval of numbers that round to it; on the grids of one, two
and more digits the two points around the number are tried, the first grid with a point in the
interval wins, and of two points on it the nearer one, at a tie the even one.
-/

set_option autoImplicit false

namespace ProofHarness.Decimal

/-- A decimal number: an integer times a power of ten. -/
structure Number where
  digits : Nat
  exponent : Int
  deriving DecidableEq, Repr

/-- A positive binary fraction, in quarters of its last place: its lower neighbour, the fraction,
and its upper neighbour each half-way, over a common power of two, and whether these half-way
points count as belonging to it. -/
structure Interval where
  low : Nat
  middle : Nat
  high : Nat
  denominator : Nat
  closed : Bool
  deriving DecidableEq, Repr

/-- The interval of m · 2^q; below a power of two the gap is half as wide. -/
def Interval.ofBinary (m : Nat) (q : Int) (isPower : Bool) : Interval :=
  let scale := Nat.pow 2 (q - 2).toNat
  { low := (if isPower then 4 * m - 1 else 4 * m - 2) * scale
    middle := 4 * m * scale
    high := (4 * m + 2) * scale
    denominator := Nat.pow 2 (2 - q).toNat
    closed := m % 2 == 0 }

/-- The interval of a number divided by a power of ten. -/
def Interval.shift (i : Interval) (k : Int) : Interval :=
  let up := Nat.pow 10 (-k).toNat
  { low := i.low * up
    middle := i.middle * up
    high := i.high * up
    denominator := i.denominator * Nat.pow 10 k.toNat
    closed := i.closed }

/-- Whether an integer lies in an interval. -/
def Interval.holds (i : Interval) (d : Nat) : Bool :=
  let x := d * i.denominator
  if i.closed then i.low ≤ x && x ≤ i.high else i.low < x && x < i.high

/-- The integer of the interval next to its middle, if one of the two around the middle is in it.
-/
def Interval.point? (i : Interval) : Option Nat :=
  let below := i.middle / i.denominator
  let rest := i.middle % i.denominator
  let belowFirst := 2 * rest < i.denominator || (2 * rest == i.denominator && below % 2 == 0)
  let order := if belowFirst then [below, below + 1] else [below + 1, below]
  order.find? fun d => d != 0 && i.holds d

/-- The highest power of ten that is not above the middle.  The numbers of digits of numerator and
denominator leave two candidates for it. -/
def leadingPower (i : Interval) : Int :=
  let k : Int := (Nat.toDigits 10 i.middle).length - (Nat.toDigits 10 i.denominator).length
  let shifted := i.shift k
  if shifted.denominator ≤ shifted.middle then k else k - 1

/-- Removes zeros from the end of a positive number, at most `steps` of them. -/
def dropZeros : Nat → Number → Number
  | 0, d => d
  | steps + 1, d =>
    if d.digits % 10 == 0 then dropZeros steps ⟨d.digits / 10, d.exponent + 1⟩ else d

/-- The point with the fewest digits, tried with exponents from `k` down. -/
def shortestFrom (i : Interval) : Nat → Int → Number
  | 0, k => ⟨i.middle / i.denominator, k⟩
  | steps + 1, k =>
    match (i.shift k).point? with
    | some d => dropZeros 20 ⟨d, k⟩
    | none => shortestFrom i steps (k - 1)

/-- The shortest decimal of an interval. -/
def shortest (i : Interval) : Number := shortestFrom i 17 (leadingPower i)

/-- The interval of a positive finite double, given by its bits. -/
def intervalOfBits (bits : Nat) : Interval :=
  let fraction : Nat := bits % Nat.pow 2 52
  let exponent : Nat := bits / Nat.pow 2 52 % Nat.pow 2 11
  if exponent == 0 then .ofBinary fraction (-1074) false
  else
    .ofBinary (fraction + Nat.pow 2 52) ((exponent : Int) - 1075)
      (fraction == 0 && exponent != 1)

/-- Zeros as a text. -/
def zeros (n : Nat) : List Char := List.replicate n '0'

/-- How a positive decimal is written: with a point where that takes few zeros, with an exponent
otherwise. -/
def Number.written (d : Number) : List Char :=
  let digits := Nat.toDigits 10 d.digits
  let point : Int := digits.length + d.exponent
  if 0 ≤ d.exponent && point ≤ 16 then digits ++ zeros d.exponent.toNat ++ ".0".toList
  else if 0 < point && point ≤ 16 then
    digits.take point.toNat ++ '.' :: digits.drop point.toNat
  else if -5 < point && point ≤ 0 then "0.".toList ++ zeros (-point).toNat ++ digits
  else
    let mantissa := match digits with
      | [d] => [d]
      | d :: ds => d :: '.' :: ds
      | [] => []
    mantissa ++ 'e' :: (toString (point - 1)).toList

/-- How a finite double is written, given by its bits. -/
def writtenBits (bits : Nat) : List Char :=
  let sign := if bits / Nat.pow 2 63 % 2 == 1 then ['-'] else []
  let rest := bits % Nat.pow 2 63
  if rest == 0 then sign ++ "0.0".toList else sign ++ (shortest (intervalOfBits rest)).written

example : (⟨15, -1⟩ : Number).written = "1.5".toList := by decide
example : (⟨1, 20⟩ : Number).written = "1e20".toList := by decide
example : (⟨25, -7⟩ : Number).written = "2.5e-6".toList := by decide

end ProofHarness.Decimal
