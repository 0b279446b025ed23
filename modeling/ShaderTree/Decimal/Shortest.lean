import ShaderTree.Decimal.Binary64

/-!
# Shortest decimals

Every finite binary64 number stands for an interval of reals, those that round to it.  The shortest
decimal of a number is the one with the fewest digits in that interval; of two with equally few
digits it is the nearer, and of two equally near the one farther from zero.

The decimals with a given last place form a grid.  The search goes from coarse grids to fine ones
and tries the two grid points around the number.  All comparisons are made between natural numbers.
-/

namespace ShaderTree

/-- The decimal `digits * 10 ^ exponent`. -/
structure Decimal where
  digits : Nat
  exponent : Int
deriving DecidableEq, Repr

namespace Decimal

/-- Multiplies by a power of ten and a power of two, of which the negative ones are left out. -/
def scaled (number : Nat) (ten two : Int) : Nat :=
  number * Nat.pow 10 ten.toNat * Nat.pow 2 two.toNat

/--
The reals that round to a number, seen on the grid of multiples of `10 ^ exponent`.  A grid point
`p` is the real number `p * unit`, measured like the bounds.
-/
structure Neighbourhood where
  /-- The least real, or the greatest one below all. -/
  low : Nat
  /-- The number itself. -/
  centre : Nat
  /-- The greatest real, or the least one above all. -/
  high : Nat
  /-- The distance of two grid points. -/
  unit : Nat
  /-- The bounds round to the number themselves. -/
  closed : Bool

/-- The reals around a finite number: halfway to the number below, and halfway to the one above. -/
def neighbourhood (number : Binary64) (exponent : Int) : Neighbourhood :=
  let quarters := 4 * number.mantissa
  let place (real : Nat) := scaled real (-exponent) (number.scale - 2)
  { low := place (quarters - if number.isAtBinade then 1 else 2)
    centre := place quarters
    high := place (quarters + 2)
    unit := scaled 1 exponent (2 - number.scale)
    closed := number.mantissa % 2 = 0 }

namespace Neighbourhood

/-- Whether a grid point rounds to the number. -/
def contains (around : Neighbourhood) (point : Nat) : Bool :=
  let real := point * around.unit
  if around.closed then
    around.low ≤ real ∧ real ≤ around.high
  else
    around.low < real ∧ real < around.high

/-- The grid point that stands for the number, if one does. -/
def nearest? (around : Neighbourhood) : Option Nat :=
  let below := around.centre / around.unit
  let above := below + 1
  match around.contains below, around.contains above with
  | true, true =>
      if 2 * around.centre < (below + above) * around.unit then some below else some above
  | true, false => some below
  | false, true => some above
  | false, false => none

end Neighbourhood

/-- The decimal with its last place at `10 ^ exponent` that stands for a number, if there is one. -/
def atPlace? (number : Binary64) (exponent : Int) : Option Decimal :=
  (neighbourhood number exponent).nearest?.map fun digits => ⟨digits, exponent⟩

/-- The size of a finite number, digit for digit. -/
def exact (number : Binary64) : Decimal :=
  if 0 ≤ number.scale then
    ⟨scaled number.mantissa 0 number.scale, 0⟩
  else
    ⟨number.mantissa * Nat.pow 5 (-number.scale).toNat, number.scale⟩

/-- An exponent with `number < 10 ^ exponent`, the least one for every finite number but zero. -/
def leadingExponent (number : Binary64) : Int :=
  let digits := scaled number.mantissa 330 number.scale / Nat.pow 2 (-number.scale).toNat
  (toString digits).length - 330

/-- The shortest decimal that reads back as the size of a finite number. -/
def shortest (number : Binary64) : Decimal :=
  if number.mantissa = 0 then
    ⟨0, 0⟩
  else
    let top := leadingExponent number
    ((List.range 19).findSome? fun (fine : Nat) => atPlace? number (top - fine)).getD (exact number)

/-- The decimal written without an exponent. -/
def text (decimal : Decimal) : String :=
  let digits := (toString decimal.digits).toList
  let places := (-decimal.exponent).toNat
  if places = 0 then
    String.ofList (digits ++ List.replicate decimal.exponent.toNat '0')
  else if places < digits.length then
    let whole := digits.length - places
    String.ofList (digits.take whole ++ '.' :: digits.drop whole)
  else
    String.ofList ('0' :: '.' :: List.replicate (places - digits.length) '0' ++ digits)

end Decimal

end ShaderTree
