import ShaderTree.Fault

/-!
# Numbers of the binary64 format

A number is given by its 64 bits: a sign, eleven bits of exponent and fifty-two of fraction.  The
patterns that stand for no number are left out of the type.  A finite number is a natural number
times a power of two, up to its sign.
-/

namespace ShaderTree

namespace Binary64

/-- The eleven bits of exponent. -/
def exponentBits (bits : UInt64) : Nat :=
  bits.toNat / Nat.pow 2 52 % Nat.pow 2 11

/-- The fifty-two bits of fraction. -/
def fractionBits (bits : UInt64) : Nat :=
  bits.toNat % Nat.pow 2 52

/-- A pattern stands for a number unless its exponent is full and its fraction is not zero. -/
def IsNumber (bits : UInt64) : Prop :=
  exponentBits bits ≠ 2047 ∨ fractionBits bits = 0

instance (bits : UInt64) : Decidable (IsNumber bits) :=
  inferInstanceAs (Decidable (_ ∨ _))

end Binary64

/-- A number of the format, the infinities and both zeros included. -/
structure Binary64 where
  bits : UInt64
  isNumber : Binary64.IsNumber bits
deriving DecidableEq

namespace Binary64

/-- The number of a bit pattern, which has to stand for one. -/
def ofBits (bits : UInt64) : Except Fault Binary64 :=
  if isNumber : IsNumber bits then
    .ok ⟨bits, isNumber⟩
  else
    .error .notANumber

/-- Whether the sign bit is set, as it is for negative zero too. -/
def isNegative (number : Binary64) : Bool :=
  Nat.pow 2 63 ≤ number.bits.toNat

/-- Whether the number is not an infinity. -/
def isFinite (number : Binary64) : Bool :=
  exponentBits number.bits ≠ 2047

/-- The natural number that, scaled by a power of two, gives the size of a finite number. -/
def mantissa (number : Binary64) : Nat :=
  if exponentBits number.bits = 0 then
    fractionBits number.bits
  else
    Nat.pow 2 52 + fractionBits number.bits

/-- The power of two that scales the mantissa. -/
def scale (number : Binary64) : Int :=
  max (exponentBits number.bits) 1 - 1075

/-- Whether the next number toward zero is only half as far away as the next one from zero. -/
def isAtBinade (number : Binary64) : Bool :=
  fractionBits number.bits = 0 ∧ 1 < exponentBits number.bits

end Binary64

end ShaderTree
