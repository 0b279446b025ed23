/-!
# Faults

A fault is a broken precondition: a sum that leaves its word, a key that names no slot, a store
that is full.  It ends the operation that meets it.  The causes are kept apart here and worded in
one place.
-/

namespace ShaderTree

/-- Why an operation could not be carried out. -/
inductive Fault where
  /-- A sum does not fit the word it is computed in. -/
  | sumOverflow
  /-- A key names a slot that a store of `len` slots does not have. -/
  | outOfBounds (len index : Nat)
  /-- The key format has no key for another slot. -/
  | storeFull
  /-- Cutting a slot number to the width of its key left the number that no key may be. -/
  | keyOverflow
  /-- A slot number lies above the greatest one that the key format admits. -/
  | slotAboveMax
  /-- A numeral was asked for where there is no number. -/
  | notANumber
deriving DecidableEq, Repr

/-- The wording of a fault. -/
def Fault.message : Fault → String
  | .sumOverflow => "attempt to add with overflow"
  | .outOfBounds len index =>
      "index out of bounds: the len is " ++ toString len ++ " but the index is " ++ toString index
  | .storeFull => "arena is full"
  | .keyOverflow => "arena id overflowed"
  | .slotAboveMax => "assertion failed: idx <= <Self as Id>::MAX"
  | .notANumber => "NotNan constructed with NaN"

end ShaderTree
