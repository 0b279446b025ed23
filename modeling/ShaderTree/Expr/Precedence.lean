/-!
# Precedence

The forms of expressions are ranked by how tightly they hold their operands together.  An operand is
put in parentheses where its own form does not bind more tightly than the place it stands in.
-/

namespace ShaderTree

/-- How tightly a form binds, tightest first. -/
inductive Precedence where
  | grouped
  | suffixed
  | prefixed
  | multiplicative
  | additive
  | shift
  | relational
  | equality
  | bitAnd
  | bitXor
  | bitOr
  | logicalAnd
  | logicalXor
  | logicalOr
  | conditional
  | assignment
  | sequence
  | topLevel
deriving DecidableEq, Repr

namespace Precedence

/-- All ranks, tightest first. -/
def all : List Precedence :=
  [.grouped, .suffixed, .prefixed, .multiplicative, .additive, .shift, .relational, .equality,
    .bitAnd, .bitXor, .bitOr, .logicalAnd, .logicalXor, .logicalOr, .conditional, .assignment,
    .sequence, .topLevel]

/-- The number of ranks that bind more tightly. -/
def looseness : Precedence → Nat
  | .grouped => 0
  | .suffixed => 1
  | .prefixed => 2
  | .multiplicative => 3
  | .additive => 4
  | .shift => 5
  | .relational => 6
  | .equality => 7
  | .bitAnd => 8
  | .bitXor => 9
  | .bitOr => 10
  | .logicalAnd => 11
  | .logicalXor => 12
  | .logicalOr => 13
  | .conditional => 14
  | .assignment => 15
  | .sequence => 16
  | .topLevel => 17

instance : LE Precedence where
  le tight loose := tight.looseness ≤ loose.looseness

instance (tight loose : Precedence) : Decidable (tight ≤ loose) :=
  inferInstanceAs (Decidable (tight.looseness ≤ loose.looseness))

/-- Whether a form of this rank is put in parentheses in a place of the rank `place`. -/
def needsParentheses (own place : Precedence) : Bool :=
  place ≤ own

/-- Text of the given rank, in parentheses where the place asks for them. -/
def enclose (own place : Precedence) (text : String) : String :=
  if own.needsParentheses place then "(" ++ text ++ ")" else text

end Precedence

end ShaderTree
