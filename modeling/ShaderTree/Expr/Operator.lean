import ShaderTree.Expr.Precedence

/-!
# Operators

Binary operators with their spelling and their rank, and the operators written before or after a
single operand.  An assigning operator is spelled as the operator it applies, followed by `=`.
-/

namespace ShaderTree

/-- The binary operators that compute a value from two values. -/
inductive Arithmetic where
  | add
  | subtract
  | multiply
  | divide
  | modulus
  | shiftLeft
  | shiftRight
  | bitAnd
  | bitXor
  | bitOr
deriving DecidableEq, Repr

/-- The binary operators that compute a truth value. -/
inductive Logical where
  | less
  | lessEqual
  | greater
  | greaterEqual
  | equal
  | notEqual
  | conjunction
  | exclusive
  | disjunction
deriving DecidableEq, Repr

/-- The binary operators: those that compute, and those that write their left operand. -/
inductive BinaryOp where
  | arithmetic (op : Arithmetic)
  | logical (op : Logical)
  /-- Assignment, of the right operand or of what `op` computes from both. -/
  | assign (op : Option Arithmetic)
deriving DecidableEq, Repr

/-- The spelling of an operator that computes. -/
def Arithmetic.text : Arithmetic → String
  | .add => "+"
  | .subtract => "-"
  | .multiply => "*"
  | .divide => "/"
  | .modulus => "%"
  | .shiftLeft => "<<"
  | .shiftRight => ">>"
  | .bitAnd => "&"
  | .bitXor => "^"
  | .bitOr => "|"

/-- The rank of an operator that computes. -/
def Arithmetic.precedence : Arithmetic → Precedence
  | .multiply | .divide | .modulus => .multiplicative
  | .add | .subtract => .additive
  | .shiftLeft | .shiftRight => .shift
  | .bitAnd => .bitAnd
  | .bitXor => .bitXor
  | .bitOr => .bitOr

/-- The spelling of an operator that compares or connects. -/
def Logical.text : Logical → String
  | .less => "<"
  | .lessEqual => "<="
  | .greater => ">"
  | .greaterEqual => ">="
  | .equal => "=="
  | .notEqual => "!="
  | .conjunction => "&&"
  | .exclusive => "^^"
  | .disjunction => "||"

/-- The rank of an operator that compares or connects. -/
def Logical.precedence : Logical → Precedence
  | .less | .lessEqual | .greater | .greaterEqual => .relational
  | .equal | .notEqual => .equality
  | .conjunction => .logicalAnd
  | .exclusive => .logicalXor
  | .disjunction => .logicalOr

namespace BinaryOp

/-- The spelling of a binary operator. -/
def text : BinaryOp → String
  | .arithmetic op => op.text
  | .logical op => op.text
  | .assign none => "="
  | .assign (some op) => op.text ++ "="

/-- The rank of a binary operator. -/
def precedence : BinaryOp → Precedence
  | .arithmetic op => op.precedence
  | .logical op => op.precedence
  | .assign _ => .assignment

/-- Whether the operator writes its left operand. -/
def isAssignment : BinaryOp → Bool
  | .assign _ => true
  | _ => false

end BinaryOp

/-- The operators that change a variable by one. -/
inductive Step where
  | increment
  | decrement
deriving DecidableEq, Repr

/-- The spelling of an operator that changes a variable by one. -/
def Step.text : Step → String
  | .increment => "++"
  | .decrement => "--"

/-- The operators written before their operand. -/
inductive PrefixOp where
  | negate
  | plus
  | not
  | complement
  | step (op : Step)
deriving DecidableEq, Repr

namespace PrefixOp

/-- The spelling of an operator written before its operand. -/
def text : PrefixOp → String
  | .negate => "-"
  | .plus => "+"
  | .not => "!"
  | .complement => "~"
  | .step op => op.text

/-- Whether the operator writes its operand. -/
def isStep : PrefixOp → Bool
  | .step _ => true
  | _ => false

end PrefixOp

end ShaderTree
