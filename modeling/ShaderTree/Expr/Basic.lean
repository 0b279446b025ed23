import ShaderTree.Decimal.Binary64
import ShaderTree.Expr.Operator
import ShaderTree.Ty

/-!
# Expressions

Expressions of the shading language, and the two questions that passes ask of them: whether
evaluating one can change the state of the program, and whether one mentions a variable.
-/

namespace ShaderTree

/-- A value written out. -/
inductive Literal where
  | bool (value : Bool)
  | int (value : Int)
  | float (value : Binary64)
deriving DecidableEq

/-- What stands before the arguments in parentheses. -/
inductive Head where
  /-- A function; it is known to be pure, or it may write any state. -/
  | function (name : String) (isPure : Bool)
  /-- A type, whose value is put together from the arguments. -/
  | type (ty : Ty)
deriving DecidableEq, Repr

/-- What is picked from a value by a name behind a point. -/
inductive Selection where
  | field
  /-- Components, named by one letter each. -/
  | swizzle
deriving DecidableEq, Repr

/-- An expression as it is written at a span. -/
inductive Expr where
  | literal (value : Literal) (span : Span)
  | reference (name : String) (span : Span)
  | binary (op : BinaryOp) (left right : Expr) (span : Span)
  | prefixed (op : PrefixOp) (operand : Expr) (span : Span)
  | suffixed (op : Step) (operand : Expr) (span : Span)
  | apply (head : Head) (arguments : List Expr) (span : Span)
  | index (base position : Expr) (span : Span)
  | select (selection : Selection) (base : Expr) (name : String) (span : Span)
  | conditional (test yes no : Expr) (span : Span)

namespace Expr

/-- Where an expression is written. -/
def span : Expr → Span
  | .literal _ span | .reference _ span | .binary _ _ _ span | .prefixed _ _ span
  | .suffixed _ _ span | .apply _ _ span | .index _ _ span | .select _ _ _ span
  | .conditional _ _ _ span => span

mutual

/--
Whether evaluating an expression can change the state of the program.  Assignments, steps and calls
of functions not known to be pure can; any other form can where an operand can.
-/
def hasEffect : Expr → Bool
  | .literal _ _ | .reference _ _ => false
  | .binary op left right _ => op.isAssignment || left.hasEffect || right.hasEffect
  | .prefixed op operand _ => op.isStep || operand.hasEffect
  | .suffixed _ _ _ => true
  | .apply (.function _ isPure) arguments _ => !isPure || anyHasEffect arguments
  | .apply (.type _) arguments _ => anyHasEffect arguments
  | .index base position _ => base.hasEffect || position.hasEffect
  | .select _ base _ _ => base.hasEffect
  | .conditional test yes no _ => test.hasEffect || yes.hasEffect || no.hasEffect

/-- Whether evaluating some expression of the list can change the state of the program. -/
def anyHasEffect : List Expr → Bool
  | [] => false
  | first :: rest => first.hasEffect || anyHasEffect rest

end

mutual

/-- Whether an expression reads or writes the variable `name`. -/
def mentions (name : String) : Expr → Bool
  | .literal _ _ => false
  | .reference variableName _ => variableName = name
  | .binary _ left right _ => left.mentions name || right.mentions name
  | .prefixed _ operand _ => operand.mentions name
  | .suffixed _ operand _ => operand.mentions name
  | .apply _ arguments _ => anyMentions name arguments
  | .index base position _ => base.mentions name || position.mentions name
  | .select _ base _ _ => base.mentions name
  | .conditional test yes no _ => test.mentions name || yes.mentions name || no.mentions name

/-- Whether some expression of the list reads or writes the variable `name`. -/
def anyMentions (name : String) : List Expr → Bool
  | [] => false
  | first :: rest => first.mentions name || anyMentions name rest

end

end Expr

end ShaderTree
