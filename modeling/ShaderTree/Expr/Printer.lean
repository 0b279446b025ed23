import ShaderTree.Decimal.Shortest
import ShaderTree.Expr.Basic

/-!
# The text of expressions

An expression is written with the parentheses that its place demands and no others.  A literal with
a minus sign binds as loosely as the operator of the same spelling.
-/

namespace ShaderTree

/-- A floating point literal keeps a point, so that it does not read as an integer. -/
def Binary64.text (number : Binary64) : String :=
  let sign := if number.isNegative then "-" else ""
  if number.isFinite then
    let decimal := Decimal.shortest number
    sign ++ decimal.text ++ if decimal.exponent < 0 then "" else ".0"
  else
    sign ++ "inf"

namespace Literal

/-- The rank of a literal: its sign is an operator, and the rest of it stands for itself. -/
def precedence : Literal → Precedence
  | .bool _ => .grouped
  | .int value => if value < 0 then .prefixed else .grouped
  | .float value => if value.isNegative then .prefixed else .grouped

/-- The spelling of a literal. -/
def text : Literal → String
  | .bool value => toString value
  | .int value => toString value
  | .float value => value.text

/--
A literal in a place of the given rank.  Truth values and integers without a sign are never put in
parentheses, not even in the tightest place.
-/
def within (place : Precedence) (literal : Literal) : String :=
  match literal with
  | .bool _ => literal.text
  | .int value =>
      if value < 0 then literal.precedence.enclose place literal.text else literal.text
  | .float _ => literal.precedence.enclose place literal.text

end Literal

/-- The spelling of what stands before arguments. -/
def Head.text : Head → String
  | .function name _ => name
  | .type ty => ty.text

namespace Expr

mutual

/-- An expression as it is written in a place of the given rank. -/
def within (place : Precedence) : Expr → String
  | .literal value _ => value.within place
  | .reference name _ => name
  | .binary op left right _ =>
      op.precedence.enclose place
        (left.within op.precedence ++ " " ++ op.text ++ " " ++ right.within op.precedence)
  | .prefixed op operand _ => Precedence.prefixed.enclose place (op.text ++ operand.within .prefixed)
  | .suffixed op operand _ => Precedence.suffixed.enclose place (operand.within .suffixed ++ op.text)
  | .apply head arguments _ => head.text ++ "(" ++ argumentsText arguments ++ ")"
  | .index base position _ => base.within .suffixed ++ "[" ++ position.within .topLevel ++ "]"
  | .select _ base name _ => base.within .suffixed ++ "." ++ name
  | .conditional test yes no _ =>
      Precedence.conditional.enclose place
        (test.within .conditional ++ " ? " ++ yes.within .conditional ++ " : " ++
          no.within .conditional)

/-- Arguments, with a comma and a space between each two. -/
def argumentsText : List Expr → String
  | [] => ""
  | [last] => last.within .sequence
  | first :: rest => first.within .sequence ++ ", " ++ argumentsText rest

end

/-- An expression as it is written where nothing stands around it. -/
def text (expr : Expr) : String :=
  expr.within .topLevel

end Expr

end ShaderTree
