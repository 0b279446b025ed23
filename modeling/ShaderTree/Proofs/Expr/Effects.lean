import ShaderTree.Proofs.Tree.Induction

/-!
# Where effects come from

Three forms of expressions change the state of the program by themselves: assignments, steps and
calls of functions that are not known to be pure.  Evaluating an expression has an effect exactly if
one of these forms occurs in it, however deep.
-/

namespace ShaderTree

namespace Expr

mutual

/-- An expression and all expressions that occur in it, each before its operands. -/
def parts : Expr → List Expr
  | expr@(.literal _ _) | expr@(.reference _ _) => [expr]
  | expr@(.binary _ left right _) => expr :: (left.parts ++ right.parts)
  | expr@(.prefixed _ operand _) => expr :: operand.parts
  | expr@(.suffixed _ operand _) => expr :: operand.parts
  | expr@(.apply _ arguments _) => expr :: partsOfList arguments
  | expr@(.index base position _) => expr :: (base.parts ++ position.parts)
  | expr@(.select _ base _ _) => expr :: base.parts
  | expr@(.conditional test yes no _) => expr :: (test.parts ++ (yes.parts ++ no.parts))

/-- The expressions of a list and all expressions that occur in them. -/
def partsOfList : List Expr → List Expr
  | [] => []
  | first :: rest => first.parts ++ partsOfList rest

end

/--
Whether an expression changes the state of the program by itself: it is an assignment, `++` or `--`,
or a call of a function that is not known to be pure.
-/
def isEffect : Expr → Bool
  | .binary (.assign _) _ _ _ | .prefixed (.step _) _ _ | .suffixed _ _ _ => true
  | .apply (.function _ isPure) _ _ => !isPure
  | _ => false

theorem anyHasEffect_eq_any_parts {exprs : List Expr}
    (each : ∀ expr ∈ exprs, expr.hasEffect = expr.parts.any isEffect) :
    anyHasEffect exprs = (partsOfList exprs).any isEffect := by
  induction exprs with
  | nil => rfl
  | cons first rest ih =>
      rw [List.forall_mem_cons] at each
      rw [anyHasEffect, partsOfList, List.any_append, each.1, ih each.2]

/-- Evaluating an expression has an effect if and only if an expression in it changes the state. -/
theorem hasEffect_eq_any_parts (expr : Expr) : expr.hasEffect = expr.parts.any isEffect := by
  induction expr using Expr.induction with
  | literal value span => rfl
  | reference name span => rfl
  | binary op left right span ihLeft ihRight =>
      rw [hasEffect, parts, List.any_cons, List.any_append, ihLeft, ihRight, Bool.or_assoc]
      cases op <;> rfl
  | prefixed op operand span ih =>
      rw [hasEffect, parts, List.any_cons, ih]
      cases op <;> rfl
  | suffixed op operand span ih => rw [hasEffect, parts, List.any_cons, isEffect, Bool.true_or]
  | apply head arguments span ih =>
      cases head with
      | function name isPure =>
          rw [hasEffect, parts, List.any_cons, anyHasEffect_eq_any_parts ih, isEffect]
      | type ty =>
          rw [hasEffect, parts, List.any_cons, anyHasEffect_eq_any_parts ih]
          rfl
  | index base position span ihBase ihPosition =>
      rw [hasEffect, parts, List.any_cons, List.any_append, ihBase, ihPosition]
      rfl
  | select selection base name span ih =>
      rw [hasEffect, parts, List.any_cons, ih]
      rfl
  | conditional test yes no span ihTest ihYes ihNo =>
      rw [hasEffect, parts, List.any_cons, List.any_append, List.any_append, ihTest, ihYes, ihNo,
        Bool.or_assoc]
      rfl

end Expr

end ShaderTree
