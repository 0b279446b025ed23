import ShaderTree.Stmt.Basic

/-!
# Induction over trees

Trees nest their subtrees in lists, in cases and in optional places.  The principles below hide
these layers: a property passes to a tree as soon as it holds of every subtree one level below,
wherever that subtree stands.
-/

namespace ShaderTree

/-- A property that passes from the operands of each form to the form holds of all expressions. -/
theorem Expr.induction {motive : Expr → Prop}
    (literal : ∀ value span, motive (.literal value span))
    (reference : ∀ name span, motive (.reference name span))
    (binary : ∀ op left right span, motive left → motive right →
      motive (.binary op left right span))
    (prefixed : ∀ op operand span, motive operand → motive (.prefixed op operand span))
    (suffixed : ∀ op operand span, motive operand → motive (.suffixed op operand span))
    (apply : ∀ head arguments span, (∀ argument ∈ arguments, motive argument) →
      motive (.apply head arguments span))
    (index : ∀ base position span, motive base → motive position →
      motive (.index base position span))
    (select : ∀ selection base name span, motive base → motive (.select selection base name span))
    (conditional : ∀ test yes no span, motive test → motive yes → motive no →
      motive (.conditional test yes no span)) :
    ∀ expr, motive expr :=
  @Expr.rec motive (fun arguments => ∀ argument ∈ arguments, motive argument)
    literal reference binary prefixed suffixed apply index select conditional
    (List.forall_mem_nil motive)
    (fun _ _ first rest => List.forall_mem_cons.2 ⟨first, rest⟩)

/-- A property that passes from the statements nested in each form to the form holds of all trees. -/
theorem Stmt.induction {motive : Stmt → Prop}
    (simple : ∀ form span, motive (.simple form span))
    (block : ∀ stmts span, (∀ stmt ∈ stmts, motive stmt) → motive (.block stmts span))
    (doWhile : ∀ body test span, motive body → motive (.doWhile body test span))
    (forLoop : ∀ start test next body span, (∀ stmt ∈ start, motive stmt) → motive body →
      motive (.forLoop start test next body span))
    (choice : ∀ isStatic test yes no span, motive yes → (∀ stmt ∈ no, motive stmt) →
      motive (.choice isStatic test yes no span))
    (switch : ∀ isStatic value cases span,
      (∀ each ∈ cases, ∀ stmt ∈ each.stmts, motive stmt) →
      motive (.switch isStatic value cases span))
    (whileLoop : ∀ test body span, motive body → motive (.whileLoop test body span)) :
    ∀ stmt, motive stmt :=
  @Stmt.rec motive (fun each => ∀ stmt ∈ each.stmts, motive stmt)
    (fun stmts => ∀ stmt ∈ stmts, motive stmt) (fun branch => ∀ stmt ∈ branch, motive stmt)
    (fun cases => ∀ each ∈ cases, ∀ stmt ∈ each.stmts, motive stmt)
    simple block doWhile forLoop choice switch whileLoop
    (fun _ _ nested => nested)
    (List.forall_mem_nil motive)
    (fun _ _ first rest => List.forall_mem_cons.2 ⟨first, rest⟩)
    (fun _ absent => nomatch absent)
    (fun _ present _ same => Option.some.inj same ▸ present)
    (fun _ absent => nomatch absent)
    (fun _ _ first rest => List.forall_mem_cons.2 ⟨first, rest⟩)

end ShaderTree
