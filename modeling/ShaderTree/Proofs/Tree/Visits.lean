import ShaderTree.Proofs.Tree.Nested

/-!
# What a rewriting walk does on its way

A rewriting walk comes back with a tree, and it shows statements to a visitor on its way.  A visitor that
puts nothing in the place of a statement that is not simple does not change where the walk goes.  Apart
from the tree that it comes back with, such a walk does no more than a visit of each statement of the
tree, in the order of a walk, in whatever monad the visitor works.
-/

namespace ShaderTree

namespace Stmt

/-- Whether a statement is simple. -/
def isSimple : Stmt → Bool
  | .simple _ _ => true
  | .block _ _ | .doWhile _ _ _ | .forLoop _ _ _ _ _ | .choice _ _ _ _ _ | .switch _ _ _ _
  | .whileLoop _ _ _ => false

section Visits

variable {m : Type → Type} [Monad m] (visit : Stmt → m Edit)

/-- A visitor keeps every statement that is not simple, though it may move it. -/
def Keeping : Prop :=
  ∀ stmt : Stmt, stmt.isSimple = false → ∃ place : m Span, visit stmt = Edit.keep <$> place

/-- Shows statements to a visitor, one after the other, and puts none of its edits in place. -/
def visitEach : List Stmt → m Unit
  | [] => pure ()
  | first :: rest => do
      let _ ← visit first
      visitEach rest

end Visits

variable {m : Type → Type} [Monad m] [LawfulMonad m] {visit : Stmt → m Edit}

@[simp] theorem visitEach_append (first second : List Stmt) :
    visitEach visit (first ++ second) =
      (do visitEach visit first; visitEach visit second) := by
  induction first with
  | nil => simp [visitEach]
  | cons stmt rest ih => simp [visitEach, ih]

/-- A walk visits a kept statement and then does what it does in the nested ones. -/
theorem discard_settle (keeping : Keeping visit) {stmt : Stmt} (composed : stmt.isSimple = false)
    {nested : Span → m Stmt}
    (walks : ∀ span, (fun _ => ()) <$> nested span = visitEach visit (stmt.nested.flatMap nodes)) :
    (fun _ => ()) <$> (visit stmt >>= fun edit => edit.settle nested) =
      visitEach visit stmt.nodes := by
  obtain ⟨place, same⟩ := keeping stmt composed
  rw [nodes_eq, visitEach, map_bind, same, bind_map_left, bind_map_left]
  exact bind_congr fun span => walks span

theorem discard_rewriteList {stmts : List Stmt}
    (walks : ∀ stmt ∈ stmts, (fun _ => ()) <$> stmt.rewrite visit = visitEach visit stmt.nodes) :
    (fun _ => ()) <$> rewriteList visit stmts = visitEach visit (stmts.flatMap nodes) := by
  induction stmts with
  | nil => exact map_pure _ _
  | cons first rest ih =>
      rw [List.forall_mem_cons] at walks
      rw [List.flatMap_cons, visitEach_append, ← walks.1, ← ih walks.2, rewriteList]
      simp

theorem discard_rewriteCases {cases : List Case}
    (walks : ∀ stmt ∈ cases.flatMap Case.stmts,
      (fun _ => ()) <$> stmt.rewrite visit = visitEach visit stmt.nodes) :
    (fun _ => ()) <$> rewriteCases visit cases =
      visitEach visit ((cases.flatMap Case.stmts).flatMap nodes) := by
  induction cases with
  | nil => exact map_pure _ _
  | cons first rest ih =>
      obtain ⟨label, stmts⟩ := first
      rw [List.flatMap_cons, Case.stmts, List.forall_mem_append] at walks
      rw [List.flatMap_cons, Case.stmts, List.flatMap_append, visitEach_append,
        ← discard_rewriteList walks.1, ← ih walks.2, rewriteCases]
      simp

/-- Apart from the tree that it comes back with, a keeping walk visits the statements of the tree. -/
theorem discard_rewrite (keeping : Keeping visit) (stmt : Stmt) :
    (fun _ => ()) <$> stmt.rewrite visit = visitEach visit stmt.nodes := by
  induction stmt using nestedInduction with
  | step stmt ih =>
      cases stmt with
      | simple form span =>
          rw [rewrite, map_bind]
          refine bind_congr fun edit => ?_
          cases edit <;> exact map_pure _ _
      | block stmts span =>
          refine discard_settle keeping rfl fun span => ?_
          rw [← discard_rewriteList ih]
          simp [nested]
      | doWhile body test span =>
          refine discard_settle keeping rfl fun span => ?_
          simp [nested, ← ih body (List.mem_singleton_self body)]
      | forLoop start test next body span =>
          cases start with
          | none =>
              refine discard_settle keeping rfl fun span => ?_
              simp [nested, ← ih body (List.mem_singleton_self body)]
          | some start =>
              refine discard_settle keeping rfl fun span => ?_
              simp [nested, ← ih start List.mem_cons_self,
                ← ih body (List.mem_cons_of_mem _ (List.mem_singleton_self body))]
      | choice isStatic test yes no span =>
          cases no with
          | none =>
              refine discard_settle keeping rfl fun span => ?_
              simp [nested, ← ih yes List.mem_cons_self]
          | some no =>
              refine discard_settle keeping rfl fun span => ?_
              simp [nested, ← ih yes List.mem_cons_self,
                ← ih no (List.mem_cons_of_mem _ (List.mem_singleton_self no))]
      | switch isStatic value cases span =>
          refine discard_settle keeping rfl fun span => ?_
          rw [nested, ← discard_rewriteCases ih]
          simp
      | whileLoop test body span =>
          refine discard_settle keeping rfl fun span => ?_
          simp [nested, ← ih body (List.mem_singleton_self body)]

end Stmt

end ShaderTree
