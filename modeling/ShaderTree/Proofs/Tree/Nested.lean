import ShaderTree.Proofs.Tree.Induction
import ShaderTree.Stmt.Walk

/-!
# The statements one level below

What a walk visits, what a tree holds and what it mentions are found by the same descent: from a
statement to the statements nested in it directly.  With these named once, each of the three has a
single equation for all forms of statements.
-/

namespace ShaderTree

namespace Stmt

/-- The statements nested directly in a statement, in the order in which they are written. -/
def nested : Stmt → List Stmt
  | .simple _ _ => []
  | .block stmts _ => stmts
  | .doWhile body _ _ => [body]
  | .forLoop start _ _ body _ => start.toList ++ [body]
  | .choice _ _ yes no _ => yes :: no.toList
  | .switch _ _ cases _ => cases.flatMap Case.stmts
  | .whileLoop _ body _ => [body]

/-- A property that passes from the statements nested in a statement to the statement always holds. -/
theorem nestedInduction {motive : Stmt → Prop}
    (step : ∀ stmt, (∀ below ∈ stmt.nested, motive below) → motive stmt) :
    ∀ stmt, motive stmt := by
  intro stmt
  induction stmt using Stmt.induction with
  | simple form span => exact step _ (List.forall_mem_nil motive)
  | block stmts span ih => exact step _ ih
  | doWhile body test span ih => exact step _ (List.forall_mem_singleton.2 ih)
  | forLoop start test next body span ihStart ihBody =>
      apply step
      intro below within
      rcases List.mem_append.1 within with inStart | inBody
      · exact ihStart below (Option.mem_toList.1 inStart)
      · exact List.mem_singleton.1 inBody ▸ ihBody
  | choice isStatic test yes no span ihYes ihNo =>
      apply step
      intro below within
      rcases List.mem_cons.1 within with same | inNo
      · exact same ▸ ihYes
      · exact ihNo below (Option.mem_toList.1 inNo)
  | switch isStatic value cases span ih =>
      apply step
      intro below within
      obtain ⟨each, inCases, inStmts⟩ := List.mem_flatMap.1 within
      exact ih each inCases below inStmts
  | whileLoop test body span ih => exact step _ (List.forall_mem_singleton.2 ih)

/-! ## What a walk visits -/

@[simp] theorem nodesOfList_eq_flatMap (stmts : List Stmt) :
    nodesOfList stmts = stmts.flatMap nodes := by
  induction stmts with
  | nil => rfl
  | cons first rest ih => simp [nodesOfList, ih]

@[simp] theorem nodesOfCases_eq_flatMap (cases : List Case) :
    nodesOfCases cases = (cases.flatMap Case.stmts).flatMap nodes := by
  induction cases with
  | nil => rfl
  | cons first rest ih =>
      obtain ⟨label, stmts⟩ := first
      simp [nodesOfCases, ih, Case.stmts]

/-- A walk visits a statement and then walks each statement nested in it. -/
theorem nodes_eq (stmt : Stmt) : stmt.nodes = stmt :: stmt.nested.flatMap nodes := by
  cases stmt with
  | forLoop start test next body span => cases start <;> simp [nodes, nested]
  | choice isStatic test yes no span => cases no <;> simp [nodes, nested]
  | _ => simp [nodes, nested]

theorem self_mem_nodes (stmt : Stmt) : stmt ∈ stmt.nodes := by
  rw [nodes_eq]
  exact List.mem_cons_self

theorem mem_nodes_of_mem_nested {stmt below node : Stmt}
    (inNested : below ∈ stmt.nested) (inNodes : node ∈ below.nodes) : node ∈ stmt.nodes := by
  rw [nodes_eq]
  exact List.mem_cons_of_mem _ (List.mem_flatMap.2 ⟨below, inNested, inNodes⟩)

/-- A property holds throughout a tree if it holds of the root and throughout the trees below it. -/
theorem forall_mem_nodes_iff {stmt : Stmt} {property : Stmt → Prop} :
    (∀ node ∈ stmt.nodes, property node) ↔
      property stmt ∧ ∀ below ∈ stmt.nested, ∀ node ∈ below.nodes, property node := by
  rw [nodes_eq, List.forall_mem_cons, List.forall_mem_flatMap]

/-- What a walk collects comes from the root and from the statements nested in the root. -/
theorem filterMap_nodes_eq {α : Type} (f : Stmt → Option α) (stmt : Stmt) :
    stmt.nodes.filterMap f =
      (f stmt).toList ++ stmt.nested.flatMap fun below => below.nodes.filterMap f := by
  rw [nodes_eq, List.filterMap_cons, List.filterMap_flatMap]
  cases f stmt <;> rfl

/-! ## What a tree holds -/

/-- The handles that the statements of a tree hold, in the order of a walk. -/
def handles (stmt : Stmt) : List Handle :=
  stmt.nodes.filterMap handle?

/-- A tree holds the handle of its root and those of the statements nested in the root. -/
theorem handles_eq (stmt : Stmt) :
    stmt.handles = stmt.handle?.toList ++ stmt.nested.flatMap handles :=
  filterMap_nodes_eq handle? stmt

theorem mem_handles {stmt : Stmt} {handle : Handle} :
    handle ∈ stmt.handles ↔
      stmt.handle? = some handle ∨ ∃ below ∈ stmt.nested, handle ∈ below.handles := by
  rw [handles_eq]
  simp

end Stmt

end ShaderTree
