import ShaderTree.Stmt.Basic

/-!
# Walking a statement

A walk visits a statement and then every statement nested in it, in the order in which they are
written: the start of a loop before its body, and the branches and the cases in turn.  The visited
statements are given as a list.  A rewriting walk shows each statement to a visitor, puts the
visitor's edit in its place, and goes on into what the edit left nested.
-/

namespace ShaderTree

namespace Stmt

mutual

/-- The statement and all statements nested in it, in the order of a walk. -/
def nodes : Stmt → List Stmt
  | stmt@(.simple _ _) => [stmt]
  | stmt@(.block stmts _) => stmt :: nodesOfList stmts
  | stmt@(.doWhile body _ _) => stmt :: body.nodes
  | stmt@(.forLoop (some start) _ _ body _) => stmt :: (start.nodes ++ body.nodes)
  | stmt@(.forLoop none _ _ body _) => stmt :: body.nodes
  | stmt@(.choice _ _ yes (some no) _) => stmt :: (yes.nodes ++ no.nodes)
  | stmt@(.choice _ _ yes none _) => stmt :: yes.nodes
  | stmt@(.switch _ _ cases _) => stmt :: nodesOfCases cases
  | stmt@(.whileLoop _ body _) => stmt :: body.nodes

/-- The statements that a walk of each statement of a list visits. -/
def nodesOfList : List Stmt → List Stmt
  | [] => []
  | first :: rest => first.nodes ++ nodesOfList rest

/-- The statements that a walk of the statements of each case visits. -/
def nodesOfCases : List Case → List Stmt
  | [] => []
  | .mk _ stmts :: rest => nodesOfList stmts ++ nodesOfCases rest

end

/-- The number of statements of a tree that hold the declaration of a handle. -/
def holders (stmt : Stmt) (handle : Handle) : Nat :=
  stmt.nodes.countP fun node => node.handle? = some handle

end Stmt

/-! ## Mentions -/

section Mentions

variable {m : Type → Type} [Monad m] (look : Lookup m)

/-- Whether an expression of a simple statement, or of its declaration, mentions a variable. -/
def Simple.mentions (name : String) : Simple → m Bool
  | .evaluate expr => pure (expr.mentions name)
  | .return value => pure (value.any (Expr.mentions name))
  | .declare handle => do return (← look handle).mentions name
  | .breakOut | .continueOn | .discard | .nop => pure false

namespace Stmt

/-- Whether an expression that a statement holds itself mentions a variable. -/
def mentionsItself (name : String) : Stmt → m Bool
  | .simple form _ => form.mentions look name
  | .block _ _ => pure false
  | .doWhile _ test _ => pure (test.mentions name)
  | .forLoop _ test next _ _ => pure (test.any (Expr.mentions name) || next.any (Expr.mentions name))
  | .choice _ test _ _ _ => pure (test.mentions name)
  | .switch _ value cases _ =>
      pure (value.mentions name || cases.any fun each => each.label.any (Expr.mentions name))
  | .whileLoop test _ _ => pure (test.mentions name)

/--
Whether any expression of a tree mentions a variable, the sizes and the initializers of the declared
variables included.  Nothing is looked up after the first mention.
-/
def mentions (stmt : Stmt) (name : String) : m Bool :=
  stmt.nodes.anyM fun node => node.mentionsItself look name

end Stmt

end Mentions

/-! ## Rewriting -/

/-- Whether no statement is nested in a statement. -/
def Stmt.isLeaf : Stmt → Bool
  | .simple _ _ => true
  | .block stmts _ => stmts.isEmpty
  | .switch _ _ cases _ => cases.all fun each => each.stmts.isEmpty
  | .doWhile _ _ _ | .forLoop _ _ _ _ _ | .choice _ _ _ _ _ | .whileLoop _ _ _ => false

/-- What a visitor leaves in the place of a statement. -/
inductive Edit where
  /-- The statement with what is nested in it, at another span or the same. -/
  | keep (span : Span)
  /-- A statement with nothing nested in it; what was nested in the old one is not visited. -/
  | replace (stmt : Stmt) (leaf : stmt.isLeaf)

namespace Edit

/-- Puts a simple statement in the place of a statement. -/
def become (form : Simple) (span : Span) : Edit :=
  .replace (.simple form span) rfl

end Edit

section Rewriting

variable {m : Type → Type} [Monad m]

/-- Puts an edit in place; `nested` rewrites what is nested in a statement that is kept. -/
def Edit.settle (edit : Edit) (nested : Span → m Stmt) : m Stmt :=
  match edit with
  | .keep span => nested span
  | .replace stmt _ => pure stmt

namespace Stmt

variable (visit : Stmt → m Edit)

mutual

/-- Shows a statement and then each statement nested in what is left of it to a visitor. -/
def rewrite : Stmt → m Stmt
  | .simple form span => do
      (← visit (.simple form span)).settle fun span => pure (.simple form span)
  | .block stmts span => do
      (← visit (.block stmts span)).settle fun span => do
        return .block (← rewriteList stmts) span
  | .doWhile body test span => do
      (← visit (.doWhile body test span)).settle fun span => do
        return .doWhile (← body.rewrite) test span
  | .forLoop (some start) test next body span => do
      (← visit (.forLoop (some start) test next body span)).settle fun span => do
        return .forLoop (some (← start.rewrite)) test next (← body.rewrite) span
  | .forLoop none test next body span => do
      (← visit (.forLoop none test next body span)).settle fun span => do
        return .forLoop none test next (← body.rewrite) span
  | .choice isStatic test yes (some no) span => do
      (← visit (.choice isStatic test yes (some no) span)).settle fun span => do
        return .choice isStatic test (← yes.rewrite) (some (← no.rewrite)) span
  | .choice isStatic test yes none span => do
      (← visit (.choice isStatic test yes none span)).settle fun span => do
        return .choice isStatic test (← yes.rewrite) none span
  | .switch isStatic value cases span => do
      (← visit (.switch isStatic value cases span)).settle fun span => do
        return .switch isStatic value (← rewriteCases cases) span
  | .whileLoop test body span => do
      (← visit (.whileLoop test body span)).settle fun span => do
        return .whileLoop test (← body.rewrite) span

/-- Rewrites each statement of a list, in order. -/
def rewriteList : List Stmt → m (List Stmt)
  | [] => return []
  | first :: rest => do
      return (← first.rewrite) :: (← rewriteList rest)

/-- Rewrites the statements of each case, in order. -/
def rewriteCases : List Case → m (List Case)
  | [] => return []
  | .mk label stmts :: rest => do
      return .mk label (← rewriteList stmts) :: (← rewriteCases rest)

end

end Stmt

end Rewriting

end ShaderTree
