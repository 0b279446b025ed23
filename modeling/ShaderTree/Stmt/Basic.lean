import ShaderTree.Declaration.Basic

/-!
# Statements

A statement is simple, or it has statements nested in it.  A statement that introduces variables
holds no more than the key of its declaration.

The module asks of a statement where it stands, which kind it is, which expressions it holds itself
and whether leaving it out could be observed.
-/

namespace ShaderTree

/-- The statements without statements nested in them. -/
inductive Simple where
  | breakOut
  | continueOn
  | discard
  | nop
  | evaluate (expr : Expr)
  | return (value : Option Expr)
  | declare (handle : Handle)

mutual

/-- A statement of a function body, as it is written at a span. -/
inductive Stmt where
  | simple (form : Simple) (span : Span)
  | block (stmts : List Stmt) (span : Span)
  | doWhile (body : Stmt) (test : Expr) (span : Span)
  | forLoop (start : Option Stmt) (test next : Option Expr) (body : Stmt) (span : Span)
  /-- A static choice is made when the shader is compiled. -/
  | choice (isStatic : Bool) (test : Expr) (yes : Stmt) (no : Option Stmt) (span : Span)
  | switch (isStatic : Bool) (value : Expr) (cases : List Case) (span : Span)
  | whileLoop (test : Expr) (body : Stmt) (span : Span)

/-- One case of a switch; a case without a label is the default. -/
inductive Case where
  | mk (label : Option Expr) (stmts : List Stmt)

end

namespace Case

/-- The value that leads to a case. -/
def label : Case → Option Expr
  | .mk label _ => label

/-- The statements of a case. -/
def stmts : Case → List Stmt
  | .mk _ stmts => stmts

end Case

/-- The kinds of statements. -/
inductive StmtKind where
  | block
  | breakOut
  | continueOn
  | discard
  | doWhile
  | evaluate
  | forLoop
  | choice
  | nop
  | return
  | switch
  | declare
  | whileLoop
deriving DecidableEq, Repr

namespace Simple

/-- The kind of a simple statement. -/
def kind : Simple → StmtKind
  | .breakOut => .breakOut
  | .continueOn => .continueOn
  | .discard => .discard
  | .nop => .nop
  | .evaluate _ => .evaluate
  | .return _ => .return
  | .declare _ => .declare

/-- The declaration that a statement holds, if it holds one. -/
def handle? : Simple → Option Handle
  | .declare handle => some handle
  | _ => none

end Simple

namespace Stmt

/-- Where a statement is written. -/
def span : Stmt → Span
  | .simple _ span | .block _ span | .doWhile _ _ span | .forLoop _ _ _ _ span
  | .choice _ _ _ _ span | .switch _ _ _ span | .whileLoop _ _ span => span

/-- The kind of a statement. -/
def kind : Stmt → StmtKind
  | .simple form _ => form.kind
  | .block _ _ => .block
  | .doWhile _ _ _ => .doWhile
  | .forLoop _ _ _ _ _ => .forLoop
  | .choice _ _ _ _ _ => .choice
  | .switch _ _ _ _ => .switch
  | .whileLoop _ _ _ => .whileLoop

/-- The declaration that a statement holds itself, if it holds one. -/
def handle? : Stmt → Option Handle
  | .simple form _ => form.handle?
  | _ => none

/-- The statement that does nothing. -/
def nop (span : Span) : Stmt :=
  .simple .nop span

/-- The statement that holds a declaration; it stands where its declaration stands. -/
def ofHandle {m : Type → Type} [Monad m] (look : Lookup m) (handle : Handle) : m Stmt := do
  return .simple (.declare handle) (← look handle).span

end Stmt

/-! ## Emptiness -/

section Emptiness

variable {m : Type → Type} [Monad m] (look : Lookup m)

/-- Whether leaving out a simple statement could not be observed. -/
def Simple.isEmpty : Simple → m Bool
  | .nop => pure true
  | .declare handle => do return (← look handle).isEmpty
  | .breakOut | .continueOn | .discard | .evaluate _ | .return _ => pure false

mutual

/--
Whether leaving out a statement could not be observed: it does nothing, it is a block of such
statements, or it declares variables without initializers.
-/
def Stmt.isEmpty : Stmt → m Bool
  | .simple form _ => form.isEmpty look
  | .block stmts _ => Stmt.allEmpty stmts
  | .doWhile _ _ _ | .forLoop _ _ _ _ _ | .choice _ _ _ _ _ | .switch _ _ _ _
  | .whileLoop _ _ _ => pure false

/-- Whether every statement of a list can be left out; the first that cannot ends the search. -/
def Stmt.allEmpty : List Stmt → m Bool
  | [] => pure true
  | first :: rest => do
      if ← first.isEmpty then Stmt.allEmpty rest else return false

end

end Emptiness

end ShaderTree
