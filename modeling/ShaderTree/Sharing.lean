import ShaderTree.Event
import ShaderTree.Stmt.Walk

/-!
# Shared declarations

A copy of a statement holds the declarations of the statement it was made from.  Before a
declaration is rewritten for one holder alone, the other holders are given copies of it; the first
holder in the order of a walk keeps the declaration itself.
-/

namespace ShaderTree

/-- Copies a statement for another place; the copy holds the same declarations. -/
def Stmt.duplicate (stmt : Stmt) : Stmt × List Event :=
  (stmt, [.duplicating stmt.span.offset])

/-- How far giving away copies of a declaration has come. -/
structure Unsharing where
  declarations : Declarations
  /-- The holder that keeps the declaration has been met. -/
  metFirst : Bool := false
  copies : Nat := 0
  events : List Event := []

namespace Unsharing

/-- Gives a holder of the target a copy of it, unless it is the first holder met. -/
def visit (target : Handle) (stmt : Stmt) : StateT Unsharing (Except Fault) Edit := do
  if stmt.handle? = some target then
    let state ← get
    if state.metFirst then
      let (copy, declarations) ← state.declarations.complete (Store.duplicate target)
      set { state with
        declarations
        copies := state.copies + 1
        events := state.events ++ [Event.unsharing stmt.span.offset copy] }
      return .become (.declare copy) stmt.span
    else
      set { state with metFirst := true }
      return .keep stmt.span
  else
    return .keep stmt.span

end Unsharing

/-- Gives every holder of the target under a root, except the first, a declaration of its own. -/
def Stmt.unshare (root : Stmt) (declarations : Declarations) (target : Handle) :
    Except Fault (Stmt × Unsharing) :=
  (root.rewrite (Unsharing.visit target)).run { declarations }

/-- Takes the initializer of the first variable of a name away from it, and returns it. -/
def Declarations.stripInitializer (declarations : Declarations) (handle : Handle) (name : String) :
    Except Fault (Option Expr × Declarations) := do
  let declaration ← declarations.fetch handle
  let removed := (declaration.find? name).bind Declarator.value
  let (_, changed) ← declarations.complete (Store.modify handle (·.setValue name none))
  return (removed, changed)

end ShaderTree
