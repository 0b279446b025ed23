import ShaderTree.Diagnostic
import ShaderTree.Event
import ShaderTree.Stmt.Printer
import ShaderTree.Stmt.Walk

/-!
# Elimination of empty statements

Every statement that can be left out of its list is taken out, the nested ones first.  A list is
swept from its end, so a declaration is kept for the sake of what survives behind it: it stays while
a later survivor of its list, or any statement of a later case of the same switch, mentions one of
its variables.  An empty `else` branch is dropped, and an empty body becomes `;` where the options
ask for it.  The root is never removed, and neither is the start of a loop.

Each pass over a piece of a tree returns the new piece with a tally of what was done to it.
-/

namespace ShaderTree

/-- What an elimination is asked to do. -/
structure EliminationOptions where
  /-- Without this the tree stays as it is. -/
  eliminates : Bool := true
  /-- The body of a loop or of an `if` becomes `;` once it is empty. -/
  collapsesBodies : Bool := true
deriving DecidableEq, Repr

/-- What was done to a piece of a tree. -/
structure Tally where
  /-- The number of statements taken out of their places. -/
  count : Nat := 0
  events : List Event := []
  warnings : List Diagnostic := []

namespace Tally

/-- What was done first, and then what was done after it. -/
instance : Append Tally where
  append first second :=
    ⟨first.count + second.count, first.events ++ second.events, first.warnings ++ second.warnings⟩

/-- Nothing was done. -/
def nothing : Tally := {}

end Tally

section Elimination

variable {m : Type → Type} [Monad m] (look : Lookup m)

/-- The variables that a statement declares itself. -/
def Stmt.declarators (stmt : Stmt) : m (List Declarator) := do
  match stmt.handle? with
  | some handle => return (← look handle).declarators
  | none => return []

/-- The tally of taking a statement out of its place; the variables it declares are unused. -/
def Tally.ofElided (reason : Reason) (stmt : Stmt) : m Tally := do
  let event := Event.eliding reason stmt.span.offset (← stmt.text look)
  let unused := (← stmt.declarators look).map fun declarator =>
    Diagnostic.unusedVariable declarator.name declarator.span
  return ⟨1, [event], unused⟩

/-- The tally of leaving a simple statement in its place. -/
def Tally.ofSimple (form : Simple) (span : Span) : Tally :=
  match form with
  | .evaluate expr =>
      if expr.hasEffect then .nothing else { warnings := [.withoutEffect span] }
  | _ => .nothing

/-- Whether a later statement mentions a variable that a statement declares itself. -/
def Stmt.isUsedBy (stmt : Stmt) (later : List Stmt) : m Bool := do
  let declarators ← stmt.declarators look
  later.anyM fun each =>
    declarators.anyM fun declarator => each.mentions look declarator.name

/--
Sweeps a list of statements from its end.  The statements of `outside` come later than all of the
list.
-/
def sweep (outside : List Stmt) : List Stmt → m (List Stmt × Tally)
  | [] => return ([], .nothing)
  | first :: rest => do
      let (kept, tally) ← sweep outside rest
      if ← first.isEmpty look then
        if ← first.isUsedBy look (kept ++ outside) then
          return (first :: kept, tally)
        else
          return (kept, tally ++ (← Tally.ofElided look .emptyStatement first))
      else
        return (first :: kept, tally)

/-- Sweeps a list to whose statements something was done before. -/
def sweepAfter (outside : List Stmt) (pruned : List Stmt × Tally) : m (List Stmt × Tally) := do
  let (stmts, before) := pruned
  let (kept, tally) ← sweep look outside stmts
  return (kept, before ++ tally)

/-- Puts `;` in the place of a body that has become empty. -/
def collapseAfter (options : EliminationOptions) (pruned : Stmt × Tally) : m (Stmt × Tally) := do
  let (body, before) := pruned
  if options.collapsesBodies ∧ body.kind ≠ .nop then
    if ← body.isEmpty look then
      return (.nop body.span, before ++ (← Tally.ofElided look .emptyBody body))
    else
      return pruned
  else
    return pruned

/-- Drops an `else` branch that has become empty. -/
def dropAfter (pruned : Stmt × Tally) : m (Option Stmt × Tally) := do
  let (branch, before) := pruned
  if ← branch.isEmpty look then
    return (none, before ++ (← Tally.ofElided look .emptyElse branch))
  else
    return (some branch, before)

variable (options : EliminationOptions)

mutual

/-- Takes the empty statements out of all lists within a statement. -/
def prune : Stmt → m (Stmt × Tally)
  | .simple form span => return (.simple form span, .ofSimple form span)
  | .block stmts span => do
      let (stmts, tally) ← sweepAfter look [] (← pruneEach stmts)
      return (.block stmts span, tally)
  | .doWhile body test span => do
      let (body, tally) ← collapseAfter look options (← prune body)
      return (.doWhile body test span, tally)
  | .forLoop start test next body span => do
      let (body, tally) ← collapseAfter look options (← prune body)
      return (.forLoop start test next body span, tally)
  | .choice isStatic test yes (some no) span => do
      let (yes, yesTally) ← collapseAfter look options (← prune yes)
      let (no, noTally) ← dropAfter look (← prune no)
      return (.choice isStatic test yes no span, yesTally ++ noTally)
  | .choice isStatic test yes none span => do
      let (yes, tally) ← collapseAfter look options (← prune yes)
      return (.choice isStatic test yes none span, tally)
  | .switch isStatic value cases span => do
      let (cases, tally) ← pruneCases cases
      return (.switch isStatic value cases span, tally)
  | .whileLoop test body span => do
      let (body, tally) ← collapseAfter look options (← prune body)
      return (.whileLoop test body span, tally)

/-- Prunes each statement of a list, which is not swept yet. -/
def pruneEach : List Stmt → m (List Stmt × Tally)
  | [] => return ([], .nothing)
  | first :: rest => do
      let (first, firstTally) ← prune first
      let (rest, restTally) ← pruneEach rest
      return (first :: rest, firstTally ++ restTally)

/-- Prunes and sweeps each case in turn, the later cases still being as they were. -/
def pruneCases : List Case → m (List Case × Tally)
  | [] => return ([], .nothing)
  | .mk label stmts :: rest => do
      let (stmts, tally) ← sweepAfter look (rest.flatMap Case.stmts) (← pruneEach stmts)
      let (rest, restTally) ← pruneCases rest
      return (.mk label stmts :: rest, tally ++ restTally)

end

/-- The outcome of an elimination. -/
structure Elimination where
  body : Stmt
  /-- The number of statements removed or replaced by `;`. -/
  count : Nat
  events : List Event
  diagnostics : Diagnostics

/-- Takes the empty statements out of a function body, and tells the author what was odd. -/
def Stmt.eliminateEmpty (diagnostics : Diagnostics) (body : Stmt) : m Elimination := do
  if options.eliminates then
    let (body, tally) ← prune look options body
    return {
      body
      count := tally.count
      events := tally.events ++ [.eliminated tally.count]
      diagnostics := diagnostics.pushAll tally.warnings }
  else
    return { body, count := 0, events := [], diagnostics }

end Elimination

end ShaderTree
