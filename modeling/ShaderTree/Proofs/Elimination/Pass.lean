import ShaderTree.Elimination
import ShaderTree.Proofs.Tree.View

/-!
# The pass under a view

An elimination is a pass over the tree that looks declarations up as it goes.  Under a view nothing
can fail, and each piece of the pass has an equation of its own: what a sweep leaves of a list, what
becomes of a body and of an `else` branch, and what the pass leaves of each form of statement.
-/

namespace ShaderTree

section Pieces

variable (view : View)

/-- The variables that a statement declares itself. -/
def Stmt.declared (stmt : Stmt) : List Declarator :=
  (stmt.declarators (m := Id) view).run

/-- Whether a later statement mentions a variable that a statement declares itself. -/
def Stmt.neededBy (stmt : Stmt) (later : List Stmt) : Bool :=
  (stmt.isUsedBy (m := Id) view later).run

/-- The tally of taking a statement out of its place. -/
def Stmt.elided (reason : Reason) (stmt : Stmt) : Tally :=
  (Tally.ofElided (m := Id) view reason stmt).run

/-- What a sweep leaves of a list, and what it did. -/
def sweeping (outside stmts : List Stmt) : List Stmt × Tally :=
  (sweep (m := Id) view outside stmts).run

/-- What a sweep leaves of a list. -/
def swept (outside stmts : List Stmt) : List Stmt :=
  (sweeping view outside stmts).1

/-- What becomes of an `else` branch to which the pass has been applied. -/
def Stmt.kept? (branch : Stmt) : Option Stmt :=
  if branch.idle view then none else some branch

variable (options : EliminationOptions)

/-- Whether `;` takes the place of a body to which the pass has been applied. -/
def Stmt.collapses (body : Stmt) : Bool :=
  options.collapsesBodies && body.kind ≠ .nop && body.idle view

/-- What becomes of a body to which the pass has been applied. -/
def Stmt.collapsed (body : Stmt) : Stmt :=
  if body.collapses view options then .nop body.span else body

/-- What the pass leaves of a tree, and what it did. -/
def Stmt.pruning (stmt : Stmt) : Stmt × Tally :=
  (prune (m := Id) view options stmt).run

/-- What the pass leaves of a tree. -/
def Stmt.pruned (stmt : Stmt) : Stmt :=
  (stmt.pruning view options).1

/-- What the pass leaves of the cases of a switch, and what it did. -/
def pruningCases (cases : List Case) : List Case × Tally :=
  (pruneCases (m := Id) view options cases).run

/-- What the pass leaves of the cases of a switch. -/
def prunedCases (cases : List Case) : List Case :=
  (pruningCases view options cases).1

/-- What the pass did to a tree. -/
def Stmt.tally (stmt : Stmt) : Tally :=
  (stmt.pruning view options).2

/-- What the pass did to a tree that stands as a body. -/
def Stmt.tallyAsBody (body : Stmt) : Tally :=
  (collapseAfter (m := Id) view options (body.pruning view options)).run.2

/-- What the pass did to a tree that stands as an `else` branch. -/
def Stmt.tallyAsBranch (branch : Stmt) : Tally :=
  (dropAfter (m := Id) view (branch.pruning view options)).run.2

/-- What the pass did to each tree of a list before the list was swept. -/
def tallyOfEach (stmts : List Stmt) : Tally :=
  (pruneEach (m := Id) view options stmts).run.2

/-- What the pass did to the cases of a switch. -/
def tallyOfCases (cases : List Case) : Tally :=
  (pruningCases view options cases).2

end Pieces

section Equations

variable {view : View} {options : EliminationOptions}

theorem Stmt.declared_eq (stmt : Stmt) :
    stmt.declared view = stmt.handle?.elim [] fun handle => (view handle).declarators := by
  unfold declared declarators
  cases stmt.handle? <;> rfl

theorem Stmt.neededBy_eq (stmt : Stmt) (later : List Stmt) :
    stmt.neededBy view later = later.any fun each =>
      (stmt.declared view).any fun declarator => each.usesName view declarator.name := by
  simp only [neededBy, isUsedBy, Id.run_bind, anyM_run]
  rfl

theorem Stmt.neededBy_append (stmt : Stmt) (later behind : List Stmt) :
    stmt.neededBy view (later ++ behind) =
      (stmt.neededBy view later || stmt.neededBy view behind) := by
  rw [neededBy_eq, neededBy_eq, neededBy_eq, List.any_append]

/-! ## Sweeps -/

/-- A sweep decides about a statement once it has swept what stands behind it. -/
theorem sweeping_cons (outside rest : List Stmt) (first : Stmt) :
    sweeping view outside (first :: rest) =
      if first.idle view && !first.neededBy view (swept view outside rest ++ outside) then
        (swept view outside rest,
          (sweeping view outside rest).2 ++ first.elided view .emptyStatement)
      else
        (first :: swept view outside rest, (sweeping view outside rest).2) := by
  by_cases idle : first.idle view = true
  · by_cases needed : first.neededBy view (swept view outside rest ++ outside) = true
    · simp_all [swept, sweeping, sweep, Stmt.idle, Stmt.neededBy]
    · simp_all [swept, sweeping, sweep, Stmt.idle, Stmt.neededBy, Stmt.elided]
  · simp_all [swept, sweeping, sweep, Stmt.idle]

@[simp] theorem swept_nil (outside : List Stmt) : swept view outside [] = [] :=
  rfl

theorem swept_cons (outside rest : List Stmt) (first : Stmt) :
    swept view outside (first :: rest) =
      if first.idle view && !first.neededBy view (swept view outside rest ++ outside) then
        swept view outside rest
      else
        first :: swept view outside rest := by
  rw [swept, sweeping_cons]
  split <;> rfl

/-- A sweep keeps the order of what it leaves. -/
theorem swept_sublist (outside stmts : List Stmt) : (swept view outside stmts).Sublist stmts := by
  induction stmts with
  | nil => exact .slnil
  | cons first rest ih =>
      rw [swept_cons]
      split
      · exact ih.cons first
      · exact ih.cons_cons first

/-! ## Trees -/

theorem pruneEach_run (stmts : List Stmt) :
    (pruneEach (m := Id) view options stmts).run.1 = stmts.map (Stmt.pruned view options) := by
  induction stmts with
  | nil => rfl
  | cons first rest ih =>
      rw [List.map_cons, ← ih]
      rfl

theorem collapseAfter_run (piece : Stmt × Tally) :
    (collapseAfter (m := Id) view options piece).run =
      if piece.1.collapses view options then
        (.nop piece.1.span, piece.2 ++ piece.1.elided view .emptyBody)
      else
        piece := by
  by_cases asked : options.collapsesBodies = true ∧ piece.1.kind ≠ .nop
  · by_cases idle : piece.1.idle view = true
    · simp_all [collapseAfter, Stmt.collapses, Stmt.idle, Stmt.elided]
    · simp_all [collapseAfter, Stmt.collapses, Stmt.idle]
  · have stays : piece.1.collapses view options = false := by
      simp_all [Stmt.collapses]
    simp [collapseAfter, if_neg asked, stays]

theorem collapseAfter_run_fst (piece : Stmt × Tally) :
    (collapseAfter (m := Id) view options piece).run.1 = piece.1.collapsed view options := by
  rw [collapseAfter_run, Stmt.collapsed]
  split <;> rfl

theorem dropAfter_run (piece : Stmt × Tally) :
    (dropAfter (m := Id) view piece).run =
      if piece.1.idle view then (none, piece.2 ++ piece.1.elided view .emptyElse)
      else (some piece.1, piece.2) := by
  by_cases idle : piece.1.idle view = true
  · simp_all [dropAfter, Stmt.idle, Stmt.elided]
  · simp_all [dropAfter, Stmt.idle]

theorem dropAfter_run_fst (piece : Stmt × Tally) :
    (dropAfter (m := Id) view piece).run.1 = piece.1.kept? view := by
  rw [dropAfter_run, Stmt.kept?]
  split <;> rfl

namespace Stmt

@[simp] theorem pruned_simple (form : Simple) (span : Span) :
    pruned view options (.simple form span) = .simple form span :=
  rfl

@[simp] theorem pruned_block (stmts : List Stmt) (span : Span) :
    pruned view options (.block stmts span) =
      .block (swept view [] (stmts.map (pruned view options))) span := by
  rw [← pruneEach_run]
  rfl

@[simp] theorem pruned_doWhile (body : Stmt) (test : Expr) (span : Span) :
    pruned view options (.doWhile body test span) =
      .doWhile ((body.pruned view options).collapsed view options) test span := by
  simp only [pruned, pruning, prune, Id.run_bind, Id.run_pure, collapseAfter_run_fst]

@[simp] theorem pruned_whileLoop (test : Expr) (body : Stmt) (span : Span) :
    pruned view options (.whileLoop test body span) =
      .whileLoop test ((body.pruned view options).collapsed view options) span := by
  simp only [pruned, pruning, prune, Id.run_bind, Id.run_pure, collapseAfter_run_fst]

@[simp] theorem pruned_forLoop (start : Option Stmt) (test next : Option Expr) (body : Stmt)
    (span : Span) :
    pruned view options (.forLoop start test next body span) =
      .forLoop start test next ((body.pruned view options).collapsed view options) span := by
  simp only [pruned, pruning, prune, Id.run_bind, Id.run_pure, collapseAfter_run_fst]

@[simp] theorem pruned_choice (isStatic : Bool) (test : Expr) (yes : Stmt) (no : Option Stmt)
    (span : Span) :
    pruned view options (.choice isStatic test yes no span) =
      .choice isStatic test ((yes.pruned view options).collapsed view options)
        (no.bind fun branch => (branch.pruned view options).kept? view) span := by
  cases no <;> simp only [pruned, pruning, prune, Id.run_bind, Id.run_pure, collapseAfter_run_fst,
    dropAfter_run_fst, Option.bind_none, Option.bind_some]

@[simp] theorem pruned_switch (isStatic : Bool) (value : Expr) (cases : List Case) (span : Span) :
    pruned view options (.switch isStatic value cases span) =
      .switch isStatic value (prunedCases view options cases) span :=
  rfl

end Stmt

@[simp] theorem prunedCases_nil : prunedCases view options [] = [] :=
  rfl

/-- A case is swept for the sake of the later cases as they were. -/
@[simp] theorem prunedCases_cons (label : Option Expr) (stmts : List Stmt) (rest : List Case) :
    prunedCases view options (.mk label stmts :: rest) =
      .mk label (swept view (rest.flatMap Case.stmts) (stmts.map (Stmt.pruned view options))) ::
        prunedCases view options rest := by
  rw [← pruneEach_run]
  rfl

/-! ## Tallies -/

@[simp] theorem tallyOfEach_nil : tallyOfEach view options [] = .nothing :=
  rfl

@[simp] theorem tallyOfEach_cons (first : Stmt) (rest : List Stmt) :
    tallyOfEach view options (first :: rest) =
      first.tally view options ++ tallyOfEach view options rest :=
  rfl

namespace Stmt

theorem tallyAsBody_eq (body : Stmt) :
    body.tallyAsBody view options =
      if (body.pruned view options).collapses view options then
        body.tally view options ++ (body.pruned view options).elided view .emptyBody
      else
        body.tally view options := by
  rw [tallyAsBody, collapseAfter_run, apply_ite Prod.snd]
  rfl

theorem tallyAsBranch_eq (branch : Stmt) :
    branch.tallyAsBranch view options =
      if (branch.pruned view options).idle view then
        branch.tally view options ++ (branch.pruned view options).elided view .emptyElse
      else
        branch.tally view options := by
  rw [tallyAsBranch, dropAfter_run, apply_ite Prod.snd]
  rfl

@[simp] theorem tally_simple (form : Simple) (span : Span) :
    tally view options (.simple form span) = .ofSimple form span :=
  rfl

@[simp] theorem tally_block (stmts : List Stmt) (span : Span) :
    tally view options (.block stmts span) =
      tallyOfEach view options stmts ++
        (sweeping view [] (stmts.map (pruned view options))).2 := by
  rw [← pruneEach_run]
  rfl

@[simp] theorem tally_doWhile (body : Stmt) (test : Expr) (span : Span) :
    tally view options (.doWhile body test span) = body.tallyAsBody view options :=
  rfl

@[simp] theorem tally_forLoop (start : Option Stmt) (test next : Option Expr) (body : Stmt)
    (span : Span) :
    tally view options (.forLoop start test next body span) = body.tallyAsBody view options :=
  rfl

@[simp] theorem tally_choice_some (isStatic : Bool) (test : Expr) (yes no : Stmt) (span : Span) :
    tally view options (.choice isStatic test yes (some no) span) =
      yes.tallyAsBody view options ++ no.tallyAsBranch view options :=
  rfl

@[simp] theorem tally_choice_none (isStatic : Bool) (test : Expr) (yes : Stmt) (span : Span) :
    tally view options (.choice isStatic test yes none span) = yes.tallyAsBody view options :=
  rfl

@[simp] theorem tally_switch (isStatic : Bool) (value : Expr) (cases : List Case) (span : Span) :
    tally view options (.switch isStatic value cases span) = tallyOfCases view options cases :=
  rfl

@[simp] theorem tally_whileLoop (test : Expr) (body : Stmt) (span : Span) :
    tally view options (.whileLoop test body span) = body.tallyAsBody view options :=
  rfl

end Stmt

@[simp] theorem tallyOfCases_nil : tallyOfCases view options [] = .nothing :=
  rfl

@[simp] theorem tallyOfCases_cons (label : Option Expr) (stmts : List Stmt) (rest : List Case) :
    tallyOfCases view options (.mk label stmts :: rest) =
      (tallyOfEach view options stmts ++
          (sweeping view (rest.flatMap Case.stmts) (stmts.map (Stmt.pruned view options))).2) ++
        tallyOfCases view options rest := by
  rw [← pruneEach_run]
  rfl

end Equations

end ShaderTree
