import ShaderTree.Proofs.Elimination.Survivors
import ShaderTree.Proofs.Tree.Written

/-!
# Elimination and erasure

Erasing a tree clears it of all that can be left out, whether anything mentions what it declares or
not.  Only the root and the starts of loops are out of its reach, as they are out of the reach of an
elimination.  A tree has the same erasure before an elimination and after it, so the two differ in
statements that can be left out and in nothing else.

Whether a statement can be left out depends on what is nested in it, but the pass does not change it
on any level, and an erasure does not either.
-/

namespace ShaderTree

variable {view : View} {options : EliminationOptions}

/-! ## Erasures -/

section Erasure

variable (view : View)

namespace Stmt

mutual

/--
A tree without the statements that can be left out: lists lose them, bodies become `;` at their own
span, and `else` branches are dropped.
-/
def erase : Stmt → Stmt
  | .simple form span => .simple form span
  | .block stmts span => .block (eraseList stmts) span
  | .doWhile body test span =>
      .doWhile (if body.idle view then .nop body.span else body.erase) test span
  | .forLoop start test next body span =>
      .forLoop start test next (if body.idle view then .nop body.span else body.erase) span
  | .choice isStatic test yes (some no) span =>
      .choice isStatic test (if yes.idle view then .nop yes.span else yes.erase)
        (if no.idle view then none else some no.erase) span
  | .choice isStatic test yes none span =>
      .choice isStatic test (if yes.idle view then .nop yes.span else yes.erase) none span
  | .switch isStatic value cases span => .switch isStatic value (eraseCases cases) span
  | .whileLoop test body span =>
      .whileLoop test (if body.idle view then .nop body.span else body.erase) span

/-- The erasures of the statements of a list that cannot be left out. -/
def eraseList : List Stmt → List Stmt
  | [] => []
  | first :: rest => if first.idle view then eraseList rest else first.erase :: eraseList rest

/-- Cases with the erasures of those of their statements that cannot be left out. -/
def eraseCases : List Case → List Case
  | [] => []
  | .mk label stmts :: rest => .mk label (eraseList stmts) :: eraseCases rest

end

/-- The erasure of a body. -/
def eraseBody (body : Stmt) : Stmt :=
  if body.idle view then .nop body.span else body.erase view

/-- The erasure of an `else` branch. -/
def eraseBranch? (branch : Stmt) : Option Stmt :=
  if branch.idle view then none else some (branch.erase view)

end Stmt

end Erasure

namespace Stmt

@[simp] theorem erase_simple (form : Simple) (span : Span) :
    erase view (.simple form span) = .simple form span :=
  rfl

@[simp] theorem erase_block (stmts : List Stmt) (span : Span) :
    erase view (.block stmts span) = .block (eraseList view stmts) span :=
  rfl

@[simp] theorem erase_doWhile (body : Stmt) (test : Expr) (span : Span) :
    erase view (.doWhile body test span) = .doWhile (body.eraseBody view) test span :=
  rfl

@[simp] theorem erase_forLoop (start : Option Stmt) (test next : Option Expr) (body : Stmt)
    (span : Span) :
    erase view (.forLoop start test next body span) =
      .forLoop start test next (body.eraseBody view) span :=
  rfl

@[simp] theorem erase_choice (isStatic : Bool) (test : Expr) (yes : Stmt) (no : Option Stmt)
    (span : Span) :
    erase view (.choice isStatic test yes no span) =
      .choice isStatic test (yes.eraseBody view) (no.bind (eraseBranch? view)) span := by
  cases no <;> rfl

@[simp] theorem erase_switch (isStatic : Bool) (value : Expr) (cases : List Case) (span : Span) :
    erase view (.switch isStatic value cases span) =
      .switch isStatic value (eraseCases view cases) span :=
  rfl

@[simp] theorem erase_whileLoop (test : Expr) (body : Stmt) (span : Span) :
    erase view (.whileLoop test body span) = .whileLoop test (body.eraseBody view) span :=
  rfl

theorem eraseList_cons_of_idle {first : Stmt} (idle : first.idle view = true) (rest : List Stmt) :
    eraseList view (first :: rest) = eraseList view rest :=
  if_pos idle

/-- A list is erased statement by statement. -/
theorem eraseList_eq (stmts : List Stmt) :
    eraseList view stmts = stmts.flatMap fun stmt => (stmt.eraseBranch? view).toList := by
  induction stmts with
  | nil => rfl
  | cons first rest ih =>
      rw [eraseList, List.flatMap_cons, ← ih, eraseBranch?]
      split <;> rfl

theorem eraseBody_of_idle {body : Stmt} (idle : body.idle view = true) :
    body.eraseBody view = .nop body.span :=
  if_pos idle

/-! ## The erasure of what the pass leaves -/

theorem eraseBody_collapsed (body : Stmt) :
    (body.collapsed view options).eraseBody view = body.eraseBody view := by
  unfold collapsed
  split
  case isTrue gone =>
    rw [collapses, Bool.and_eq_true] at gone
    rw [eraseBody_of_idle gone.2, eraseBody_of_idle (idle_nop body.span)]
    rfl
  case isFalse => rfl

theorem bind_eraseBranch?_kept? (branch : Stmt) :
    (branch.kept? view).bind (eraseBranch? view) = branch.eraseBranch? view := by
  unfold kept?
  split
  case isTrue idle => exact (if_pos idle).symm
  case isFalse => rfl

theorem eraseBody_pruned {body : Stmt}
    (same : (body.pruned view options).erase view = body.erase view) :
    (body.pruned view options).eraseBody view = body.eraseBody view := by
  rw [eraseBody, eraseBody, idle_pruned, span_pruned, same]

theorem eraseBranch?_pruned {branch : Stmt}
    (same : (branch.pruned view options).erase view = branch.erase view) :
    (branch.pruned view options).eraseBranch? view = branch.eraseBranch? view := by
  rw [eraseBranch?, eraseBranch?, idle_pruned, same]

/-- A sweep takes out nothing that erasing the list would leave. -/
theorem eraseList_swept (outside stmts : List Stmt) :
    eraseList view (swept view outside stmts) = eraseList view stmts := by
  induction stmts with
  | nil => rfl
  | cons first rest ih =>
      rw [swept_cons]
      split
      case isTrue elided =>
        rw [Bool.and_eq_true] at elided
        rw [eraseList_cons_of_idle elided.1, ih]
      case isFalse => rw [eraseList, eraseList, ih]

theorem eraseList_map_pruned {stmts : List Stmt}
    (same : ∀ stmt ∈ stmts, (stmt.pruned view options).erase view = stmt.erase view) :
    eraseList view (stmts.map (pruned view options)) = eraseList view stmts := by
  rw [eraseList_eq, eraseList_eq, List.flatMap_map, List.flatMap_def, List.flatMap_def]
  refine congrArg List.flatten (List.map_congr_left fun stmt within => ?_)
  rw [eraseBranch?_pruned (same stmt within)]

theorem eraseCases_prunedCases {cases : List Case}
    (same : ∀ each ∈ cases, ∀ stmt ∈ each.stmts,
      (stmt.pruned view options).erase view = stmt.erase view) :
    eraseCases view (prunedCases view options cases) = eraseCases view cases := by
  induction cases with
  | nil => rfl
  | cons first rest ih =>
      obtain ⟨label, stmts⟩ := first
      obtain ⟨inFirst, inRest⟩ := List.forall_mem_cons.1 same
      have erased : eraseList view (stmts.map (pruned view options)) = eraseList view stmts :=
        eraseList_map_pruned inFirst
      rw [prunedCases_cons, eraseCases, eraseCases, eraseList_swept, erased, ih inRest]

/-- The pass does not change the erasure of a tree. -/
theorem erase_pruned (stmt : Stmt) : (stmt.pruned view options).erase view = stmt.erase view := by
  induction stmt using Stmt.induction with
  | simple form span => rfl
  | block stmts span ih =>
      rw [pruned_block, erase_block, erase_block, eraseList_swept, eraseList_map_pruned ih]
  | doWhile body test span ih =>
      rw [pruned_doWhile, erase_doWhile, erase_doWhile, eraseBody_collapsed, eraseBody_pruned ih]
  | forLoop start test next body span ihStart ihBody =>
      rw [pruned_forLoop, erase_forLoop, erase_forLoop, eraseBody_collapsed,
        eraseBody_pruned ihBody]
  | choice isStatic test yes no span ihYes ihNo =>
      rw [pruned_choice, erase_choice, erase_choice, eraseBody_collapsed, eraseBody_pruned ihYes]
      cases no with
      | none => rfl
      | some branch =>
          rw [Option.bind_some, Option.bind_some, bind_eraseBranch?_kept?,
            eraseBranch?_pruned (ihNo branch rfl)]
  | switch isStatic value cases span ih =>
      rw [pruned_switch, erase_switch, erase_switch, eraseCases_prunedCases ih]
  | whileLoop test body span ih =>
      rw [pruned_whileLoop, erase_whileLoop, erase_whileLoop, eraseBody_collapsed,
        eraseBody_pruned ih]

/-! ## What an erasure leaves -/

/-- A statement without the statements nested in it; the start of a loop is part of the loop. -/
def shell : Stmt → Stmt
  | .simple form span => .simple form span
  | .block _ span => .block [] span
  | .doWhile _ test span => .doWhile (.nop .nowhere) test span
  | .forLoop start test next _ span => .forLoop start test next (.nop .nowhere) span
  | .choice isStatic test _ _ span => .choice isStatic test (.nop .nowhere) none span
  | .switch isStatic value cases span =>
      .switch isStatic value (cases.map fun each => .mk each.label []) span
  | .whileLoop test _ span => .whileLoop test (.nop .nowhere) span

/-- The shells of the statements of a tree that cannot be left out, in the order of a walk. -/
def essentials (view : View) (stmt : Stmt) : List Stmt :=
  (stmt.nodes.filter fun node => !node.idle view).map shell

theorem essentials_eq (stmt : Stmt) :
    stmt.essentials view =
      (if stmt.idle view then [] else [stmt.shell]) ++ stmt.nested.flatMap (essentials view) := by
  have below : ((stmt.nested.flatMap nodes).filter fun node => !node.idle view).map shell =
      stmt.nested.flatMap (essentials view) := by
    rw [List.filter_flatMap, List.map_flatMap]
    rfl
  rw [essentials, nodes_eq, List.filter_cons, ← below]
  cases stmt.idle view <;> rfl

/-- Whatever is nested in a statement that can be left out can be left out. -/
theorem idle_of_mem_nested {stmt below : Stmt} (idle : stmt.idle view = true)
    (within : below ∈ stmt.nested) : below.idle view = true := by
  cases stmt with
  | simple form span => exact absurd within List.not_mem_nil
  | block stmts span =>
      rw [idle_block, List.all_eq_true] at idle
      exact idle below within
  | _ => cases idle

theorem essentials_of_idle {stmt : Stmt} (idle : stmt.idle view = true) :
    stmt.essentials view = [] := by
  induction stmt using nestedInduction with
  | step stmt ih =>
      rw [essentials_eq, if_pos idle, List.nil_append, List.flatMap_eq_nil_iff]
      exact fun below within => ih below within (idle_of_mem_nested idle within)

/-- An erasure does not change whether a statement can be left out. -/
@[simp] theorem idle_erase (stmt : Stmt) : (stmt.erase view).idle view = stmt.idle view := by
  induction stmt using Stmt.induction with
  | block stmts span ih =>
      rw [erase_block, idle_block, idle_block]
      induction stmts with
      | nil => rfl
      | cons first rest ihRest =>
          rw [List.forall_mem_cons] at ih
          rw [eraseList, List.all_cons, ← ihRest ih.2]
          split
          case isTrue idle => rw [idle, Bool.true_and]
          case isFalse => rw [List.all_cons, ih.1]
  | choice isStatic test yes no span ihYes ihNo => rw [erase_choice]; rfl
  | _ => rfl

@[simp] theorem labels_eraseCases (cases : List Case) :
    (eraseCases view cases).map Case.label = cases.map Case.label := by
  induction cases with
  | nil => rfl
  | cons first rest ih =>
      obtain ⟨label, stmts⟩ := first
      rw [eraseCases, List.map_cons, List.map_cons, ih]
      rfl

@[simp] theorem stmts_eraseCases (cases : List Case) :
    (eraseCases view cases).flatMap Case.stmts = eraseList view (cases.flatMap Case.stmts) := by
  induction cases with
  | nil => rfl
  | cons first rest ih =>
      obtain ⟨label, stmts⟩ := first
      rw [eraseCases, List.flatMap_cons, List.flatMap_cons, ih, eraseList_eq, eraseList_eq,
        eraseList_eq, List.flatMap_append]
      rfl

@[simp] theorem shell_erase (stmt : Stmt) : (stmt.erase view).shell = stmt.shell := by
  cases stmt with
  | choice isStatic test yes no span => rw [erase_choice]; rfl
  | switch isStatic value cases span =>
      have same : (eraseCases view cases).map Case.label = cases.map Case.label :=
        labels_eraseCases cases
      have labels := congrArg (List.map fun label => Case.mk label []) same
      rw [List.map_map, List.map_map] at labels
      exact congrArg (Stmt.switch isStatic value · span) labels
  | _ => rfl

theorem essentials_eraseBody {body : Stmt}
    (same : (body.erase view).essentials view = body.essentials view) :
    (body.eraseBody view).essentials view = body.essentials view := by
  unfold eraseBody
  split
  case isTrue idle => rw [essentials_of_idle idle, essentials_of_idle (idle_nop body.span)]
  case isFalse => exact same

theorem essentials_eraseBranch? {branch : Stmt}
    (same : (branch.erase view).essentials view = branch.essentials view) :
    (branch.eraseBranch? view).toList.flatMap (essentials view) = branch.essentials view := by
  unfold eraseBranch?
  split
  case isTrue idle => exact (essentials_of_idle idle).symm
  case isFalse => simpa using same

theorem essentials_eraseList {stmts : List Stmt}
    (same : ∀ stmt ∈ stmts, (stmt.erase view).essentials view = stmt.essentials view) :
    (eraseList view stmts).flatMap (essentials view) = stmts.flatMap (essentials view) := by
  rw [eraseList_eq, List.flatMap_assoc, List.flatMap_def, List.flatMap_def]
  refine congrArg List.flatten (List.map_congr_left fun stmt within => ?_)
  exact essentials_eraseBranch? (same stmt within)

/-- An erasure loses no statement that cannot be left out, and changes neither it nor the order. -/
theorem essentials_erase (stmt : Stmt) :
    (stmt.erase view).essentials view = stmt.essentials view := by
  have ofNested {stmt : Stmt} (same : (stmt.erase view).nested.flatMap (essentials view) =
      stmt.nested.flatMap (essentials view)) :
      (stmt.erase view).essentials view = stmt.essentials view := by
    rw [essentials_eq, essentials_eq stmt, idle_erase, shell_erase, same]
  induction stmt using Stmt.induction with
  | simple form span => rfl
  | block stmts span ih => exact ofNested (essentials_eraseList ih)
  | doWhile body test span ih =>
      exact ofNested (congrArg (· ++ []) (essentials_eraseBody ih))
  | forLoop start test next body span ihStart ihBody =>
      apply ofNested
      rw [erase_forLoop, nested, nested, List.flatMap_append, List.flatMap_append,
        List.flatMap_singleton, List.flatMap_singleton, essentials_eraseBody ihBody]
  | choice isStatic test yes no span ihYes ihNo =>
      apply ofNested
      rw [erase_choice, nested, nested, List.flatMap_cons, List.flatMap_cons,
        essentials_eraseBody ihYes]
      cases no with
      | none => rfl
      | some branch =>
          rw [Option.bind_some, essentials_eraseBranch? (ihNo branch rfl), Option.toList_some,
            List.flatMap_singleton]
  | switch isStatic value cases span ih =>
      apply ofNested
      rw [erase_switch, nested, nested, stmts_eraseCases]
      refine essentials_eraseList fun stmt within => ?_
      obtain ⟨each, inCases, inStmts⟩ := List.mem_flatMap.1 within
      exact ih each inCases stmt inStmts
  | whileLoop test body span ih =>
      exact ofNested (congrArg (· ++ []) (essentials_eraseBody ih))

/-- The pass loses no statement that cannot be left out, and changes neither it nor the order. -/
theorem essentials_pruned (stmt : Stmt) :
    (stmt.pruned view options).essentials view = stmt.essentials view := by
  rw [← essentials_erase, erase_pruned, essentials_erase]

/--
Elimination changes nothing but statements that can be left out: on a tree in range it succeeds, and
its result has the erasure, the remaining statements, the kind and the span of the tree.
-/
theorem eliminateEmpty_preserves_erasure {declarations : Declarations} {body : Stmt}
    (inRange : body.InRange declarations) (options : EliminationOptions)
    (diagnostics : Diagnostics) :
    ∃ result,
      body.eliminateEmpty declarations.fetch options diagnostics = .ok result ∧
        result.body.erase declarations.view = body.erase declarations.view ∧
        result.body.essentials declarations.view = body.essentials declarations.view ∧
        result.body.kind = body.kind ∧
        result.body.span = body.span := by
  refine ⟨_, inRange.eliminateEmpty_eq_ok diagnostics, ?_⟩
  rw [body_eliminated]
  split
  case isTrue =>
    exact ⟨erase_pruned body, essentials_pruned body, kind_pruned body, span_pruned body⟩
  case isFalse => exact ⟨rfl, rfl, rfl, rfl⟩

/--
In `for (int x; ;) { int x; { int z; } int y = x; }` the inner block goes and the inner declaration of `x`
stays for `y`; of both trees only the loop and the declaration of `y` remain.
-/
theorem eliminateEmpty_preserves_erasure_of_loop :
    let declarations : Declarations := .ofList
      [.ofDeclarators [.sized "x" []], .ofDeclarators [.set "y" (.var "x")],
        .ofDeclarators [.sized "z" []]]
    let loop (stmts : List Stmt) : Stmt :=
      .forLoop (some (.declares 0)) none none (.ofList stmts) .nowhere
    let body : Stmt := loop [.declares 0, .ofList [.declares 2], .declares 1]
    body.InRange declarations ∧
      ∃ result,
        body.eliminateEmpty declarations.fetch {} {} = .ok result ∧
          result.body = loop [.declares 0, .declares 1] ∧
          result.body.erase declarations.view = loop [.declares 1] ∧
          body.erase declarations.view = loop [.declares 1] := by
  intro declarations loop body
  have inRange : body.InRange declarations := by decide
  obtain ⟨result, ran, erased, -⟩ := eliminateEmpty_preserves_erasure inRange {} {}
  obtain rfl := inRange.eq_eliminated ran
  exact ⟨inRange, _, ran, rfl, rfl, erased.symm⟩

end Stmt

end ShaderTree
