import ShaderTree.Proofs.Elimination.Survivors
import ShaderTree.Proofs.Tree.ElseBranches
import ShaderTree.Proofs.Tree.Written

/-!
# Elimination and the attachment of branches

The pass drops an `else` branch that can be left out without a look at what stands around the choice.
The choice is open then, and so is every statement that ends in it; and if one of these is the body of
a choice with an `else` branch of its own, that branch is taken for one of the inner choice from now on.
Nothing else that the pass does opens a statement: what it takes out or collapses has no choice in it.

So a safe tree stays safe unless it has a choice whose branch stays and whose body ends in a choice
whose branch goes.
-/

namespace ShaderTree

variable {view : View} {options : EliminationOptions}

/-! ## What becomes open -/

section Opening

variable (view : View)

namespace Stmt

/-- Whether a statement ends in a choice without an `else` branch, or with one that can be left out. -/
def becomesOpen : Stmt → Bool
  | .choice _ _ _ none _ => true
  | .choice _ _ _ (some no) _ => no.idle view || no.becomesOpen
  | .forLoop _ _ _ body _ | .whileLoop _ body _ => body.becomesOpen
  | .simple _ _ | .block _ _ | .doWhile _ _ _ | .switch _ _ _ _ => false

/-- Whether a choice with an `else` branch has a body that does not become open, or loses the branch. -/
def keepsElse : Stmt → Bool
  | .choice _ _ yes (some no) _ => no.idle view || !yes.becomesOpen view
  | _ => true

/-- The statements nested in a statement that the pass goes into: all but the start of a loop. -/
def entered : Stmt → List Stmt
  | .forLoop _ _ _ body _ => [body]
  | stmt => stmt.nested

/-- Wherever the pass goes, a choice that keeps its `else` branch has no body that becomes open. -/
inductive StaysSafe : Stmt → Prop
  | intro {stmt : Stmt} (own : stmt.keepsElse view = true)
      (entered : ∀ below ∈ stmt.entered, StaysSafe below) : StaysSafe stmt

end Stmt

end Opening

namespace Stmt

theorem staysSafe_iff {stmt : Stmt} :
    stmt.StaysSafe view ↔
      stmt.keepsElse view = true ∧ ∀ below ∈ stmt.entered, below.StaysSafe view := by
  constructor
  · rintro ⟨own, entered⟩
    exact ⟨own, entered⟩
  · rintro ⟨own, entered⟩
    exact ⟨own, entered⟩

theorem staysSafe_single {stmt body : Stmt} (keeps : stmt.keepsElse view = true)
    (entered : stmt.entered = [body]) : stmt.StaysSafe view ↔ body.StaysSafe view := by
  rw [staysSafe_iff, entered, List.forall_mem_singleton]
  exact and_iff_right keeps

theorem staysSafe_choice {isStatic : Bool} {test : Expr} {yes : Stmt} {no : Option Stmt}
    {span : Span} :
    StaysSafe view (.choice isStatic test yes no span) ↔
      keepsElse view (.choice isStatic test yes no span) = true ∧
        yes.StaysSafe view ∧ ∀ stmt ∈ no, stmt.StaysSafe view := by
  rw [staysSafe_iff]
  refine and_congr_right fun _ => List.forall_mem_cons.trans (and_congr_right fun _ => ?_)
  exact forall_congr' fun stmt => imp_congr_left Option.mem_toList

/-! ## Statements that can be left out -/

theorem isOpen_of_idle {stmt : Stmt} (idle : stmt.idle view = true) : stmt.isOpen = false := by
  cases stmt with
  | simple form span => rfl
  | block stmts span => rfl
  | _ => cases idle

/-- There is no choice in a statement that can be left out. -/
theorem elseSafe_of_idle {stmt : Stmt} (idle : stmt.idle view = true) : stmt.ElseSafe := by
  induction stmt using Stmt.induction with
  | simple form span => exact elseSafe_simple form span
  | block stmts span ih =>
      rw [idle_block, List.all_eq_true] at idle
      exact elseSafe_block.2 fun stmt within => ih stmt within (idle stmt within)
  | _ => cases idle

/-! ## What the pass opens -/

@[simp] theorem isOpen_collapsed (body : Stmt) :
    (body.collapsed view options).isOpen = body.isOpen := by
  unfold collapsed
  split
  case isTrue gone =>
    rw [collapses, Bool.and_eq_true] at gone
    exact (isOpen_of_idle gone.2).symm
  case isFalse => rfl

/-- The pass opens the statements that end in a choice whose branch it drops. -/
theorem isOpen_pruned (stmt : Stmt) :
    (stmt.pruned view options).isOpen = stmt.becomesOpen view := by
  induction stmt using Stmt.induction with
  | simple form span => rfl
  | block stmts span ih =>
      rw [pruned_block]
      rfl
  | doWhile body test span ih =>
      rw [pruned_doWhile]
      rfl
  | forLoop start test next body span ihStart ihBody =>
      rw [pruned_forLoop, isOpen, isOpen_collapsed, ihBody, becomesOpen]
  | choice isStatic test yes no span ihYes ihNo =>
      rw [pruned_choice]
      cases no with
      | none => rfl
      | some no =>
          rw [Option.bind_some, kept?, idle_pruned, becomesOpen]
          cases no.idle view with
          | true => rfl
          | false => exact ihNo no rfl
  | switch isStatic value cases span ih =>
      rw [pruned_switch]
      rfl
  | whileLoop test body span ih =>
      rw [pruned_whileLoop, isOpen, isOpen_collapsed, ih, becomesOpen]

/-! ## What stays safe -/

theorem elseSafe_collapsed_iff (body : Stmt) :
    (body.collapsed view options).ElseSafe ↔ body.ElseSafe := by
  unfold collapsed
  split
  case isTrue gone =>
    rw [collapses, Bool.and_eq_true] at gone
    exact iff_of_true (elseSafe_simple .nop body.span) (elseSafe_of_idle gone.2)
  case isFalse => exact Iff.rfl

/-- A sweep takes out nothing that is not safe. -/
theorem elseSafe_swept_iff (outside stmts : List Stmt) :
    (∀ stmt ∈ swept view outside stmts, stmt.ElseSafe) ↔ ∀ stmt ∈ stmts, stmt.ElseSafe := by
  induction stmts with
  | nil => exact Iff.rfl
  | cons first rest ih =>
      rw [swept_cons, List.forall_mem_cons]
      split
      case isTrue elided =>
        rw [Bool.and_eq_true] at elided
        rw [ih]
        exact (and_iff_right (elseSafe_of_idle elided.1)).symm
      case isFalse => rw [List.forall_mem_cons, ih]

theorem elseSafe_prunedCases_iff (cases : List Case) :
    (∀ stmt ∈ (prunedCases view options cases).flatMap Case.stmts, stmt.ElseSafe) ↔
      ∀ stmt ∈ cases.flatMap Case.stmts, (stmt.pruned view options).ElseSafe := by
  induction cases with
  | nil => exact iff_of_true (List.forall_mem_nil _) (List.forall_mem_nil _)
  | cons first rest ih =>
      obtain ⟨label, stmts⟩ := first
      rw [prunedCases_cons, List.flatMap_cons, List.flatMap_cons, List.forall_mem_append,
        List.forall_mem_append, ih]
      refine and_congr_left fun _ => ?_
      exact (elseSafe_swept_iff ..).trans List.forall_mem_map

/-- A safe tree stays safe if and only if no body of a choice that keeps its branch becomes open. -/
theorem elseSafe_pruned_iff {stmt : Stmt} (safe : stmt.ElseSafe) :
    (stmt.pruned view options).ElseSafe ↔ stmt.StaysSafe view := by
  induction stmt using Stmt.induction with
  | simple form span =>
      refine iff_of_true safe (staysSafe_iff.2 ⟨rfl, List.forall_mem_nil _⟩)
  | block stmts span ih =>
      rw [elseSafe_block] at safe
      rw [pruned_block, elseSafe_block, elseSafe_swept_iff, List.forall_mem_map, staysSafe_iff]
      refine Iff.trans ?_ (and_iff_right rfl).symm
      exact forall₂_congr fun stmt within => ih stmt within (safe stmt within)
  | doWhile body test span ih =>
      rw [pruned_doWhile, elseSafe_doWhile, elseSafe_collapsed_iff, staysSafe_single rfl rfl]
      exact ih (elseSafe_doWhile.1 safe)
  | forLoop start test next body span ihStart ihBody =>
      obtain ⟨safeStart, safeBody⟩ := elseSafe_forLoop.1 safe
      rw [pruned_forLoop, elseSafe_forLoop, elseSafe_collapsed_iff, staysSafe_single rfl rfl,
        and_iff_right safeStart]
      exact ihBody safeBody
  | choice isStatic test yes no span ihYes ihNo =>
      obtain ⟨-, safeYes, safeNo⟩ := elseSafe_choice.1 safe
      rw [pruned_choice, elseSafe_choice, elseSafe_collapsed_iff, isOpen_collapsed, isOpen_pruned,
        ihYes safeYes, staysSafe_choice]
      cases no with
      | none => simp [keepsElse]
      | some no =>
          rw [Option.bind_some, kept?, idle_pruned, keepsElse]
          have branch := ihNo no rfl (safeNo no rfl)
          cases idle : no.idle view with
          | true =>
              have stays : no.StaysSafe view :=
                branch.1 (elseSafe_of_idle ((idle_pruned no).trans idle))
              simp [stays]
          | false => simp [branch]
  | switch isStatic value cases span ih =>
      rw [elseSafe_switch] at safe
      rw [pruned_switch, elseSafe_switch, elseSafe_prunedCases_iff, staysSafe_iff]
      refine Iff.trans ?_ (and_iff_right rfl).symm
      refine forall₂_congr fun stmt within => ?_
      obtain ⟨each, inCases, inStmts⟩ := List.mem_flatMap.1 within
      exact ih each inCases stmt inStmts (safe stmt within)
  | whileLoop test body span ih =>
      rw [pruned_whileLoop, elseSafe_whileLoop, elseSafe_collapsed_iff, staysSafe_single rfl rfl]
      exact ih (elseSafe_whileLoop.1 safe)

/--
Elimination succeeds on a tree in range, and it leaves a safe tree safe if and only if it is switched
off or no choice that keeps its `else` branch has a body that ends in a choice without one or with one
that can be left out.
-/
theorem eliminateEmpty_elseSafe_iff {declarations : Declarations} {body : Stmt}
    (inRange : body.InRange declarations) (safe : body.ElseSafe) (options : EliminationOptions)
    (diagnostics : Diagnostics) :
    ∃ result,
      body.eliminateEmpty declarations.fetch options diagnostics = .ok result ∧
        (result.body.ElseSafe ↔ (options.eliminates = true → body.StaysSafe declarations.view)) := by
  refine ⟨_, inRange.eliminateEmpty_eq_ok diagnostics, ?_⟩
  rw [body_eliminated]
  cases options.eliminates with
  | false => exact iff_of_true safe nofun
  | true => exact (elseSafe_pruned_iff safe).trans ⟨fun stays _ => stays, fun stays => stays rfl⟩

/--
In `if (a) while (b) ; else { if (c) ; else ; }` the inner branch goes, and the outer one stays where it is:
no body in front of it ends in a choice without a branch, before or after.
-/
theorem eliminateEmpty_elseSafe_iff_of_block :
    let inner (no : Option Stmt) : Stmt := .choice false (.var "c") (.nop .nowhere) no .nowhere
    let outer (no : Option Stmt) : Stmt :=
      .choice false (.var "a") (.whileLoop (.var "b") (.nop .nowhere) .nowhere)
        (some (.ofList [inner no])) .nowhere
    let body : Stmt := outer (some (.nop .nowhere))
    body.InRange (.ofList []) ∧ body.ElseSafe ∧ body.StaysSafe (Declarations.ofList []).view ∧
      ∃ result,
        body.eliminateEmpty (Declarations.ofList []).fetch {} {} = .ok result ∧
          result.body = outer none ∧
          result.body.ElseSafe := by
  intro inner outer body
  have inRange : body.InRange (.ofList []) := by decide
  have safe : body.ElseSafe := by decide
  obtain ⟨result, ran, same⟩ := eliminateEmpty_elseSafe_iff inRange safe {} {}
  obtain rfl := inRange.eq_eliminated ran
  have left : (outer none).ElseSafe := by decide
  exact ⟨inRange, safe, same.1 left rfl, _, ran, rfl, left⟩

/--
In `if (a) if (b) discard; else ; else return;` the inner branch goes, and the outer one is taken for it
in the text of what is left.
-/
theorem eliminateEmpty_not_elseSafe :
    let inner : Stmt := .choice false (.var "b") (.simple .discard .nowhere) (some (.nop .nowhere))
      .nowhere
    let body : Stmt := .choice false (.var "a") inner (some (.simple (.return none) .nowhere)) .nowhere
    body.InRange (.ofList []) ∧
      body.ElseSafe ∧
      ∃ result,
        body.eliminateEmpty (Declarations.ofList []).fetch {} {} = .ok result ∧
          ¬ result.body.ElseSafe ∧
          result.body.text (Declarations.ofList []).fetch =
            .ok "if (a) if (b) discard; else return;" := by
  intro inner body
  have inRange : body.InRange (.ofList []) := by decide
  have safe : body.ElseSafe := by decide
  refine ⟨inRange, safe, _, inRange.eliminateEmpty_eq_ok {}, ?_, ?_⟩
  · decide
  · rfl

end Stmt

end ShaderTree
