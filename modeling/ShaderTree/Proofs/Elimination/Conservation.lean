import Mathlib.Algebra.BigOperators.Group.List.Basic
import Mathlib.Algebra.GroupWithZero.Nat
import ShaderTree.Proofs.Elimination.Survivors

/-!
# A law of conservation

What the pass takes out of a tree it tells of, once.  Let every statement be worth something by
itself, and let a tally be worth what the statements were that it tells of.  Then the worth of a
tree is divided between what the pass leaves of it and the tally.

Two things have to be allowed for.  A `;` that takes the place of a body is not there before, and
what the pass remarks on without taking it out is told and still there.

The law rests on the order of the pass: a statement is taken out of its place after what is nested
in it, so when its turn comes nothing is nested in it any more.
-/

namespace ShaderTree

variable {view : View} {options : EliminationOptions}

namespace Stmt

/-! ## What is empty when its turn comes -/

theorem swept_eq_nil {stmts : List Stmt} (idle : ∀ stmt ∈ stmts, stmt.idle view = true) :
    swept view [] stmts = [] := by
  induction stmts with
  | nil => rfl
  | cons first rest ih =>
      rw [List.forall_mem_cons] at idle
      have unneeded : first.neededBy view [] = false := by
        rw [neededBy_eq]
        rfl
      rw [swept_cons, ih idle.2, List.append_nil, idle.1, unneeded]
      rfl

/-- Of a statement that can be left out, the pass leaves nothing nested. -/
theorem nested_pruned_of_idle {stmt : Stmt} (idle : stmt.idle view = true) :
    (stmt.pruned view options).nested = [] := by
  cases stmt with
  | simple form span => rfl
  | block stmts span =>
      rw [idle_block, List.all_eq_true] at idle
      rw [pruned_block]
      apply swept_eq_nil
      rw [List.forall_mem_map]
      intro stmt within
      rw [idle_pruned]
      exact idle stmt within
  | _ => cases idle

/-! ## What is counted in a tree -/

/-- The bodies of a statement: that of a loop, and what is done where the test of a choice holds. -/
def bodies : Stmt → List Stmt
  | .simple _ _ | .block _ _ | .switch _ _ _ _ => []
  | .doWhile body _ _ | .forLoop _ _ _ body _ | .whileLoop _ body _ => [body]
  | .choice _ _ yes _ _ => [yes]

/-- The number of bodies of a tree that are `;`. -/
def nopBodies (stmt : Stmt) : Nat :=
  (stmt.nodes.flatMap bodies).countP fun body => body.kind = .nop

/-- The statements nested directly in a statement, without the start of a loop. -/
def inner : Stmt → List Stmt
  | .forLoop _ _ _ body _ => [body]
  | stmt => stmt.nested

mutual

/-- The statements of a tree that do not stand in the start of a loop, in the order of a walk. -/
def visited : Stmt → List Stmt
  | stmt@(.simple _ _) => [stmt]
  | stmt@(.block stmts _) => stmt :: visitedOfList stmts
  | stmt@(.doWhile body _ _) => stmt :: body.visited
  | stmt@(.forLoop _ _ _ body _) => stmt :: body.visited
  | stmt@(.choice _ _ yes (some no) _) => stmt :: (yes.visited ++ no.visited)
  | stmt@(.choice _ _ yes none _) => stmt :: yes.visited
  | stmt@(.switch _ _ cases _) => stmt :: visitedOfCases cases
  | stmt@(.whileLoop _ body _) => stmt :: body.visited

/-- The statements of the trees of a list that do not stand in the start of a loop. -/
def visitedOfList : List Stmt → List Stmt
  | [] => []
  | first :: rest => first.visited ++ visitedOfList rest

/-- The statements of cases that do not stand in the start of a loop. -/
def visitedOfCases : List Case → List Stmt
  | [] => []
  | .mk _ stmts :: rest => visitedOfList stmts ++ visitedOfCases rest

end

theorem visitedOfList_eq_flatMap (stmts : List Stmt) :
    visitedOfList stmts = stmts.flatMap visited := by
  induction stmts with
  | nil => rfl
  | cons first rest ih => rw [visitedOfList, ih, List.flatMap_cons]

theorem visitedOfCases_eq_flatMap (cases : List Case) :
    visitedOfCases cases = (cases.flatMap Case.stmts).flatMap visited := by
  induction cases with
  | nil => rfl
  | cons first rest ih =>
      obtain ⟨label, stmts⟩ := first
      rw [visitedOfCases, ih, visitedOfList_eq_flatMap, List.flatMap_cons, List.flatMap_append]
      rfl

theorem visited_eq (stmt : Stmt) : stmt.visited = stmt :: stmt.inner.flatMap visited := by
  cases stmt with
  | block stmts span => rw [visited, visitedOfList_eq_flatMap]; rfl
  | switch isStatic value cases span => rw [visited, visitedOfCases_eq_flatMap]; rfl
  | choice isStatic test yes no span => cases no <;> simp [visited, inner, nested]
  | _ => simp [visited, inner, nested]

/-- A property holds wherever the pass goes if it holds of the root and then of what is within it. -/
theorem forall_mem_visited_iff {stmt : Stmt} {property : Stmt → Prop} :
    (∀ node ∈ stmt.visited, property node) ↔
      property stmt ∧ ∀ below ∈ stmt.inner, ∀ node ∈ below.visited, property node := by
  rw [visited_eq, List.forall_mem_cons, List.forall_mem_flatMap]

theorem nopBodies_eq (stmt : Stmt) :
    stmt.nopBodies =
      (stmt.bodies.countP fun body => body.kind = .nop) + (stmt.nested.map nopBodies).sum := by
  rw [nopBodies, nodes_eq, List.flatMap_cons, List.countP_append, List.flatMap_assoc,
    List.countP_flatMap]
  rfl

/-- Bodies are nested. -/
theorem bodies_subset_nested (stmt : Stmt) : stmt.bodies ⊆ stmt.nested := by
  cases stmt <;> simp [nested, bodies]

theorem bodies_of_nested_eq_nil {stmt : Stmt} (bare : stmt.nested = []) : stmt.bodies = [] :=
  List.subset_nil.1 (bare ▸ bodies_subset_nested stmt)

theorem bodies_pruned (stmt : Stmt) :
    (stmt.pruned view options).bodies =
      stmt.bodies.map fun body => (body.pruned view options).collapsed view options := by
  cases stmt <;> simp [bodies]

theorem nopBodies_of_nested_eq_nil {stmt : Stmt} (bare : stmt.nested = []) :
    stmt.nopBodies = 0 := by
  rw [nopBodies_eq, bodies_of_nested_eq_nil bare, bare]
  rfl

/-- What the pass remarks on in a statement that it leaves in its place. -/
def remark : Stmt → Tally
  | .simple form span => .ofSimple form span
  | _ => .nothing

end Stmt

/-! ## Measures -/

/--
A measure of statements and tallies.  A statement that can be left out and has nothing nested in it
is worth as much as the tally of taking it out, and the pass does not change what a statement is
worth by itself.
-/
structure Measure (view : View) (options : EliminationOptions) where
  /-- The worth of a statement without the statements nested in it. -/
  own : Stmt → Nat
  /-- The worth of a tally. -/
  told : Tally → Nat
  told_nothing : told .nothing = 0
  told_append : ∀ first second, told (first ++ second) = told first + told second
  told_elided : ∀ reason stmt, stmt.idle view = true → stmt.nested = [] →
    told (stmt.elided view reason) = own stmt
  own_pruned : ∀ stmt, own (stmt.pruned view options) = own stmt
  own_nop : ∀ span, own (.nop span) = own (.nop .nowhere)

namespace Measure

variable (measure : Measure view options)

/-- The worth of a tree. -/
def ofTree (stmt : Stmt) : Nat :=
  (stmt.nodes.map measure.own).sum

/-- The worth of what the pass remarks on in a tree. -/
def remarked (stmt : Stmt) : Nat :=
  (stmt.visited.map fun node => measure.told node.remark).sum

/-- The worth of `;`. -/
def filler : Nat :=
  measure.own (.nop .nowhere)

theorem ofTree_eq (stmt : Stmt) :
    measure.ofTree stmt = measure.own stmt + (stmt.nested.map measure.ofTree).sum := by
  rw [ofTree, Stmt.nodes_eq, List.map_cons, List.sum_cons, List.map_flatMap,
    List.flatMap_def, List.sum_flatten, List.map_map]
  rfl

theorem remarked_eq (stmt : Stmt) :
    measure.remarked stmt =
      measure.told stmt.remark + (stmt.inner.map measure.remarked).sum := by
  rw [remarked, Stmt.visited_eq, List.map_cons, List.sum_cons, List.map_flatMap,
    List.flatMap_def, List.sum_flatten, List.map_map]
  rfl

theorem remarked_eq_zero (silent : ∀ stmt : Stmt, measure.told stmt.remark = 0) (stmt : Stmt) :
    measure.remarked stmt = 0 :=
  List.sum_eq_zero (List.forall_mem_map.2 fun node _ => silent node)

theorem ofTree_of_nested_eq_nil {stmt : Stmt} (bare : stmt.nested = []) :
    measure.ofTree stmt = measure.own stmt := by
  rw [ofTree_eq, bare]
  rfl

theorem ofTree_nop (span : Span) : measure.ofTree (.nop span) = measure.filler := by
  rw [measure.ofTree_of_nested_eq_nil rfl, filler, measure.own_nop]

/-! ## The law -/

/--
The worth of a tree is divided between what the pass leaves of it and what it tells, up to bodies
that become `;` and to remarks.
-/
def Conserves (stmt : Stmt) : Prop :=
  measure.told (stmt.tally view options) + measure.ofTree (stmt.pruned view options) +
      measure.filler * stmt.nopBodies =
    measure.ofTree stmt + measure.filler * (stmt.pruned view options).nopBodies +
      measure.remarked stmt

/-- A sweep tells of what it takes out, and takes no bodies out. -/
theorem told_sweeping (outside : List Stmt) {stmts : List Stmt}
    (bare : ∀ stmt ∈ stmts, stmt.idle view = true → stmt.nested = []) :
    measure.told (sweeping view outside stmts).2 +
          ((swept view outside stmts).map measure.ofTree).sum =
        (stmts.map measure.ofTree).sum ∧
      ((swept view outside stmts).map Stmt.nopBodies).sum = (stmts.map Stmt.nopBodies).sum := by
  induction stmts with
  | nil => exact ⟨congrArg (· + 0) measure.told_nothing, rfl⟩
  | cons first rest ih =>
      rw [List.forall_mem_cons] at bare
      obtain ⟨worth, bodies⟩ := ih bare.2
      rw [sweeping_cons, swept_cons]
      split
      case isTrue elided =>
        rw [Bool.and_eq_true] at elided
        have nothing := bare.1 elided.1
        rw [List.map_cons, List.map_cons, List.sum_cons, List.sum_cons, measure.told_append,
          measure.told_elided _ _ elided.1 nothing, measure.ofTree_of_nested_eq_nil nothing,
          Stmt.nopBodies_of_nested_eq_nil nothing]
        omega
      case isFalse =>
        simp only [List.map_cons, List.sum_cons]
        omega

/-- The law for a list to whose statements the pass has been applied. -/
theorem told_each {stmts : List Stmt} (each : ∀ stmt ∈ stmts, measure.Conserves stmt) :
    measure.told (tallyOfEach view options stmts) +
          ((stmts.map (Stmt.pruned view options)).map measure.ofTree).sum +
        measure.filler * (stmts.map Stmt.nopBodies).sum =
      (stmts.map measure.ofTree).sum +
          measure.filler * ((stmts.map (Stmt.pruned view options)).map Stmt.nopBodies).sum +
        (stmts.map measure.remarked).sum := by
  induction stmts with
  | nil => simp [measure.told_nothing]
  | cons first rest ih =>
      rw [List.forall_mem_cons] at each
      have ofFirst := each.1
      have ofRest := ih each.2
      unfold Conserves at ofFirst
      simp only [tallyOfEach_cons, measure.told_append, List.map_cons, List.sum_cons, Nat.mul_add]
        at *
      omega

/-- The law for a list that is swept after the pass has been applied to its statements. -/
theorem told_list (outside : List Stmt) {stmts : List Stmt}
    (each : ∀ stmt ∈ stmts, measure.Conserves stmt) :
    measure.told (tallyOfEach view options stmts ++
            (sweeping view outside (stmts.map (Stmt.pruned view options))).2) +
          ((swept view outside (stmts.map (Stmt.pruned view options))).map measure.ofTree).sum +
        measure.filler * (stmts.map Stmt.nopBodies).sum =
      (stmts.map measure.ofTree).sum +
          measure.filler *
            ((swept view outside (stmts.map (Stmt.pruned view options))).map Stmt.nopBodies).sum +
        (stmts.map measure.remarked).sum := by
  have bare : ∀ stmt ∈ stmts.map (Stmt.pruned view options),
      stmt.idle view = true → stmt.nested = [] := by
    rw [List.forall_mem_map]
    intro stmt within idle
    rw [Stmt.idle_pruned] at idle
    exact Stmt.nested_pruned_of_idle idle
  obtain ⟨worth, bodies⟩ := measure.told_sweeping outside bare
  have pruned := measure.told_each each
  rw [measure.told_append, bodies]
  omega

/-- The law for the cases of a switch, each of which is swept for the sake of the later ones. -/
theorem told_cases {cases : List Case}
    (each : ∀ each ∈ cases, ∀ stmt ∈ each.stmts, measure.Conserves stmt) :
    measure.told (tallyOfCases view options cases) +
          (((prunedCases view options cases).flatMap Case.stmts).map measure.ofTree).sum +
        measure.filler * ((cases.flatMap Case.stmts).map Stmt.nopBodies).sum =
      ((cases.flatMap Case.stmts).map measure.ofTree).sum +
          measure.filler *
            (((prunedCases view options cases).flatMap Case.stmts).map Stmt.nopBodies).sum +
        ((cases.flatMap Case.stmts).map measure.remarked).sum := by
  induction cases with
  | nil => simp [measure.told_nothing]
  | cons first rest ih =>
      obtain ⟨label, stmts⟩ := first
      obtain ⟨inFirst, inRest⟩ := List.forall_mem_cons.1 each
      have ofFirst := measure.told_list (rest.flatMap Case.stmts) inFirst
      have ofRest := ih inRest
      simp only [tallyOfCases_cons, prunedCases_cons, Case.stmts, measure.told_append,
        List.flatMap_cons, List.map_append, List.sum_append, Nat.mul_add] at *
      omega

/-- The law for a body, where it counts whether the body is `;`. -/
theorem told_body {body : Stmt} (conserves : measure.Conserves body) :
    measure.told (body.tallyAsBody view options) +
          measure.ofTree ((body.pruned view options).collapsed view options) +
        measure.filler * (([body].countP fun body => body.kind = .nop) + body.nopBodies) =
      measure.ofTree body +
          measure.filler *
            (([(body.pruned view options).collapsed view options].countP
                fun body => body.kind = .nop) +
              ((body.pruned view options).collapsed view options).nopBodies) +
        measure.remarked body := by
  unfold Conserves at conserves
  rw [Stmt.tallyAsBody_eq, Stmt.collapsed]
  split
  case isTrue gone =>
    -- One statement is told of and one `;` is new, so the worth of `;` has to be allowed for once.
    have idle : (body.pruned view options).idle view = true := by
      rw [Stmt.collapses, Bool.and_eq_true] at gone
      exact gone.2
    have nothing : (body.pruned view options).nested = [] :=
      Stmt.nested_pruned_of_idle (by rwa [Stmt.idle_pruned] at idle)
    have busy : [body].countP (fun body => body.kind = .nop) = 0 := by
      simp only [Stmt.collapses, Stmt.kind_pruned] at gone
      simp_all
    have replaced (span : Span) : [Stmt.nop span].countP (fun body => body.kind = .nop) = 1 := rfl
    have bare (span : Span) : (Stmt.nop span).nopBodies = 0 := Stmt.nopBodies_of_nested_eq_nil rfl
    rw [measure.ofTree_of_nested_eq_nil nothing, Stmt.nopBodies_of_nested_eq_nil nothing]
      at conserves
    rw [measure.told_append, measure.told_elided _ _ idle nothing, measure.ofTree_nop, busy,
      replaced, bare, Nat.zero_add, Nat.add_zero, Nat.mul_one]
    omega
  case isFalse =>
    simp only [List.countP_singleton, Stmt.kind_pruned, Nat.mul_add]
    omega

/-- The law for an `else` branch. -/
theorem told_branch {branch : Stmt} (conserves : measure.Conserves branch) :
    measure.told (branch.tallyAsBranch view options) +
          (((branch.pruned view options).kept? view).toList.map measure.ofTree).sum +
        measure.filler * branch.nopBodies =
      measure.ofTree branch +
          measure.filler *
            (((branch.pruned view options).kept? view).toList.map Stmt.nopBodies).sum +
        measure.remarked branch := by
  unfold Conserves at conserves
  rw [Stmt.tallyAsBranch_eq, Stmt.kept?]
  split
  case isTrue idle =>
    have nothing : (branch.pruned view options).nested = [] :=
      Stmt.nested_pruned_of_idle (by rwa [Stmt.idle_pruned] at idle)
    rw [measure.ofTree_of_nested_eq_nil nothing, Stmt.nopBodies_of_nested_eq_nil nothing]
      at conserves
    rw [measure.told_append, measure.told_elided _ _ idle nothing]
    simpa using conserves
  case isFalse => simpa using conserves

/-- The law for a statement that is not simple, from the law for what is nested in it. -/
theorem conserves_of_nested {stmt : Stmt} (silent : stmt.remark = .nothing)
    (below :
      measure.told (stmt.tally view options) +
            ((stmt.pruned view options).nested.map measure.ofTree).sum +
          measure.filler *
            ((stmt.bodies.countP fun body => body.kind = .nop) +
              (stmt.nested.map Stmt.nopBodies).sum) =
        (stmt.nested.map measure.ofTree).sum +
            measure.filler *
              (((stmt.pruned view options).bodies.countP fun body => body.kind = .nop) +
                ((stmt.pruned view options).nested.map Stmt.nopBodies).sum) +
          (stmt.inner.map measure.remarked).sum) :
    measure.Conserves stmt := by
  unfold Conserves
  rw [measure.ofTree_eq, measure.ofTree_eq stmt, Stmt.nopBodies_eq, Stmt.nopBodies_eq,
    measure.remarked_eq, silent, measure.told_nothing, measure.own_pruned]
  omega

/-- The law. -/
theorem conserves (stmt : Stmt) : measure.Conserves stmt := by
  induction stmt using Stmt.induction with
  | simple form span =>
      have remarked : measure.remarked (.simple form span) = measure.told (.ofSimple form span) :=
        (measure.remarked_eq _).trans (Nat.add_zero _)
      unfold Conserves
      rw [Stmt.tally_simple, Stmt.pruned_simple, remarked]
      omega
  | block stmts span ih =>
      refine measure.conserves_of_nested rfl ?_
      rw [Stmt.pruned_block, Stmt.tally_block]
      simpa [Stmt.nested, Stmt.bodies, Stmt.inner] using measure.told_list [] ih
  | doWhile body test span ih =>
      refine measure.conserves_of_nested rfl ?_
      rw [Stmt.pruned_doWhile, Stmt.tally_doWhile]
      exact measure.told_body ih
  | forLoop start test next body span ihStart ihBody =>
      have ofBody := measure.told_body ihBody
      refine measure.conserves_of_nested rfl ?_
      rw [Stmt.pruned_forLoop, Stmt.tally_forLoop]
      simp only [Stmt.nested, Stmt.bodies, Stmt.inner, List.map_append, List.sum_append,
        List.map_singleton, List.sum_singleton, Nat.mul_add] at *
      omega
  | choice isStatic test yes no span ihYes ihNo =>
      have ofYes := measure.told_body ihYes
      refine measure.conserves_of_nested rfl ?_
      rw [Stmt.pruned_choice]
      cases no with
      | none =>
          rw [Stmt.tally_choice_none]
          exact ofYes
      | some branch =>
          have ofBranch := measure.told_branch (ihNo branch rfl)
          rw [Stmt.tally_choice_some, measure.told_append]
          simp only [Stmt.nested, Stmt.bodies, Stmt.inner, Option.bind_some, Option.toList,
            List.map_cons, List.map_nil, List.sum_cons, List.sum_nil, Nat.mul_add] at *
          omega
  | switch isStatic value cases span ih =>
      refine measure.conserves_of_nested rfl ?_
      rw [Stmt.pruned_switch, Stmt.tally_switch]
      simpa [Stmt.nested, Stmt.bodies, Stmt.inner] using measure.told_cases ih
  | whileLoop test body span ih =>
      refine measure.conserves_of_nested rfl ?_
      rw [Stmt.pruned_whileLoop, Stmt.tally_whileLoop]
      exact measure.told_body ih

end Measure

end ShaderTree
