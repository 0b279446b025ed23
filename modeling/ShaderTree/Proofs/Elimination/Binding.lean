import ShaderTree.Proofs.Elimination.Survivors
import ShaderTree.Proofs.Scope.Agreement
import ShaderTree.Proofs.Tree.Written

/-!
# Elimination and name binding

A declaration is taken out only where nothing behind it mentions one of its names, so no reference
that is left can have meant it.  What is shown is more: the references of the tree that is left are
references of the tree that was given, in the same order, and each stands for what it stood for.  The
references that are gone were written in sizes of declarations without an initializer; every other
reference is still there.

The order of the argument is that of the pass.  One step takes one statement out of a list, and the
scopes behind it then agree on all names mentioned there; a sweep is a run of such steps.
-/

namespace ShaderTree

variable {Outer : Type} {view : View} {options : EliminationOptions}

/-- A reference is lasting unless the declaration that has it could be left out. -/
def Reference.isLasting (view : View) (reference : Reference Outer) : Bool :=
  match reference.holder with
  | some handle => !(view handle).isEmpty
  | none => true

/--
References are thinned where some are left out, none is changed, and each that is left out stood in
a declaration that could be left out.
-/
structure Thinned (view : View) (left given : List (Reference Outer)) : Prop where
  sublist : left.Sublist given
  lasting : left.filter (Reference.isLasting view) = given.filter (Reference.isLasting view)

namespace Thinned

theorem refl (references : List (Reference Outer)) : Thinned view references references :=
  ⟨.refl _, rfl⟩

theorem trans {left middle given : List (Reference Outer)} (first : Thinned view left middle)
    (second : Thinned view middle given) : Thinned view left given :=
  ⟨first.sublist.trans second.sublist, first.lasting.trans second.lasting⟩

theorem append {left given otherLeft otherGiven : List (Reference Outer)}
    (first : Thinned view left given) (second : Thinned view otherLeft otherGiven) :
    Thinned view (left ++ otherLeft) (given ++ otherGiven) where
  sublist := first.sublist.append second.sublist
  lasting := by rw [List.filter_append, List.filter_append, first.lasting, second.lasting]

/-- All of a list may go if none of it is lasting. -/
theorem nil {given : List (Reference Outer)}
    (gone : given.filter (Reference.isLasting view) = []) : Thinned view [] given :=
  ⟨List.nil_sublist _, gone.symm⟩

end Thinned

/-! ## Statements that can be left out -/

theorem Declarator.filter_referencesFrom {handle : Handle} (empty : (view handle).isEmpty = true)
    (position : Nat) (declarators : List Declarator) (scope : Scope Outer) :
    (referencesFrom handle position declarators scope).filter (Reference.isLasting view) = [] := by
  induction declarators generalizing position scope with
  | nil => rfl
  | cons declarator rest ih =>
      rw [referencesFrom, List.filter_append, ih, List.append_nil, List.filter_eq_nil_iff]
      intro reference within
      obtain ⟨expr, -, written⟩ := List.mem_flatMap.1 within
      obtain ⟨name, -, rfl⟩ := List.mem_map.1 written
      simp [Reference.isLasting, empty]

namespace Stmt

/-- No reference of a statement that can be left out is lasting. -/
theorem filter_references_of_idle {stmt : Stmt} (scope : Scope Outer)
    (idle : stmt.idle view = true) :
    (stmt.references view scope).filter (Reference.isLasting view) = [] := by
  induction stmt using Stmt.induction generalizing scope with
  | simple form span =>
      cases form with
      | declare handle => exact Declarator.filter_referencesFrom idle 0 _ scope
      | nop => rfl
      | _ => cases idle
  | block stmts span ih =>
      rw [idle_block, List.all_eq_true] at idle
      rw [references]
      induction stmts generalizing scope with
      | nil => rfl
      | cons first rest ihRest =>
          rw [List.forall_mem_cons] at ih idle
          rw [referencesOfList, List.filter_append, ih.1 scope idle.1, ihRest ih.2 _ idle.2]
          rfl
  | _ => cases idle

/-! ## Sweeps -/

/-- Where a statement declares nothing that is used, the scopes before and behind it agree. -/
theorem after_agreeOn {stmt : Stmt} (scope : Scope Outer) {uses : String → Bool}
    (unused : ∀ declarator ∈ stmt.declared view, uses declarator.name = false) :
    Scope.AgreeOn uses scope (scope.after view stmt) := by
  intro name used
  rw [Scope.after]
  cases holds : stmt.handle? with
  | none => rfl
  | some handle =>
      rw [declared_eq, holds] at unused
      refine (Scope.bindFrom_of_notMem scope handle 0 fun declarator within same => ?_).symm
      have absent := unused declarator within
      rw [same, used] at absent
      cases absent

/-- A name declared by a statement that nothing later needs is mentioned by nothing later. -/
theorem usesName_of_not_neededBy {stmt : Stmt} {later : List Stmt}
    (unneeded : stmt.neededBy view later = false) :
    ∀ declarator ∈ stmt.declared view,
      (later.any fun each => each.usesName view declarator.name) = false := by
  rw [neededBy_eq, List.any_eq_false] at unneeded
  intro declarator within
  rw [List.any_eq_false]
  intro each inLater uses
  exact unneeded each inLater (List.any_eq_true.2 ⟨declarator, within, uses⟩)

end Stmt

/-- Taking one statement out leaves scopes that agree on what stands behind it. -/
theorem agreeOn_of_elided {first : Stmt} {kept outside : List Stmt} (scope : Scope Outer)
    (elided : (first.idle view && !first.neededBy view (kept ++ outside)) = true) :
    Scope.AgreeOn (fun name => kept.any fun each => each.usesName view name) scope
        (scope.after view first) ∧
      Scope.AgreeOn (fun name => outside.any fun each => each.usesName view name) scope
        (scope.after view first) := by
  rw [Bool.and_eq_true, Bool.not_eq_true'] at elided
  have agree : Scope.AgreeOn
      (fun name => (kept ++ outside).any fun each => each.usesName view name) scope
      (scope.after view first) :=
    Stmt.after_agreeOn scope (Stmt.usesName_of_not_neededBy elided.2)
  simp only [Scope.AgreeOn, List.any_append, Bool.or_eq_true, or_imp, forall_and] at agree
  exact agree

theorem thinned_swept (scope : Scope Outer) (outside stmts : List Stmt) :
    Thinned view (Stmt.referencesOfList view scope (swept view outside stmts))
      (Stmt.referencesOfList view scope stmts) := by
  induction stmts generalizing scope with
  | nil => exact .refl _
  | cons first rest ih =>
      rw [swept_cons, Stmt.referencesOfList]
      split
      case isTrue elided =>
        have same := Stmt.referencesOfList_congr
          (fun stmt _ {_ _} agree => Stmt.references_congr agree) (agreeOn_of_elided scope elided).1
        rw [same]
        rw [Bool.and_eq_true] at elided
        exact (Thinned.nil (Stmt.filter_references_of_idle scope elided.1)).append (ih _)
      case isFalse => exact (Thinned.refl _).append (ih _)

/-- What a sweep takes out of a list changes no scope in which something outside the list stands. -/
theorem afterAll_swept (scope : Scope Outer) (outside stmts : List Stmt) :
    Scope.AgreeOn (fun name => outside.any fun each => each.usesName view name)
      (scope.afterAll view (swept view outside stmts)) (scope.afterAll view stmts) := by
  induction stmts generalizing scope with
  | nil => exact fun _ _ => rfl
  | cons first rest ih =>
      rw [swept_cons]
      split
      case isTrue elided =>
        have agree : Scope.AgreeOn (fun name => outside.any fun each => each.usesName view name)
            (scope.afterAll view (swept view outside rest))
            ((scope.after view first).afterAll view (swept view outside rest)) :=
          (agreeOn_of_elided scope elided).2.afterAll _
        exact fun name used => (agree name used).trans (ih _ name used)
      case isFalse => exact ih _

/-! ## Trees -/

namespace Stmt

theorem thinned_map_pruned {stmts : List Stmt} (scope : Scope Outer)
    (each : ∀ stmt ∈ stmts, ∀ scope : Scope Outer,
      Thinned view ((stmt.pruned view options).references view scope)
        (stmt.references view scope)) :
    Thinned view (referencesOfList view scope (stmts.map (pruned view options)))
      (referencesOfList view scope stmts) := by
  induction stmts generalizing scope with
  | nil => exact .refl _
  | cons first rest ih =>
      rw [List.forall_mem_cons] at each
      have same : scope.after view (first.pruned view options) = scope.after view first := by
        rw [Scope.after, Scope.after, handle?_pruned]
      rw [List.map_cons, referencesOfList, referencesOfList, same]
      exact (each.1 scope).append (ih _ each.2)

theorem afterAll_map_pruned (scope : Scope Outer) (stmts : List Stmt) :
    scope.afterAll view (stmts.map (pruned view options)) = scope.afterAll view stmts := by
  induction stmts generalizing scope with
  | nil => rfl
  | cons first rest ih =>
      have same : scope.after view (first.pruned view options) = scope.after view first := by
        rw [Scope.after, Scope.after, handle?_pruned]
      rw [List.map_cons, Scope.afterAll, List.foldl_cons, same]
      exact ih _

theorem thinned_prunedCases {cases : List Case} (around scope : Scope Outer)
    (each : ∀ stmt ∈ cases.flatMap Case.stmts, ∀ scope : Scope Outer,
      Thinned view ((stmt.pruned view options).references view scope)
        (stmt.references view scope)) :
    Thinned view (referencesOfCases view around scope (prunedCases view options cases))
      (referencesOfCases view around scope cases) := by
  induction cases generalizing scope with
  | nil => exact .refl _
  | cons first rest ih =>
      obtain ⟨label, stmts⟩ := first
      rw [List.flatMap_cons, List.forall_mem_append] at each
      -- What a later case mentions after the pass, it mentioned before.
      have agree : Scope.AgreeOn
          (fun name => ((prunedCases view options rest).flatMap Case.stmts).any
            fun each => each.usesName view name)
          (scope.afterAll view (swept view (rest.flatMap Case.stmts)
            (stmts.map (pruned view options))))
          (scope.afterAll view (stmts.map (pruned view options))) :=
        (afterAll_swept scope (rest.flatMap Case.stmts) _).mono
          fun _ used => usesName_of_prunedCases used
      rw [afterAll_map_pruned] at agree
      have same : referencesOfCases view around _ (prunedCases view options rest) =
          referencesOfCases view around _ (prunedCases view options rest) :=
        referencesOfCases_congr (fun stmt _ {_ _} agree => references_congr agree)
          (fun _ _ => rfl) agree
      rw [prunedCases_cons, referencesOfCases, referencesOfCases, same]
      exact ((Thinned.refl _).append
        ((thinned_swept scope _ _).trans (thinned_map_pruned scope each.1))).append (ih _ each.2)

theorem thinned_collapsed (scope : Scope Outer) (body : Stmt) :
    Thinned view ((body.collapsed view options).references view scope)
      (body.references view scope) := by
  unfold collapsed
  split
  case isTrue gone =>
    rw [collapses, Bool.and_eq_true] at gone
    exact .nil (filter_references_of_idle scope gone.2)
  case isFalse => exact .refl _

/-- The references of what the pass leaves are those of the tree, thinned. -/
theorem thinned_pruned (scope : Scope Outer) (stmt : Stmt) :
    Thinned view ((stmt.pruned view options).references view scope)
      (stmt.references view scope) := by
  induction stmt using Stmt.induction generalizing scope with
  | simple form span => exact .refl _
  | block stmts span ih =>
      rw [pruned_block]
      exact (thinned_swept scope [] _).trans (thinned_map_pruned scope ih)
  | doWhile body test span ih =>
      rw [pruned_doWhile]
      exact ((thinned_collapsed scope _).trans (ih scope)).append (.refl _)
  | forLoop start test next body span ihStart ihBody =>
      rw [pruned_forLoop]
      cases start with
      | none => exact (Thinned.refl _).append ((thinned_collapsed scope _).trans (ihBody scope))
      | some start =>
          exact (Thinned.refl _).append
            ((Thinned.refl _).append ((thinned_collapsed _ _).trans (ihBody _)))
  | choice isStatic test yes no span ihYes ihNo =>
      rw [pruned_choice]
      have ofYes : Thinned view
          (test.references scope none ++
            ((yes.pruned view options).collapsed view options).references view scope)
          (test.references scope none ++ yes.references view scope) :=
        (Thinned.refl _).append ((thinned_collapsed scope _).trans (ihYes scope))
      cases no with
      | none => exact ofYes
      | some branch =>
          rw [Option.bind_some, kept?, idle_pruned]
          split
          case isTrue idle =>
            have gone : Thinned view [] (branch.references view scope) :=
              .nil (filter_references_of_idle scope idle)
            simpa only [references, List.append_nil] using ofYes.append gone
          case isFalse => exact ofYes.append (ihNo branch rfl scope)
  | switch isStatic value cases span ih =>
      rw [pruned_switch]
      refine (Thinned.refl _).append (thinned_prunedCases scope scope ?_)
      intro stmt within
      obtain ⟨each, inCases, inStmts⟩ := List.mem_flatMap.1 within
      exact ih each inCases stmt inStmts
  | whileLoop test body span ih =>
      rw [pruned_whileLoop]
      exact (Thinned.refl _).append ((thinned_collapsed scope _).trans (ih scope))

/--
Elimination preserves name binding: on a tree in range it succeeds, in any environment, and the
references of what it leaves are those of the tree, thinned.
-/
theorem eliminateEmpty_preserves_binding {declarations : Declarations} {body : Stmt}
    (inRange : body.InRange declarations) (options : EliminationOptions)
    (diagnostics : Diagnostics) (environment : String → Option Outer) :
    ∃ result,
      body.eliminateEmpty declarations.fetch options diagnostics = .ok result ∧
        Thinned declarations.view
          (result.body.references declarations.view (.around environment))
          (body.references declarations.view (.around environment)) := by
  refine ⟨_, inRange.eliminateEmpty_eq_ok diagnostics, ?_⟩
  rw [body_eliminated]
  split
  case isTrue => exact thinned_pruned _ body
  case isFalse => exact .refl _

/--
In `int x; int x; int y[x]; return x;` the declaration of `y` goes with its mention of `x`, and the `x` that
is returned is still that of the second declaration.
-/
theorem eliminateEmpty_preserves_shadowing :
    let declarations : Declarations := .ofList
      [.ofDeclarators [.sized "x" []], .ofDeclarators [.sized "x" []],
        .ofDeclarators [.sized "y" [.var "x"]]]
    let body : Stmt := .ofList [.declares 0, .declares 1, .declares 2, .returns (.var "x")]
    let second : Binding Unit := .variable (.ofSlot 1) 0
    body.InRange declarations ∧
      body.references declarations.view (.around fun _ => none) =
        [⟨"x", .nowhere, second, some (.ofSlot 2)⟩, ⟨"x", .nowhere, second, none⟩] ∧
      ∃ result,
        body.eliminateEmpty declarations.fetch {} {} = .ok result ∧
          result.body = .ofList [.declares 0, .declares 1, .returns (.var "x")] ∧
          result.body.references declarations.view (.around fun _ => none) =
            [⟨"x", .nowhere, second, none⟩] ∧
          (result.body.references declarations.view (.around fun _ => none)).Sublist
            (body.references declarations.view (.around fun _ => (none : Option Unit))) := by
  intro declarations body second
  have inRange : body.InRange declarations := by decide
  obtain ⟨result, ran, thinned⟩ :=
    eliminateEmpty_preserves_binding inRange {} {} fun _ => (none : Option Unit)
  obtain rfl := inRange.eq_eliminated ran
  exact ⟨inRange, rfl, _, ran, rfl, rfl, thinned.sublist⟩

end Stmt

end ShaderTree
