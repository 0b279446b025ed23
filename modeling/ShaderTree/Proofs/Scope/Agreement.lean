import ShaderTree.Proofs.Scope.Resolution

/-!
# Scopes that agree

What a tree refers to depends on a scope only through the names that the tree mentions.  So two
scopes that agree on these names give the tree the same references, and a declaration of other names
can come and go in front of it.
-/

namespace ShaderTree

variable {Outer : Type} {view : View}

/-! ## Names that are written -/

theorem Expr.anyMentions_iff {arguments : List Expr} {name : String}
    (each : ∀ argument ∈ arguments,
      argument.mentions name = true ↔ name ∈ argument.names.map Prod.fst) :
    anyMentions name arguments = true ↔ name ∈ (namesOfList arguments).map Prod.fst := by
  induction arguments with
  | nil => simp [anyMentions, namesOfList]
  | cons first rest ih =>
      rw [List.forall_mem_cons] at each
      rw [anyMentions, namesOfList, Bool.or_eq_true, List.map_append, List.mem_append, each.1,
        ih each.2]

/-- An expression mentions the names that are written in it. -/
theorem Expr.mentions_iff (expr : Expr) (name : String) :
    expr.mentions name = true ↔ name ∈ expr.names.map Prod.fst := by
  induction expr using Expr.induction with
  | literal value span => simp [mentions, names]
  | reference other span => simp [mentions, names, eq_comm]
  | binary op left right span ihLeft ihRight => simp_all [mentions, names]
  | prefixed op operand span ih => rw [mentions, ih, names]
  | suffixed op operand span ih => rw [mentions, ih, names]
  | apply head arguments span ih => rw [mentions, names, anyMentions_iff ih]
  | index base position span ihBase ihPosition => simp_all [mentions, names]
  | select selection base field span ih => rw [mentions, ih, names]
  | conditional test yes no span ihTest ihYes ihNo => simp_all [mentions, names, or_assoc]

/-! ## Agreement -/

namespace Scope

/-- Two scopes give the names with a property the same meaning. -/
def AgreeOn (uses : String → Bool) (first second : Scope Outer) : Prop :=
  ∀ name, uses name = true → first name = second name

variable {uses : String → Bool} {first second : Scope Outer}

theorem AgreeOn.mono {fewer : String → Bool} (agree : AgreeOn uses first second)
    (all : ∀ name, fewer name = true → uses name = true) : AgreeOn fewer first second :=
  fun name used => agree name (all name used)

theorem AgreeOn.bind (agree : AgreeOn uses first second) (name : String) (handle : Handle)
    (position : Nat) :
    AgreeOn uses (first.bind name handle position) (second.bind name handle position) := by
  intro other used
  unfold Scope.bind
  split
  · rfl
  · exact agree other used

theorem AgreeOn.bindFrom (agree : AgreeOn uses first second) (handle : Handle) (position : Nat)
    (declarators : List Declarator) :
    AgreeOn uses (first.bindFrom handle position declarators)
      (second.bindFrom handle position declarators) := by
  induction declarators generalizing position first second with
  | nil => exact agree
  | cons declarator rest ih => exact ih (agree.bind declarator.name handle position) (position + 1)

/-- Behind a statement scopes agree where they agreed before it. -/
theorem AgreeOn.after (agree : AgreeOn uses first second) (stmt : Stmt) :
    AgreeOn uses (first.after view stmt) (second.after view stmt) := by
  unfold Scope.after
  split
  · exact agree.bindFrom _ 0 _
  · exact agree

theorem AgreeOn.afterAll (agree : AgreeOn uses first second) (stmts : List Stmt) :
    AgreeOn uses (first.afterAll view stmts) (second.afterAll view stmts) := by
  induction stmts generalizing first second with
  | nil => exact agree
  | cons stmt rest ih => exact ih (agree.after stmt)

theorem bindFrom_of_notMem (scope : Scope Outer) (handle : Handle) (position : Nat)
    {declarators : List Declarator} {name : String}
    (other : ∀ declarator ∈ declarators, declarator.name ≠ name) :
    scope.bindFrom handle position declarators name = scope name := by
  induction declarators generalizing scope position with
  | nil => rfl
  | cons declarator rest ih =>
      rw [List.forall_mem_cons] at other
      rw [Scope.bindFrom, ih _ _ other.2, Scope.bind, if_neg (Ne.symm other.1)]

end Scope

/-! ## References -/

section References

variable {first second : Scope Outer}

theorem Expr.references_congr {expr : Expr} (holder : Option Handle)
    (agree : Scope.AgreeOn expr.mentions first second) :
    expr.references first holder = expr.references second holder := by
  apply List.map_congr_left
  intro written within
  rw [agree _ ((expr.mentions_iff _).2 (List.mem_map_of_mem within))]

theorem Expr.optionalReferences_congr {expr : Option Expr}
    (agree : Scope.AgreeOn (fun name => expr.any (Expr.mentions name)) first second) :
    Expr.optionalReferences first expr = Expr.optionalReferences second expr := by
  cases expr with
  | none => rfl
  | some expr => simp only [optionalReferences, Option.toList, List.flatMap_singleton,
      references_congr none agree]

theorem Declarator.referencesFrom_congr (handle : Handle) (position : Nat)
    {declarators : List Declarator}
    (agree : Scope.AgreeOn (fun name => (declarators.flatMap exprs).any (Expr.mentions name))
      first second) :
    referencesFrom handle position declarators first =
      referencesFrom handle position declarators second := by
  induction declarators generalizing position first second with
  | nil => rfl
  | cons declarator rest ih =>
      have here : declarator.exprs.flatMap (Expr.references first (some handle)) =
          declarator.exprs.flatMap (Expr.references second (some handle)) := by
        rw [List.flatMap_def, List.flatMap_def]
        refine congrArg List.flatten (List.map_congr_left fun expr within => ?_)
        apply Expr.references_congr
        refine agree.mono fun name used => List.any_eq_true.2 ⟨expr, ?_, used⟩
        exact List.mem_append_left _ within
      have behind := agree.mono fun name used => by
        rw [List.flatMap_cons, List.any_append, Bool.or_eq_true]
        exact .inr used
      rw [referencesFrom, referencesFrom, here, ih _ (behind.bind _ _ _)]

namespace Stmt

theorem referencesOfList_congr {stmts : List Stmt}
    (each : ∀ stmt ∈ stmts, ∀ {first second : Scope Outer},
      Scope.AgreeOn (usesName view stmt) first second →
      stmt.references view first = stmt.references view second)
    (agree : Scope.AgreeOn (fun name => stmts.any fun stmt => stmt.usesName view name)
      first second) :
    referencesOfList view first stmts = referencesOfList view second stmts := by
  induction stmts generalizing first second with
  | nil => rfl
  | cons stmt rest ih =>
      rw [List.forall_mem_cons] at each
      have here := agree.mono fun name used => by
        rw [List.any_cons, Bool.or_eq_true]
        exact .inl used
      have behind := agree.mono fun name used => by
        rw [List.any_cons, Bool.or_eq_true]
        exact .inr used
      rw [referencesOfList, referencesOfList, each.1 here, ih each.2 (behind.after stmt)]

theorem referencesOfCases_congr {cases : List Case} {around other : Scope Outer}
    (each : ∀ stmt ∈ cases.flatMap Case.stmts, ∀ {first second : Scope Outer},
      Scope.AgreeOn (usesName view stmt) first second →
      stmt.references view first = stmt.references view second)
    (agreeAround : Scope.AgreeOn
      (fun name => cases.any fun case => case.label.any (Expr.mentions name)) around other)
    (agree : Scope.AgreeOn
      (fun name => (cases.flatMap Case.stmts).any fun stmt => stmt.usesName view name)
      first second) :
    referencesOfCases view around first cases = referencesOfCases view other second cases := by
  induction cases generalizing first second with
  | nil => rfl
  | cons case rest ih =>
      obtain ⟨label, stmts⟩ := case
      simp only [List.flatMap_cons, List.forall_mem_append, List.any_append, List.any_cons,
        Scope.AgreeOn, Bool.or_eq_true, or_imp, forall_and] at each agree agreeAround
      have here : referencesOfList view first stmts = referencesOfList view second stmts :=
        referencesOfList_congr each.1 agree.1
      have labels : Expr.optionalReferences around label = Expr.optionalReferences other label :=
        Expr.optionalReferences_congr agreeAround.1
      rw [referencesOfCases, referencesOfCases, labels, here,
        ih each.2 agreeAround.2 (Scope.AgreeOn.afterAll agree.2 stmts)]

/-- Scopes that agree on the names that a tree mentions give it the same references. -/
theorem references_congr {stmt : Stmt} (agree : Scope.AgreeOn (usesName view stmt) first second) :
    stmt.references view first = stmt.references view second := by
  induction stmt using Stmt.induction generalizing first second with
  | simple form span =>
      cases form with
      | evaluate expr =>
          simp only [Scope.AgreeOn, usesName_evaluate] at agree
          exact Expr.references_congr none agree
      | «return» value =>
          simp only [Scope.AgreeOn, usesName_return] at agree
          exact Expr.optionalReferences_congr agree
      | declare handle =>
          simp only [Scope.AgreeOn, usesName_declare] at agree
          exact Declarator.referencesFrom_congr handle 0 agree
      | _ => rfl
  | block stmts span ih =>
      simp only [Scope.AgreeOn, usesName_block] at agree
      exact referencesOfList_congr ih agree
  | doWhile body test span ih =>
      simp only [Scope.AgreeOn, usesName_doWhile, Bool.or_eq_true, or_imp, forall_and] at agree
      rw [references, references, Expr.references_congr none agree.1, ih agree.2]
  | forLoop start test next body span ihStart ihBody =>
      simp only [Scope.AgreeOn, usesName_forLoop, Bool.or_eq_true, or_imp, forall_and] at agree
      obtain ⟨⟨ofTest, ofNext⟩, ofStart, ofBody⟩ := agree
      cases start with
      | none =>
          rw [references, references, Expr.optionalReferences_congr ofTest,
            Expr.optionalReferences_congr ofNext, ihBody ofBody]
      | some start =>
          rw [references, references, ihStart start rfl ofStart,
            Expr.optionalReferences_congr (Scope.AgreeOn.after ofTest start),
            Expr.optionalReferences_congr (Scope.AgreeOn.after ofNext start),
            ihBody (Scope.AgreeOn.after ofBody start)]
  | choice isStatic test yes no span ihYes ihNo =>
      simp only [Scope.AgreeOn, usesName_choice, Bool.or_eq_true, or_imp, forall_and] at agree
      obtain ⟨ofTest, ofYes, ofNo⟩ := agree
      cases no with
      | none => rw [references, references, Expr.references_congr none ofTest, ihYes ofYes]
      | some no =>
          rw [references, references, Expr.references_congr none ofTest, ihYes ofYes,
            ihNo no rfl ofNo]
  | switch isStatic value cases span ih =>
      simp only [Scope.AgreeOn, usesName_switch, Bool.or_eq_true, or_imp, forall_and] at agree
      obtain ⟨⟨ofValue, ofLabels⟩, ofStmts⟩ := agree
      have nested : ∀ stmt ∈ cases.flatMap Case.stmts, ∀ {first second : Scope Outer},
          Scope.AgreeOn (usesName view stmt) first second →
          stmt.references view first = stmt.references view second := by
        intro stmt within
        obtain ⟨each, inCases, inStmts⟩ := List.mem_flatMap.1 within
        exact ih each inCases stmt inStmts
      rw [references, references, Expr.references_congr none ofValue,
        referencesOfCases_congr nested ofLabels ofStmts]
  | whileLoop test body span ih =>
      simp only [Scope.AgreeOn, usesName_whileLoop, Bool.or_eq_true, or_imp, forall_and] at agree
      rw [references, references, Expr.references_congr none agree.1, ih agree.2]

end Stmt

end References

end ShaderTree
