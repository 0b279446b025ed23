import Mathlib.Data.List.Flatten
import ShaderTree.Proofs.Elimination.Pass

/-!
# What survives the pass

The pass takes statements out and puts `;` in their places; it makes nothing up.  So whatever is
nested in what it leaves was nested there before, up to what the pass did to it, and a tree holds no
handle and mentions no name that it did not hold or mention before.  The emptiness of a tree, on
which every decision of the pass rests, does not change at all.

The pass therefore finds every declaration that it looks up in a tree that is in range.
-/

namespace ShaderTree

variable {view : View} {options : EliminationOptions}

namespace Stmt

/-! ## What stays as it was -/

@[simp] theorem span_pruned (stmt : Stmt) : (stmt.pruned view options).span = stmt.span := by
  cases stmt <;> simp [span]

@[simp] theorem kind_pruned (stmt : Stmt) : (stmt.pruned view options).kind = stmt.kind := by
  cases stmt <;> simp [kind]

@[simp] theorem handle?_pruned (stmt : Stmt) :
    (stmt.pruned view options).handle? = stmt.handle? := by
  cases stmt <;> simp [handle?]

@[simp] theorem declared_pruned (stmt : Stmt) :
    (stmt.pruned view options).declared view = stmt.declared view := by
  rw [declared_eq, declared_eq, handle?_pruned]

@[simp] theorem neededBy_pruned (stmt : Stmt) (later : List Stmt) :
    (stmt.pruned view options).neededBy view later = stmt.neededBy view later := by
  rw [neededBy_eq, neededBy_eq, declared_pruned]

/-- Only idle statements are swept out, so a sweep does not change whether all of a list is idle. -/
theorem all_idle_swept (outside stmts : List Stmt) :
    (swept view outside stmts).all (idle view) = stmts.all (idle view) := by
  induction stmts with
  | nil => rfl
  | cons first rest ih =>
      rw [swept_cons]
      split
      case isTrue elided =>
        rw [Bool.and_eq_true] at elided
        rw [ih, List.all_cons, elided.1, Bool.true_and]
      case isFalse => rw [List.all_cons, List.all_cons, ih]

/-- The pass does not change whether a statement can be left out. -/
@[simp] theorem idle_pruned (stmt : Stmt) :
    (stmt.pruned view options).idle view = stmt.idle view := by
  induction stmt using Stmt.induction with
  | simple form span => rw [pruned_simple]
  | block stmts span ih =>
      rw [pruned_block, idle_block, idle_block, all_idle_swept, Bool.eq_iff_iff, List.all_map,
        List.all_eq_true, List.all_eq_true]
      refine forall_congr' fun stmt => imp_congr_right fun within => ?_
      rw [Function.comp, ih stmt within]
  | doWhile body test span ih => rw [pruned_doWhile]; rfl
  | forLoop start test next body span ihStart ihBody => rw [pruned_forLoop]; rfl
  | choice isStatic test yes no span ihYes ihNo => rw [pruned_choice]; rfl
  | switch isStatic value cases span ih => rw [pruned_switch]; rfl
  | whileLoop test body span ih => rw [pruned_whileLoop]; rfl

/-! ## What a survivor was before -/

/-- A body is left as the pass left it, or it is `;`. -/
theorem collapsed_eq_or (body : Stmt) :
    body.collapsed view options = body ∨ body.collapsed view options = .nop body.span := by
  unfold collapsed
  split
  · exact .inr rfl
  · exact .inl rfl

theorem kept?_eq_some_iff {branch left : Stmt} :
    branch.kept? view = some left ↔ branch.idle view = false ∧ branch = left := by
  unfold kept?
  split <;> simp_all

/-- The pass leaves of the statements of the cases some, each as it left it and in order. -/
theorem stmts_prunedCases_sublist (cases : List Case) :
    ((prunedCases view options cases).flatMap Case.stmts).Sublist
      ((cases.flatMap Case.stmts).map (pruned view options)) := by
  induction cases with
  | nil => exact .slnil
  | cons first rest ih =>
      obtain ⟨label, stmts⟩ := first
      rw [prunedCases_cons, List.flatMap_cons, List.flatMap_cons, List.map_append]
      exact (swept_sublist ..).append ih

/-- What the pass leaves of the statements of the cases comes from statements of the cases. -/
theorem mem_prunedCases {cases : List Case} {below : Stmt}
    (within : below ∈ (prunedCases view options cases).flatMap Case.stmts) :
    ∃ above ∈ cases.flatMap Case.stmts, below = above.pruned view options := by
  obtain ⟨above, inCases, same⟩ :=
    List.mem_map.1 ((stmts_prunedCases_sublist cases).subset within)
  exact ⟨above, inCases, same.symm⟩

/--
A statement nested in what the pass leaves is `;`, or it was nested there before: untouched, as the
start of a loop is, or as the pass left it.
-/
theorem mem_nested_pruned {stmt below : Stmt}
    (within : below ∈ (stmt.pruned view options).nested) :
    (∃ span, below = .nop span) ∨
      ∃ above ∈ stmt.nested, below = above ∨ below = above.pruned view options := by
  have fromBody {body : Stmt} (same : below = (body.pruned view options).collapsed view options) :
      (∃ span, below = .nop span) ∨ below = body.pruned view options := by
    rcases collapsed_eq_or (body.pruned view options) with stays | gone
    · exact .inr (same.trans stays)
    · exact .inl ⟨_, same.trans gone⟩
  cases stmt with
  | simple form span => exact absurd within List.not_mem_nil
  | block stmts span =>
      rw [pruned_block] at within
      obtain ⟨above, inStmts, same⟩ := List.mem_map.1 ((swept_sublist ..).subset within)
      exact .inr ⟨above, inStmts, .inr same.symm⟩
  | doWhile body test span =>
      rw [pruned_doWhile] at within
      refine (fromBody (List.mem_singleton.1 within)).imp_right fun same => ?_
      exact ⟨body, List.mem_singleton_self body, .inr same⟩
  | forLoop start test next body span =>
      rw [pruned_forLoop] at within
      rcases List.mem_append.1 within with inStart | inBody
      · exact .inr ⟨below, List.mem_append_left _ inStart, .inl rfl⟩
      · refine (fromBody (List.mem_singleton.1 inBody)).imp_right fun same => ?_
        exact ⟨body, List.mem_append_right _ (List.mem_singleton_self body), .inr same⟩
  | choice isStatic test yes no span =>
      rw [pruned_choice] at within
      rcases List.mem_cons.1 within with inYes | inNo
      · refine (fromBody inYes).imp_right fun same => ?_
        exact ⟨yes, List.mem_cons_self, .inr same⟩
      · obtain ⟨branch, present, kept⟩ := Option.bind_eq_some_iff.1 (Option.mem_toList.1 inNo)
        obtain ⟨-, same⟩ := kept?_eq_some_iff.1 kept
        exact .inr ⟨branch, List.mem_cons_of_mem _ (Option.mem_toList.2 present), .inr same.symm⟩
  | switch isStatic value cases span =>
      obtain ⟨above, inCases, same⟩ := mem_prunedCases within
      exact .inr ⟨above, inCases, .inr same⟩
  | whileLoop test body span =>
      rw [pruned_whileLoop] at within
      refine (fromBody (List.mem_singleton.1 within)).imp_right fun same => ?_
      exact ⟨body, List.mem_singleton_self body, .inr same⟩

/-- What is collected from the nested statements is less after the pass if it is less from each. -/
theorem nested_pruned_sublist {α : Type} {f : Stmt → List α} (nop : ∀ span, f (.nop span) = [])
    {stmt : Stmt}
    (each : ∀ below ∈ stmt.nested, (f (below.pruned view options)).Sublist (f below)) :
    ((stmt.pruned view options).nested.flatMap f).Sublist (stmt.nested.flatMap f) := by
  have ofList {stmts : List Stmt} (each : ∀ stmt ∈ stmts, (f (stmt.pruned view options)).Sublist
      (f stmt)) {left : List Stmt} (few : left.Sublist (stmts.map (pruned view options))) :
      (left.flatMap f).Sublist (stmts.flatMap f) := by
    refine (few.flatMap f).trans ?_
    rw [List.flatMap_map]
    exact List.Sublist.flatMap_right stmts each
  have ofBody {body : Stmt} (less : (f (body.pruned view options)).Sublist (f body)) :
      (f ((body.pruned view options).collapsed view options)).Sublist (f body) := by
    rcases collapsed_eq_or (body.pruned view options) with stays | gone
    · rwa [stays]
    · rw [gone, nop]
      exact List.nil_sublist _
  cases stmt with
  | simple form span => exact .slnil
  | block stmts span =>
      rw [pruned_block]
      exact ofList each (swept_sublist ..)
  | doWhile body test span =>
      rw [pruned_doWhile, nested, nested, List.flatMap_singleton, List.flatMap_singleton]
      exact ofBody (each body (List.mem_singleton_self body))
  | forLoop start test next body span =>
      rw [pruned_forLoop, nested, nested, List.flatMap_append, List.flatMap_append,
        List.flatMap_singleton, List.flatMap_singleton]
      refine (List.Sublist.refl _).append (ofBody (each body ?_))
      exact List.mem_append_right _ (List.mem_singleton_self body)
  | choice isStatic test yes no span =>
      rw [pruned_choice, nested, nested, List.flatMap_cons, List.flatMap_cons]
      refine (ofBody (each yes List.mem_cons_self)).append ?_
      cases no with
      | none => exact .slnil
      | some branch =>
          have less := each branch (List.mem_cons_of_mem _ (List.mem_singleton_self branch))
          rw [Option.bind_some, kept?, Option.toList_some, List.flatMap_singleton]
          split
          · exact List.nil_sublist _
          · rwa [Option.toList_some, List.flatMap_singleton]
  | switch isStatic value cases span =>
      rw [pruned_switch]
      exact ofList each (stmts_prunedCases_sublist cases)
  | whileLoop test body span =>
      rw [pruned_whileLoop, nested, nested, List.flatMap_singleton, List.flatMap_singleton]
      exact ofBody (each body (List.mem_singleton_self body))

/--
Of a question that the pass does not change the answer to, and that `;` does not answer, a walk
collects no new answers after the pass.
-/
theorem filterMap_nodes_pruned_sublist {α : Type} {f : Stmt → Option α}
    (same : ∀ stmt : Stmt, f (stmt.pruned view options) = f stmt)
    (nop : ∀ span, f (.nop span) = none) (stmt : Stmt) :
    ((stmt.pruned view options).nodes.filterMap f).Sublist (stmt.nodes.filterMap f) := by
  induction stmt using nestedInduction with
  | step stmt ih =>
      rw [filterMap_nodes_eq, filterMap_nodes_eq f stmt, same]
      refine (List.Sublist.refl _).append (nested_pruned_sublist (fun span => ?_) ih)
      rw [filterMap_nodes_eq, nop]
      rfl

theorem handles_pruned_sublist (stmt : Stmt) :
    (stmt.pruned view options).handles.Sublist stmt.handles :=
  filterMap_nodes_pruned_sublist handle?_pruned (fun _ => rfl) stmt

/-- The pass leaves a tree no handle that it did not hold. -/
theorem handles_pruned_subset (stmt : Stmt) :
    (stmt.pruned view options).handles ⊆ stmt.handles :=
  (handles_pruned_sublist stmt).subset

@[simp] theorem usesName_nop (span : Span) (name : String) :
    (Stmt.nop span).usesName view name = false :=
  rfl

@[simp] theorem labels_prunedCases (cases : List Case) :
    (prunedCases view options cases).map Case.label = cases.map Case.label := by
  induction cases with
  | nil => rfl
  | cons first rest ih =>
      obtain ⟨label, stmts⟩ := first
      rw [prunedCases_cons, List.map_cons, List.map_cons, ih]
      rfl

@[simp] theorem usesNameItself_pruned (stmt : Stmt) (name : String) :
    (stmt.pruned view options).usesNameItself view name = stmt.usesNameItself view name := by
  cases stmt with
  | switch isStatic value cases span =>
      have labels : (prunedCases view options cases).map Case.label = cases.map Case.label :=
        labels_prunedCases cases
      have mentioned := congrArg (List.any · fun label => label.any (Expr.mentions name)) labels
      simp only [List.any_map] at mentioned
      exact congrArg (value.mentions name || ·) mentioned
  | _ => simp [usesNameItself, mentionsItself]

/-- The pass leaves a tree no mention of a name that it did not mention. -/
theorem usesName_of_pruned {stmt : Stmt} {name : String}
    (uses : (stmt.pruned view options).usesName view name = true) :
    stmt.usesName view name = true := by
  induction stmt using nestedInduction with
  | step stmt ih =>
      rw [usesName_eq, usesNameItself_pruned, Bool.or_eq_true, List.any_eq_true] at uses
      rw [usesName_eq, Bool.or_eq_true, List.any_eq_true]
      rcases uses with own | ⟨below, within, uses⟩
      · exact .inl own
      · rcases mem_nested_pruned within with ⟨span, rfl⟩ | ⟨above, nested, rfl | rfl⟩
        · exact absurd uses (by simp)
        · exact .inr ⟨below, nested, uses⟩
        · exact .inr ⟨above, nested, ih above nested uses⟩

/-- The pass leaves the cases of a switch no mention of a name that they did not mention. -/
theorem usesName_of_prunedCases {cases : List Case} {name : String}
    (uses : (((prunedCases view options cases).flatMap Case.stmts).any
      fun each => each.usesName view name) = true) :
    ((cases.flatMap Case.stmts).any fun each => each.usesName view name) = true := by
  obtain ⟨below, within, uses⟩ := List.any_eq_true.1 uses
  obtain ⟨above, inCases, rfl⟩ := mem_prunedCases within
  exact List.any_eq_true.2 ⟨above, inCases, usesName_of_pruned uses⟩

end Stmt

/-! ## Look-ups of the pass -/

section Answered

variable {m : Type → Type} [Monad m] [LawfulMonad m] {look : Lookup m}

namespace Stmt

omit [LawfulMonad m] in
theorem Answered.pruned {stmt : Stmt} (answered : stmt.Answered look view) :
    (stmt.pruned view options).Answered look view :=
  fun handle held => answered handle (handles_pruned_subset stmt held)

theorem declarators_eq_pure {stmt : Stmt} (answered : stmt.Answered look view) :
    stmt.declarators look = pure (stmt.declared view) := by
  rw [declared_eq, declarators]
  cases own : stmt.handle? with
  | none => rfl
  | some handle => simp [answered.own own]

theorem isUsedBy_eq_pure {stmt : Stmt} {later : List Stmt} (answered : stmt.Answered look view)
    (answeredLater : ∀ each ∈ later, each.Answered look view) :
    stmt.isUsedBy look later = pure (stmt.neededBy view later) := by
  rw [isUsedBy, declarators_eq_pure answered, pure_bind, neededBy_eq]
  exact anyM_eq_pure fun each within =>
    anyM_eq_pure fun declarator _ => mentions_eq_pure (answeredLater each within) declarator.name

theorem ofElided_eq_pure {stmt : Stmt} (answered : stmt.Answered look view) (reason : Reason) :
    Tally.ofElided look reason stmt = pure (stmt.elided view reason) := by
  simp only [Tally.ofElided, text_eq_pure answered, declarators_eq_pure answered, pure_bind]
  rfl

end Stmt

theorem sweep_eq_pure {outside stmts : List Stmt}
    (answered : ∀ stmt ∈ stmts, stmt.Answered look view)
    (answeredOutside : ∀ stmt ∈ outside, stmt.Answered look view) :
    sweep look outside stmts = pure (sweeping view outside stmts) := by
  induction stmts with
  | nil => rfl
  | cons first rest ih =>
      rw [List.forall_mem_cons] at answered
      have later : ∀ each ∈ swept view outside rest ++ outside, each.Answered look view :=
        List.forall_mem_append.2
          ⟨fun each within => answered.2 each ((swept_sublist ..).subset within), answeredOutside⟩
      have used := Stmt.isUsedBy_eq_pure answered.1 later
      rw [sweep, ih answered.2, pure_bind, Stmt.isEmpty_eq_pure answered.1, sweeping_cons]
      cases first.idle view with
      | false => simp [swept]
      | true =>
          rw [swept] at used
          cases needed : first.neededBy view ((sweeping view outside rest).1 ++ outside) with
          | false => simp [used, needed, swept, Stmt.ofElided_eq_pure answered.1]
          | true => simp [used, needed, swept]

theorem sweepAfter_eq_pure {outside : List Stmt} {piece : List Stmt × Tally}
    (answered : ∀ stmt ∈ piece.1, stmt.Answered look view)
    (answeredOutside : ∀ stmt ∈ outside, stmt.Answered look view) :
    sweepAfter look outside piece = pure (sweepAfter (m := Id) view outside piece).run := by
  simp only [sweepAfter, sweep_eq_pure answered answeredOutside, pure_bind]
  rfl

theorem collapseAfter_eq_pure {piece : Stmt × Tally} (answered : piece.1.Answered look view) :
    collapseAfter look options piece = pure (collapseAfter (m := Id) view options piece).run := by
  rw [collapseAfter_run, collapseAfter, Stmt.isEmpty_eq_pure answered,
    Stmt.ofElided_eq_pure answered]
  by_cases asked : options.collapsesBodies = true ∧ piece.1.kind ≠ .nop
  · cases idle : piece.1.idle view <;> simp [asked, idle, Stmt.collapses]
  · have stays : piece.1.collapses view options = false := by
      simp_all [Stmt.collapses]
    simp [if_neg asked, stays]

theorem dropAfter_eq_pure {piece : Stmt × Tally} (answered : piece.1.Answered look view) :
    dropAfter look piece = pure (dropAfter (m := Id) view piece).run := by
  rw [dropAfter_run, dropAfter, Stmt.isEmpty_eq_pure answered, Stmt.ofElided_eq_pure answered]
  cases piece.1.idle view <;> simp

theorem pruneEach_eq_pure (stmts : List Stmt)
    (agree : ∀ stmt ∈ stmts, prune look options stmt = pure (stmt.pruning view options)) :
    pruneEach look options stmts = pure (pruneEach (m := Id) view options stmts).run := by
  induction stmts with
  | nil => rfl
  | cons first rest ih =>
      rw [List.forall_mem_cons] at agree
      simp only [pruneEach, agree.1, ih agree.2, pure_bind]
      rfl

theorem pruneCases_eq_pure (cases : List Case)
    (answered : ∀ stmt ∈ cases.flatMap Case.stmts, stmt.Answered look view)
    (agree : ∀ stmt ∈ cases.flatMap Case.stmts,
      prune look options stmt = pure (stmt.pruning view options)) :
    pruneCases look options cases = pure (pruningCases view options cases) := by
  induction cases with
  | nil => rfl
  | cons first rest ih =>
      obtain ⟨label, stmts⟩ := first
      rw [List.flatMap_cons, List.forall_mem_append] at answered agree
      have pruned : ∀ stmt ∈ (pruneEach (m := Id) view options stmts).run.1,
          stmt.Answered look view := by
        rw [pruneEach_run, List.forall_mem_map]
        exact fun stmt within => (answered.1 stmt within).pruned
      simp only [pruneCases, pruneEach_eq_pure stmts agree.1, sweepAfter_eq_pure pruned answered.2,
        ih answered.2 agree.2, pure_bind]
      rfl

namespace Stmt

/-- The pass looks up nothing but handles that the tree holds. -/
theorem prune_eq_pure {stmt : Stmt} (answered : stmt.Answered look view) :
    prune look options stmt = pure (stmt.pruning view options) := by
  induction stmt using nestedInduction with
  | step stmt ih =>
      have nested : ∀ below ∈ stmt.nested,
          prune look options below = pure (below.pruning view options) :=
        fun below within => ih below within (answered.nested within)
      have collapse {body : Stmt} (within : body ∈ stmt.nested) :
          collapseAfter look options (body.pruning view options) =
            pure (collapseAfter (m := Id) view options (body.pruning view options)).run :=
        collapseAfter_eq_pure (answered.nested within).pruned
      cases stmt with
      | simple form span => rfl
      | block stmts span =>
          have pruned : ∀ stmt ∈ (pruneEach (m := Id) view options stmts).run.1,
              stmt.Answered look view := by
            rw [pruneEach_run, List.forall_mem_map]
            exact fun stmt within => (answered.nested within).pruned
          simp only [prune, pruneEach_eq_pure stmts nested,
            sweepAfter_eq_pure pruned (List.forall_mem_nil _), pure_bind]
          rfl
      | doWhile body test span =>
          have within : body ∈ (Stmt.doWhile body test span).nested := List.mem_singleton_self body
          simp only [prune, nested body within, collapse within, pure_bind]
          rfl
      | forLoop start test next body span =>
          have within : body ∈ (Stmt.forLoop start test next body span).nested :=
            List.mem_append_right _ (List.mem_singleton_self body)
          simp only [prune, nested body within, collapse within, pure_bind]
          rfl
      | choice isStatic test yes no span =>
          cases no with
          | none =>
              have within : yes ∈ (Stmt.choice isStatic test yes none span).nested :=
                List.mem_cons_self
              simp only [prune, nested yes within, collapse within, pure_bind]
              rfl
          | some branch =>
              have within : yes ∈ (Stmt.choice isStatic test yes (some branch) span).nested :=
                List.mem_cons_self
              have other : branch ∈ (Stmt.choice isStatic test yes (some branch) span).nested :=
                List.mem_cons_of_mem _ (List.mem_singleton_self branch)
              have drop : dropAfter look (branch.pruning view options) =
                  pure (dropAfter (m := Id) view (branch.pruning view options)).run :=
                dropAfter_eq_pure (answered.nested other).pruned
              simp only [prune, nested yes within, nested branch other, collapse within, drop,
                pure_bind]
              rfl
      | switch isStatic value cases span =>
          have pruned : pruneCases look options cases = pure (pruningCases view options cases) :=
            pruneCases_eq_pure cases (fun stmt within => answered.nested within) nested
          simp only [prune, pruned, pure_bind]
          rfl
      | whileLoop test body span =>
          have within : body ∈ (Stmt.whileLoop test body span).nested :=
            List.mem_singleton_self body
          simp only [prune, nested body within, collapse within, pure_bind]
          rfl

/-! ## The whole elimination -/

/-- What an elimination does, told by the pass under a view. -/
def eliminated (view : View) (options : EliminationOptions) (diagnostics : Diagnostics)
    (body : Stmt) : Elimination :=
  (body.eliminateEmpty (m := Id) view options diagnostics).run

@[simp] theorem body_eliminated (diagnostics : Diagnostics) (body : Stmt) :
    (body.eliminated view options diagnostics).body =
      if options.eliminates then body.pruned view options else body := by
  rw [eliminated, eliminateEmpty]
  split <;> rfl

@[simp] theorem count_eliminated (diagnostics : Diagnostics) (body : Stmt) :
    (body.eliminated view options diagnostics).count =
      if options.eliminates then (body.pruning view options).2.count else 0 := by
  rw [eliminated, eliminateEmpty]
  split <;> rfl

/-- An elimination that is switched on does what the pass does, and tells the count at the end. -/
theorem eliminated_of_asked (asked : options.eliminates = true) (diagnostics : Diagnostics)
    (body : Stmt) :
    body.eliminated view options diagnostics =
      { body := body.pruned view options
        count := (body.tally view options).count
        events :=
          (body.tally view options).events ++ [.eliminated (body.tally view options).count]
        diagnostics := diagnostics.pushAll (body.tally view options).warnings } := by
  rw [eliminated, eliminateEmpty, if_pos asked]
  rfl

/-- An elimination looks up nothing but handles that the tree holds. -/
theorem eliminateEmpty_eq_pure {body : Stmt} (answered : body.Answered look view)
    (diagnostics : Diagnostics) :
    body.eliminateEmpty look options diagnostics =
      pure (body.eliminated view options diagnostics) := by
  rw [eliminated, eliminateEmpty, eliminateEmpty, prune_eq_pure answered]
  split
  · rw [pure_bind]
    rfl
  · rfl

/-- On a tree in range, an elimination succeeds, and does what it does under the store's view. -/
theorem InRange.eliminateEmpty_eq_ok {declarations : Declarations} {body : Stmt}
    (inRange : body.InRange declarations) (diagnostics : Diagnostics) :
    body.eliminateEmpty declarations.fetch options diagnostics =
      .ok (body.eliminated declarations.view options diagnostics) :=
  eliminateEmpty_eq_pure inRange.answered diagnostics

/-- On a tree in range, an elimination comes to nothing but what it comes to under the store's view. -/
theorem InRange.eq_eliminated {declarations : Declarations} {body : Stmt}
    (inRange : body.InRange declarations) {diagnostics : Diagnostics} {result : Elimination}
    (ran : body.eliminateEmpty declarations.fetch options diagnostics = .ok result) :
    result = body.eliminated declarations.view options diagnostics :=
  Except.ok.inj (ran.symm.trans (inRange.eliminateEmpty_eq_ok diagnostics))

/-- On a tree in range, an elimination that is switched on succeeds and does what the pass does. -/
theorem InRange.eliminateEmpty_of_asked {declarations : Declarations} {body : Stmt}
    (inRange : body.InRange declarations) (asked : options.eliminates = true)
    (diagnostics : Diagnostics) :
    body.eliminateEmpty declarations.fetch options diagnostics =
      .ok
        { body := body.pruned declarations.view options
          count := (body.tally declarations.view options).count
          events := (body.tally declarations.view options).events ++
            [.eliminated (body.tally declarations.view options).count]
          diagnostics := diagnostics.pushAll (body.tally declarations.view options).warnings } := by
  rw [inRange.eliminateEmpty_eq_ok, eliminated_of_asked asked]

/-- Elimination leaves a tree in range of the store that the tree was in range of. -/
theorem InRange.eliminated {declarations : Declarations} {body : Stmt}
    (inRange : body.InRange declarations) (diagnostics : Diagnostics) :
    (body.eliminated view options diagnostics).body.InRange declarations := by
  rw [body_eliminated]
  split
  case isTrue => exact fun handle held => inRange handle (handles_pruned_subset body held)
  case isFalse => exact inRange

end Stmt

end Answered

end ShaderTree
