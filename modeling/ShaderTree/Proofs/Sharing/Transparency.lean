import ShaderTree.Proofs.Elimination.Survivors
import ShaderTree.Proofs.Sharing.Separation

/-!
# Sharing is not observed

An elimination decides about a statement by what its declaration is, and never by which handle it is
known under.  So the pass commutes with a change of handles: it leaves of the relabelled tree what
it leaves of the tree under the look-up behind the change, relabelled, and does the same on the way.

Unsharing is such a change.  Whether the holders of a declaration are separated before an
elimination, after it or not at all, the tree is written alike in the end, and the elimination
counts, tells and warns of the same.
-/

namespace ShaderTree

variable {view : View} {options : EliminationOptions} {change : Handle → Handle}

namespace Stmt

/-! ## Decisions -/

@[simp] theorem declared_relabeled (stmt : Stmt) :
    (stmt.relabeled change).declared view = stmt.declared (view ∘ change) := by
  rw [declared_eq, declared_eq, handle?_relabeled]
  cases stmt.handle? <;> rfl

theorem neededBy_relabeled (stmt : Stmt) (later : List Stmt) :
    (stmt.relabeled change).neededBy view (later.map (relabeled change)) =
      stmt.neededBy (view ∘ change) later := by
  simp [neededBy_eq, List.any_map, Function.comp_def]

theorem elided_relabeled (reason : Reason) (stmt : Stmt) :
    (stmt.relabeled change).elided view reason = stmt.elided (view ∘ change) reason := by
  have told (view : View) (stmt : Stmt) : stmt.elided view reason =
      ⟨1, [.eliding reason stmt.span.offset (stmt.textUnder view)],
        (stmt.declared view).map fun declarator =>
          .unusedVariable declarator.name declarator.span⟩ := rfl
  rw [told, told, span_relabeled, textUnder_relabeled, declared_relabeled]

theorem collapses_relabeled (body : Stmt) :
    (body.relabeled change).collapses view options = body.collapses (view ∘ change) options := by
  rw [collapses, collapses, kind_relabeled, idle_relabeled]

theorem collapsed_relabeled (body : Stmt) :
    (body.relabeled change).collapsed view options =
      (body.collapsed (view ∘ change) options).relabeled change := by
  rw [collapsed, collapsed, collapses_relabeled, span_relabeled]
  split
  · exact (relabeled_simple .nop body.span).symm
  · rfl

theorem kept?_relabeled (branch : Stmt) :
    (branch.relabeled change).kept? view =
      (branch.kept? (view ∘ change)).map (relabeled change) := by
  rw [kept?, kept?, idle_relabeled]
  split <;> rfl

end Stmt

/-! ## The pass -/

open Stmt Unsharing

theorem sweeping_relabeled (outside stmts : List Stmt) :
    sweeping view (outside.map (relabeled change)) (stmts.map (relabeled change)) =
      ((swept (view ∘ change) outside stmts).map (relabeled change),
        (sweeping (view ∘ change) outside stmts).2) := by
  induction stmts with
  | nil => rfl
  | cons first rest ih =>
      rw [List.map_cons, sweeping_cons, sweeping_cons, swept_cons]
      -- The decision about the first statement rests on what is left behind it.
      have kept : swept view (outside.map (relabeled change)) (rest.map (relabeled change)) =
          (swept (view ∘ change) outside rest).map (relabeled change) :=
        congrArg Prod.fst ih
      rw [kept, ih, ← List.map_append, idle_relabeled, neededBy_relabeled, elided_relabeled]
      split <;> rfl

section Commutes

variable (view options change)

/-- The pass commutes with a change of handles, and does the same on the way. -/
structure Commutes (stmt : Stmt) : Prop where
  pruned : (stmt.relabeled change).pruned view options =
    (stmt.pruned (view ∘ change) options).relabeled change
  tally : (stmt.relabeled change).tally view options = stmt.tally (view ∘ change) options

end Commutes

namespace Commutes

theorem map_pruned {stmts : List Stmt} (each : ∀ stmt ∈ stmts, Commutes view options change stmt) :
    (stmts.map (relabeled change)).map (Stmt.pruned view options) =
      (stmts.map (Stmt.pruned (view ∘ change) options)).map (relabeled change) := by
  rw [List.map_map, List.map_map]
  exact List.map_congr_left fun stmt within => (each stmt within).pruned

theorem tallyOfEach_map {stmts : List Stmt}
    (each : ∀ stmt ∈ stmts, Commutes view options change stmt) :
    tallyOfEach view options (stmts.map (relabeled change)) =
      tallyOfEach (view ∘ change) options stmts := by
  induction stmts with
  | nil => rfl
  | cons first rest ih =>
      rw [List.forall_mem_cons] at each
      rw [List.map_cons, tallyOfEach_cons, tallyOfEach_cons, each.1.tally, ih each.2]

/-- For a list that is swept after the pass has been applied to its statements. -/
theorem sweeping_map (outside : List Stmt) {stmts : List Stmt}
    (each : ∀ stmt ∈ stmts, Commutes view options change stmt) :
    sweeping view (outside.map (relabeled change))
        ((stmts.map (relabeled change)).map (Stmt.pruned view options)) =
      ((swept (view ∘ change) outside
            (stmts.map (Stmt.pruned (view ∘ change) options))).map (relabeled change),
        (sweeping (view ∘ change) outside
          (stmts.map (Stmt.pruned (view ∘ change) options))).2) := by
  rw [map_pruned each, sweeping_relabeled]

theorem cases_map {cases : List Case}
    (each : ∀ each ∈ cases, ∀ stmt ∈ each.stmts, Commutes view options change stmt) :
    prunedCases view options (cases.map (Case.relabeled change)) =
        (prunedCases (view ∘ change) options cases).map (Case.relabeled change) ∧
      tallyOfCases view options (cases.map (Case.relabeled change)) =
        tallyOfCases (view ∘ change) options cases := by
  induction cases with
  | nil => exact ⟨rfl, rfl⟩
  | cons first rest ih =>
      obtain ⟨label, stmts⟩ := first
      obtain ⟨inFirst, inRest⟩ := List.forall_mem_cons.1 each
      obtain ⟨left, told⟩ := ih inRest
      have sweep := sweeping_map (rest.flatMap Case.stmts) inFirst
      have ofFirst : Case.relabeled change (.mk label stmts) =
          .mk label (stmts.map (relabeled change)) := rfl
      constructor
      · rw [List.map_cons, ofFirst, prunedCases_cons, prunedCases_cons, List.map_cons, left,
          stmts_relabeled]
        exact congrArg (fun sweep => Case.mk label sweep.1 :: _) sweep
      · have toldFirst : tallyOfEach view options (stmts.map (relabeled change)) =
            tallyOfEach (view ∘ change) options stmts :=
          tallyOfEach_map inFirst
        rw [List.map_cons, ofFirst, tallyOfCases_cons, tallyOfCases_cons, told, toldFirst,
          stmts_relabeled]
        exact congrArg (fun sweep => (_ ++ sweep.2) ++ _) sweep

theorem body {body : Stmt} (commutes : Commutes view options change body) :
    ((body.relabeled change).pruned view options).collapsed view options =
        ((body.pruned (view ∘ change) options).collapsed (view ∘ change) options).relabeled
          change ∧
      (body.relabeled change).tallyAsBody view options =
        body.tallyAsBody (view ∘ change) options := by
  rw [tallyAsBody_eq, tallyAsBody_eq, commutes.pruned, commutes.tally, collapsed_relabeled,
    collapses_relabeled, elided_relabeled]
  exact ⟨rfl, rfl⟩

theorem branch {branch : Stmt} (commutes : Commutes view options change branch) :
    ((branch.relabeled change).pruned view options).kept? view =
        ((branch.pruned (view ∘ change) options).kept? (view ∘ change)).map (relabeled change) ∧
      (branch.relabeled change).tallyAsBranch view options =
        branch.tallyAsBranch (view ∘ change) options := by
  rw [tallyAsBranch_eq, tallyAsBranch_eq, commutes.pruned, commutes.tally, kept?_relabeled,
    idle_relabeled, elided_relabeled]
  exact ⟨rfl, rfl⟩

end Commutes

variable (view options change) in
/-- The pass commutes with every change of handles. -/
theorem Stmt.commutes (stmt : Stmt) : Commutes view options change stmt := by
  induction stmt using Stmt.induction with
  | simple form span =>
      constructor
      · rw [relabeled_simple, pruned_simple, pruned_simple, relabeled_simple]
      · rw [relabeled_simple, tally_simple, tally_simple]
        cases form <;> rfl
  | block stmts span ih =>
      have sweep := Commutes.sweeping_map [] ih
      constructor
      · rw [relabeled_block, pruned_block, pruned_block, relabeled_block]
        exact congrArg (fun sweep => Stmt.block sweep.1 span) sweep
      · rw [relabeled_block, tally_block, tally_block, Commutes.tallyOfEach_map ih]
        exact congrArg (fun sweep => _ ++ sweep.2) sweep
  | doWhile body test span ih =>
      obtain ⟨left, told⟩ := ih.body
      constructor
      · rw [relabeled_doWhile, pruned_doWhile, pruned_doWhile, relabeled_doWhile, left]
      · exact told
  | forLoop start test next body span ihStart ihBody =>
      obtain ⟨left, told⟩ := ihBody.body
      constructor
      · rw [relabeled_forLoop, pruned_forLoop, pruned_forLoop, relabeled_forLoop, left]
      · rw [relabeled_forLoop, tally_forLoop, tally_forLoop, told]
  | choice isStatic test yes no span ihYes ihNo =>
      obtain ⟨left, told⟩ := ihYes.body
      cases no with
      | none =>
          constructor
          · rw [relabeled_choice, pruned_choice, pruned_choice, relabeled_choice, left]
            rfl
          · rw [relabeled_choice, Option.map_none, tally_choice_none, tally_choice_none, told]
      | some branch =>
          obtain ⟨leftBranch, toldBranch⟩ := (ihNo branch rfl).branch
          constructor
          · rw [relabeled_choice, pruned_choice, pruned_choice, relabeled_choice, left,
              Option.map_some, Option.bind_some, Option.bind_some, leftBranch]
          · rw [relabeled_choice, Option.map_some, tally_choice_some, tally_choice_some, told,
              toldBranch]
  | switch isStatic value cases span ih =>
      obtain ⟨left, told⟩ := Commutes.cases_map ih
      constructor
      · rw [relabeled_switch, pruned_switch, pruned_switch, relabeled_switch, left]
      · rw [relabeled_switch, tally_switch, tally_switch, told]
  | whileLoop test body span ih =>
      obtain ⟨left, told⟩ := ih.body
      constructor
      · rw [relabeled_whileLoop, pruned_whileLoop, pruned_whileLoop, relabeled_whileLoop, left]
      · exact told

namespace Stmt

/-! ## Eliminations -/

/-- An elimination commutes with every change of handles. -/
theorem eliminated_relabeled (diagnostics : Diagnostics) (body : Stmt) :
    (body.relabeled change).eliminated view options diagnostics =
      { body.eliminated (view ∘ change) options diagnostics with
        body := (body.eliminated (view ∘ change) options diagnostics).body.relabeled change } := by
  obtain ⟨left, told⟩ := body.commutes view options change
  cases asked : options.eliminates with
  | false => simp [eliminated, eliminateEmpty, asked]
  | true => rw [eliminated_of_asked asked, eliminated_of_asked asked, left, told]

theorem holders_eliminated_le (diagnostics : Diagnostics) (body : Stmt) (target : Handle) :
    (body.eliminated view options diagnostics).body.holders target ≤ body.holders target := by
  rw [body_eliminated, holders_eq_count, holders_eq_count]
  split
  case isTrue => exact (handles_pruned_sublist body).count_le target
  case isFalse => exact Nat.le_refl _

theorem Answered.eliminated {m : Type → Type} [Monad m] {look : Lookup m} {body : Stmt}
    (answered : body.Answered look view) (diagnostics : Diagnostics) :
    (body.eliminated view options diagnostics).body.Answered look view := by
  rw [body_eliminated]
  split
  case isTrue => exact answered.pruned
  case isFalse => exact answered

section Separated

variable {declarations : Declarations} {target : Handle} {given : Stmt}
  (found : target.slot < declarations.size) (inRange : given.InRange declarations)
  (room : declarations.size + (given.holders target - 1) ≤ declarationKeys.capacity)

include found inRange room

/-- An elimination does with a separated tree what it does with the tree that was given. -/
theorem Separated.eliminateEmpty_left {left : Stmt}
    (separates : Separated declarations target given left) (options : EliminationOptions)
    (diagnostics : Diagnostics) :
    ∃ result,
      left.eliminateEmpty (given.copiesFor declarations target).fetch options diagnostics =
          .ok result ∧
        given.eliminated declarations.view options diagnostics =
          { result with body := result.body.relabeled (origin declarations target) } ∧
        result.body.text (given.copiesFor declarations target).fetch =
          .ok ((given.eliminated declarations.view options diagnostics).body.textUnder
            declarations.view) := by
  have answered := separates.answered found inRange room
  have same : given.eliminated declarations.view options diagnostics =
      { left.eliminated (declarations.view ∘ origin declarations target) options diagnostics with
        body := (left.eliminated (declarations.view ∘ origin declarations target) options
          diagnostics).body.relabeled (origin declarations target) } := by
    rw [← separates.shape, eliminated_relabeled]
  refine ⟨_, eliminateEmpty_eq_pure answered diagnostics, same, ?_⟩
  rw [same, textUnder_relabeled]
  exact text_eq_pure (answered.eliminated diagnostics)

/-- Unsharing leaves a tree that is written as before. -/
theorem InRange.text_unshare :
    ∃ left state,
      given.unshare declarations target = .ok (left, state) ∧
        left.text state.declarations.fetch = .ok (given.textUnder declarations.view) := by
  obtain ⟨left, ran, separates⟩ := inRange.unshare_eq_ok found room
  refine ⟨left, _, ran, ?_⟩
  rw [declarations_after]
  exact separates.text_left found inRange room

end Separated

/--
Sharing is not observed by elimination.  On a tree in range, with room for the copies, an
elimination after unsharing does what an elimination without it does: the tree is written alike, as
many statements are counted, and the same events and diagnostics come of it.  Unsharing after the
elimination leaves a tree that is written alike too.
-/
theorem eliminateEmpty_ignores_sharing {declarations : Declarations} {body : Stmt}
    {target : Handle} (inRange : body.InRange declarations)
    (found : target.slot < declarations.size)
    (room : declarations.size + (body.holders target - 1) ≤ declarationKeys.capacity)
    (options : EliminationOptions) (diagnostics : Diagnostics) :
    ∃ plain text,
      body.eliminateEmpty declarations.fetch options diagnostics = .ok plain ∧
        plain.body.text declarations.fetch = .ok text ∧
        (∃ left state result,
          body.unshare declarations target = .ok (left, state) ∧
            left.eliminateEmpty state.declarations.fetch options diagnostics = .ok result ∧
            result.body.text state.declarations.fetch = .ok text ∧
            result.count = plain.count ∧
            result.events = plain.events ∧
            result.diagnostics = plain.diagnostics) ∧
        ∃ left state,
          plain.body.unshare declarations target = .ok (left, state) ∧
            left.text state.declarations.fetch = .ok text := by
  have inRangePlain : (body.eliminated declarations.view options diagnostics).body.InRange
      declarations :=
    inRange.eliminated diagnostics
  refine ⟨_, _, inRange.eliminateEmpty_eq_ok diagnostics, text_eq_pure inRangePlain.answered,
    ?_, ?_⟩
  · obtain ⟨left, ran, separates⟩ := inRange.unshare_eq_ok found room
    obtain ⟨result, eliminates, same, text⟩ :=
      separates.eliminateEmpty_left found inRange room options diagnostics
    refine ⟨left, _, result, ran, ?_⟩
    rw [declarations_after]
    refine ⟨eliminates, text, ?_⟩
    rw [same]
    exact ⟨rfl, rfl, rfl⟩
  · have fewer : (body.eliminated declarations.view options diagnostics).body.holders target ≤
        body.holders target :=
      holders_eliminated_le diagnostics body target
    exact inRangePlain.text_unshare found (by omega)

/--
In `{ int x; { int x; } return x; }` with one declaration, the inner block goes with what is in it, before
or after the second holder is given a copy.
-/
theorem eliminateEmpty_ignores_sharing_of_block :
    let declarations : Declarations := .ofList [.ofDeclarators [.sized "x" []]]
    let body : Stmt := .ofList [.declares 0, .ofList [.declares 0], .returns (.var "x")]
    let target : Handle := Handle.ofSlot 0
    body.InRange declarations ∧
      target.slot < declarations.size ∧
      declarations.size + (body.holders target - 1) ≤ declarationKeys.capacity ∧
      ∃ left state result,
        body.unshare declarations target = .ok (left, state) ∧
          left.handles = [.ofSlot 0, .ofSlot 1] ∧
          left.eliminateEmpty state.declarations.fetch {} {} = .ok result ∧
          result.body.text state.declarations.fetch = .ok "\x7b\nint x;\nreturn x;\n\x7d" ∧
          result.count = 2 := by
  intro declarations body target
  have inRange : body.InRange declarations := by decide
  have found : target.slot < declarations.size := by decide
  have room : declarations.size + (body.holders target - 1) ≤ declarationKeys.capacity := by
    decide
  obtain ⟨plain, text, ran, told, ⟨left, state, result, unshared, eliminated, same, count, -⟩, -⟩ :=
    eliminateEmpty_ignores_sharing inRange found room {} {}
  obtain rfl := inRange.eq_eliminated ran
  obtain rfl := Except.ok.inj (told.symm.trans rfl)
  have handles : left.handles = [.ofSlot 0, .ofSlot 1] := by
    obtain ⟨rfl, -⟩ := Prod.mk.inj (Except.ok.inj (unshared.symm.trans rfl))
    rfl
  exact ⟨inRange, found, room, left, state, result, unshared, handles, eliminated, same, count⟩

end Stmt

end ShaderTree
