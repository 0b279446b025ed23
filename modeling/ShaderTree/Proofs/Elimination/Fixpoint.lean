import ShaderTree.Proofs.Elimination.Count
import ShaderTree.Proofs.Tree.Written

/-!
# Elimination and its own result

A list is swept from its end, so one sweep of it is enough: what is mentioned only by statements
that go has nothing left to stay for.  The cases of a switch are taken in turn from the first one.  A
declaration of one case can therefore stay for the sake of a statement of a later case that goes
itself when its turn comes, and a second elimination finds the declaration unused.

A tree is settled where this does not happen: each case comes to the same whether it is swept for the
sake of the later cases as they were or of what is left of them.  On settled trees, and on no others,
the first elimination leaves the second nothing to do.  A tree is settled at least where no case
mentions what an earlier case declares and could leave out.
-/

namespace ShaderTree

variable {view : View} {options : EliminationOptions}

/-! ## Sweeping twice -/

theorem Stmt.neededBy_mono {stmt : Stmt} {later earlier : List Stmt}
    (mentions : ∀ name, (later.any fun each => each.usesName view name) = true →
      (earlier.any fun each => each.usesName view name) = true)
    (needed : stmt.neededBy view later = true) : stmt.neededBy view earlier = true := by
  rw [neededBy_eq, List.any_eq_true] at needed ⊢
  obtain ⟨each, within, uses⟩ := needed
  obtain ⟨declarator, declared, uses⟩ := List.any_eq_true.1 uses
  obtain ⟨other, inEarlier, usesToo⟩ :=
    List.any_eq_true.1 (mentions declarator.name (List.any_eq_true.2 ⟨each, within, uses⟩))
  exact ⟨other, inEarlier, List.any_eq_true.2 ⟨declarator, declared, usesToo⟩⟩

/-- The later statements of a sweep matter to it through the names that they mention. -/
theorem swept_swept {outside fewer : List Stmt}
    (mentions : ∀ name, (fewer.any fun each => each.usesName view name) = true →
      (outside.any fun each => each.usesName view name) = true) (stmts : List Stmt) :
    swept view fewer (swept view outside stmts) = swept view fewer stmts := by
  induction stmts with
  | nil => rfl
  | cons first rest ih =>
      rw [swept_cons outside]
      split
      case isTrue elided =>
        rw [Bool.and_eq_true, Bool.not_eq_true'] at elided
        have unneeded : first.neededBy view (swept view fewer rest ++ fewer) = false := by
          rw [Bool.eq_false_iff]
          intro needed
          refine Bool.eq_false_iff.1 elided.2 (Stmt.neededBy_mono (fun name uses => ?_) needed)
          rw [List.any_append, Bool.or_eq_true] at uses ⊢
          refine uses.imp (fun inRest => ?_) (mentions name)
          obtain ⟨each, within, uses⟩ := List.any_eq_true.1 inRest
          rw [← ih] at within
          exact List.any_eq_true.2 ⟨each, (swept_sublist ..).subset within, uses⟩
        rw [ih, swept_cons, elided.1, unneeded]
        rfl
      case isFalse => rw [swept_cons, swept_cons, ih]

/-- One sweep of a list is enough. -/
theorem swept_idem (outside stmts : List Stmt) :
    swept view outside (swept view outside stmts) = swept view outside stmts :=
  swept_swept (fun _ mentioned => mentioned) stmts

/-! ## Settled trees -/

section Settled

variable (view : View) (options : EliminationOptions)

/--
Each case comes to the same whether it is swept for the sake of the later cases as they were or of
what is left of them.
-/
def CasesAgree : List Case → Prop
  | [] => True
  | .mk _ stmts :: rest =>
      swept view (rest.flatMap Case.stmts) (stmts.map (Stmt.pruned view options)) =
          swept view ((prunedCases view options rest).flatMap Case.stmts)
            (stmts.map (Stmt.pruned view options)) ∧
        CasesAgree rest

namespace Stmt

mutual

/-- The cases of each switch of a tree agree.  The starts of loops stay as they are and are exempt. -/
def Settled : Stmt → Prop
  | .simple _ _ => True
  | .block stmts _ => SettledList stmts
  | .doWhile body _ _ | .forLoop _ _ _ body _ | .whileLoop _ body _ => body.Settled
  | .choice _ _ yes (some no) _ => yes.Settled ∧ no.Settled
  | .choice _ _ yes none _ => yes.Settled
  | .switch _ _ cases _ => CasesAgree view options cases ∧ SettledCases cases

/-- Each statement of a list is settled. -/
def SettledList : List Stmt → Prop
  | [] => True
  | first :: rest => first.Settled ∧ SettledList rest

/-- Each statement of each case is settled. -/
def SettledCases : List Case → Prop
  | [] => True
  | .mk _ stmts :: rest => SettledList stmts ∧ SettledCases rest

end

end Stmt

end Settled

namespace Stmt

theorem settledList_iff {stmts : List Stmt} :
    SettledList view options stmts ↔ ∀ stmt ∈ stmts, stmt.Settled view options := by
  induction stmts with
  | nil => exact iff_of_true trivial (List.forall_mem_nil _)
  | cons first rest ih => rw [SettledList, ih, List.forall_mem_cons]

/-- A statement that can be left out has no switch in it. -/
theorem settled_of_idle {stmt : Stmt} (idle : stmt.idle view = true) :
    stmt.Settled view options := by
  induction stmt using Stmt.induction with
  | simple form span => trivial
  | block stmts span ih =>
      rw [idle_block, List.all_eq_true] at idle
      exact settledList_iff.2 fun stmt within => ih stmt within (idle stmt within)
  | _ => cases idle

end Stmt

/-! ## Cases that keep apart -/

/-- No later case mentions what a statement of a case declares that could be left out. -/
def CasesApart (view : View) : List Case → Prop
  | [] => True
  | .mk _ stmts :: rest =>
      (∀ stmt ∈ stmts, stmt.idle view = true →
        stmt.neededBy view (rest.flatMap Case.stmts) = false) ∧ CasesApart view rest

/-- Later statements that need none of those that could go do not matter to a sweep. -/
theorem swept_of_unneeded {outside stmts : List Stmt}
    (unneeded : ∀ stmt ∈ stmts, stmt.idle view = true → stmt.neededBy view outside = false) :
    swept view outside stmts = swept view [] stmts := by
  induction stmts with
  | nil => rfl
  | cons first rest ih =>
      rw [List.forall_mem_cons] at unneeded
      rw [swept_cons, swept_cons, ih unneeded.2, Stmt.neededBy_append, List.append_nil]
      cases idle : first.idle view with
      | false => rfl
      | true => rw [unneeded.1 idle, Bool.or_false]

theorem casesAgree_of_casesApart {cases : List Case} (apart : CasesApart view cases) :
    CasesAgree view options cases := by
  induction cases with
  | nil => trivial
  | cons first rest ih =>
      obtain ⟨label, stmts⟩ := first
      obtain ⟨unneeded, apartRest⟩ := apart
      have before : ∀ stmt ∈ stmts.map (Stmt.pruned view options), stmt.idle view = true →
          stmt.neededBy view (rest.flatMap Case.stmts) = false := by
        intro left within idle
        obtain ⟨stmt, inStmts, rfl⟩ := List.mem_map.1 within
        rw [Stmt.idle_pruned] at idle
        rw [Stmt.neededBy_pruned]
        exact unneeded stmt inStmts idle
      have behind : ∀ stmt ∈ stmts.map (Stmt.pruned view options), stmt.idle view = true →
          stmt.neededBy view ((prunedCases view options rest).flatMap Case.stmts) = false := by
        intro left within idle
        rw [Bool.eq_false_iff]
        intro needed
        have still := Stmt.neededBy_mono (fun _ mentioned => Stmt.usesName_of_prunedCases mentioned)
          needed
        exact Bool.eq_false_iff.1 (before left within idle) still
      constructor
      · rw [swept_of_unneeded before, swept_of_unneeded behind]
      · exact ih apartRest

namespace Stmt

theorem settledCases_iff {cases : List Case} :
    SettledCases view options cases ↔
      ∀ stmt ∈ cases.flatMap Case.stmts, stmt.Settled view options := by
  induction cases with
  | nil => exact iff_of_true trivial (List.forall_mem_nil _)
  | cons first rest ih =>
      obtain ⟨label, stmts⟩ := first
      rw [SettledCases, settledList_iff, ih, List.flatMap_cons, List.forall_mem_append]
      rfl

/-- A tree is settled if in each switch of it the cases keep apart. -/
theorem settled_of_casesApart {stmt : Stmt}
    (apart : ∀ isStatic value cases span, .switch isStatic value cases span ∈ stmt.nodes →
      CasesApart view cases) : stmt.Settled view options := by
  induction stmt using nestedInduction with
  | step stmt ih =>
      have settled : ∀ below ∈ stmt.nested, below.Settled view options := by
        intro below within
        refine ih below within fun isStatic value cases span inNodes => ?_
        exact apart isStatic value cases span (mem_nodes_of_mem_nested within inNodes)
      cases stmt with
      | simple form span => trivial
      | block stmts span => exact settledList_iff.2 settled
      | doWhile body test span => exact settled body (List.mem_singleton_self body)
      | forLoop start test next body span =>
          exact settled body (List.mem_append_right _ (List.mem_singleton_self body))
      | choice isStatic test yes no span =>
          cases no with
          | none => exact settled yes List.mem_cons_self
          | some no =>
              exact ⟨settled yes List.mem_cons_self,
                settled no (List.mem_cons_of_mem _ (List.mem_singleton_self no))⟩
      | switch isStatic value cases span =>
          constructor
          · exact casesAgree_of_casesApart (apart _ _ _ _ (self_mem_nodes _))
          · exact settledCases_iff.2 settled
      | whileLoop test body span => exact settled body (List.mem_singleton_self body)

/-! ## Eliminating twice -/

theorem mem_swept_or_idle {stmts : List Stmt} (outside : List Stmt) {stmt : Stmt}
    (within : stmt ∈ stmts) : stmt ∈ swept view outside stmts ∨ stmt.idle view = true := by
  induction stmts with
  | nil => exact absurd within List.not_mem_nil
  | cons first rest ih =>
      rw [swept_cons]
      split
      case isTrue elided =>
        rw [Bool.and_eq_true] at elided
        rcases List.mem_cons.1 within with rfl | inRest
        · exact .inr elided.1
        · exact ih inRest
      case isFalse =>
        rcases List.mem_cons.1 within with rfl | inRest
        · exact .inl List.mem_cons_self
        · exact (ih inRest).imp_left (List.mem_cons_of_mem _)

/-- A body that is left as it was given was not replaced, and the pass left it as it was given. -/
theorem collapsed_pruned_eq_self_iff {body : Stmt} :
    (body.pruned view options).collapsed view options = body ↔
      (body.pruned view options).collapses view options = false ∧
        body.pruned view options = body := by
  unfold collapsed
  split
  case isTrue gone =>
    constructor
    · intro same
      have kind : body.kind = .nop := same ▸ rfl
      simp [collapses, kind] at gone
    · rintro ⟨stays, -⟩
      rw [stays] at gone
      cases gone
  case isFalse stays =>
    rw [Bool.not_eq_true] at stays
    constructor
    · intro same
      exact ⟨stays, same⟩
    · rintro ⟨-, same⟩
      exact same

theorem map_pruned_eq_self_iff {stmts : List Stmt} :
    stmts.map (pruned view options) = stmts ↔ ∀ stmt ∈ stmts, stmt.pruned view options = stmt := by
  simpa only [List.map_id, id] using
    List.map_inj_left (l := stmts) (f := pruned view options) (g := id)

/-- A swept list is left as it was given where the pass and the sweep both leave it so. -/
theorem swept_map_pruned_eq_self_iff {outside stmts : List Stmt} :
    swept view outside (stmts.map (pruned view options)) = stmts ↔
      (∀ stmt ∈ stmts, stmt.pruned view options = stmt) ∧ swept view outside stmts = stmts := by
  constructor
  · intro same
    have shorter : (swept view outside (stmts.map (pruned view options))).Sublist
        (stmts.map (pruned view options)) :=
      swept_sublist ..
    have given : stmts.map (pruned view options) = stmts := by
      rw [same] at shorter
      exact (shorter.eq_of_length (List.length_map _).symm).symm
    rw [given] at same
    exact ⟨map_pruned_eq_self_iff.1 given, same⟩
  · rintro ⟨each, same⟩
    rw [map_pruned_eq_self_iff.2 each, same]

/-- What the pass leaves of a body is left again where what it leaves of the statement is. -/
theorem collapsed_pruned_collapsed_iff {body : Stmt}
    (twice : (body.pruned view options).pruned view options = body.pruned view options ↔
      body.Settled view options) :
    (((body.pruned view options).collapsed view options).pruned view options).collapsed view
          options =
        (body.pruned view options).collapsed view options ↔
      body.Settled view options := by
  by_cases gone : (body.pruned view options).collapses view options = true
  · have replaced : (body.pruned view options).collapsed view options =
        .nop (body.pruned view options).span := if_pos gone
    have idle : body.idle view = true := by
      rw [collapses, Bool.and_eq_true, idle_pruned] at gone
      exact gone.2
    rw [replaced]
    exact iff_of_true (if_neg (by simp [collapses, nop, kind, Simple.kind])) (settled_of_idle idle)
  · have stays : (body.pruned view options).collapsed view options = body.pruned view options :=
      if_neg gone
    rw [stays, collapsed_pruned_eq_self_iff, ← twice]
    refine and_iff_right_of_imp fun same => ?_
    rw [same, Bool.eq_false_iff]
    exact gone

/-- What the pass leaves of an `else` branch is left again where the branch is settled. -/
theorem kept?_pruned_bind_iff {branch : Stmt}
    (twice : (branch.pruned view options).pruned view options = branch.pruned view options ↔
      branch.Settled view options) :
    (((branch.pruned view options).kept? view).bind fun left =>
          (left.pruned view options).kept? view) =
        (branch.pruned view options).kept? view ↔
      branch.Settled view options := by
  by_cases idle : branch.idle view = true
  · have gone : (branch.pruned view options).kept? view = none :=
      if_pos ((idle_pruned branch).trans idle)
    rw [gone]
    exact iff_of_true rfl (settled_of_idle idle)
  · have stays : (branch.pruned view options).kept? view = some (branch.pruned view options) :=
      if_neg (by rwa [idle_pruned])
    rw [stays, Option.bind_some, kept?_eq_some_iff, ← twice, idle_pruned, idle_pruned]
    exact and_iff_right (Bool.eq_false_iff.2 idle)

/-- What the pass leaves of a swept list is left again where each of its statements is settled. -/
theorem pruned_swept_iff {outside stmts : List Stmt}
    (twice : ∀ stmt ∈ stmts,
      ((stmt.pruned view options).pruned view options = stmt.pruned view options ↔
        stmt.Settled view options)) :
    (∀ left ∈ swept view outside (stmts.map (pruned view options)),
        left.pruned view options = left) ↔
      SettledList view options stmts := by
  rw [settledList_iff]
  constructor
  · intro same stmt within
    rcases mem_swept_or_idle outside (List.mem_map_of_mem within) with left | idle
    · exact (twice stmt within).1 (same _ left)
    · rw [idle_pruned] at idle
      exact settled_of_idle idle
  · intro settled left within
    obtain ⟨stmt, inStmts, rfl⟩ := List.mem_map.1 ((swept_sublist ..).subset within)
    exact (twice stmt inStmts).2 (settled stmt inStmts)

theorem prunedCases_prunedCases_iff {cases : List Case}
    (twice : ∀ each ∈ cases, ∀ stmt ∈ each.stmts,
      ((stmt.pruned view options).pruned view options = stmt.pruned view options ↔
        stmt.Settled view options)) :
    prunedCases view options (prunedCases view options cases) = prunedCases view options cases ↔
      CasesAgree view options cases ∧ SettledCases view options cases := by
  induction cases with
  | nil => exact iff_of_true rfl ⟨trivial, trivial⟩
  | cons first rest ih =>
      obtain ⟨label, stmts⟩ := first
      obtain ⟨inFirst, inRest⟩ := List.forall_mem_cons.1 twice
      have ofFirst : (∀ left ∈ swept view (rest.flatMap Case.stmts)
            (stmts.map (pruned view options)), left.pruned view options = left) ↔
          SettledList view options stmts :=
        pruned_swept_iff inFirst
      have again : swept view ((prunedCases view options rest).flatMap Case.stmts)
            (swept view (rest.flatMap Case.stmts) (stmts.map (pruned view options))) =
          swept view ((prunedCases view options rest).flatMap Case.stmts)
            (stmts.map (pruned view options)) :=
        swept_swept (fun _ mentioned => usesName_of_prunedCases mentioned) _
      rw [prunedCases_cons, prunedCases_cons, List.cons.injEq, Case.mk.injEq, CasesAgree,
        SettledCases, ih inRest, swept_map_pruned_eq_self_iff, ofFirst, again]
      constructor
      · rintro ⟨⟨-, settled, same⟩, agree, settledRest⟩
        exact ⟨⟨same.symm, agree⟩, settled, settledRest⟩
      · rintro ⟨⟨same, agree⟩, settled, settledRest⟩
        exact ⟨⟨rfl, settled, same.symm⟩, agree, settledRest⟩

/-- What the pass leaves of a tree is left again if and only if the tree is settled. -/
theorem pruned_pruned_iff (stmt : Stmt) :
    (stmt.pruned view options).pruned view options = stmt.pruned view options ↔
      stmt.Settled view options := by
  induction stmt using Stmt.induction with
  | simple form span => exact iff_of_true rfl trivial
  | block stmts span ih =>
      rw [pruned_block, pruned_block, Stmt.block.injEq, swept_map_pruned_eq_self_iff,
        pruned_swept_iff ih, Settled]
      constructor
      · rintro ⟨⟨settled, -⟩, -⟩
        exact settled
      · intro settled
        exact ⟨⟨settled, swept_idem ..⟩, rfl⟩
  | doWhile body test span ih =>
      rw [pruned_doWhile, pruned_doWhile, Settled, ← collapsed_pruned_collapsed_iff ih]
      simp
  | forLoop start test next body span ihStart ihBody =>
      rw [pruned_forLoop, pruned_forLoop, Settled, ← collapsed_pruned_collapsed_iff ihBody]
      simp
  | choice isStatic test yes no span ihYes ihNo =>
      rw [pruned_choice, pruned_choice]
      cases no with
      | none =>
          rw [Settled, ← collapsed_pruned_collapsed_iff ihYes]
          simp
      | some branch =>
          rw [Settled, ← collapsed_pruned_collapsed_iff ihYes,
            ← kept?_pruned_bind_iff (ihNo branch rfl)]
          simp
  | switch isStatic value cases span ih =>
      rw [pruned_switch, pruned_switch, Settled, ← prunedCases_prunedCases_iff ih]
      simp
  | whileLoop test body span ih =>
      rw [pruned_whileLoop, pruned_whileLoop, Settled, ← collapsed_pruned_collapsed_iff ih]
      simp

/-- Where the pass leaves a tree as it was given, nothing was counted. -/
theorem count_pruning {stmt : Stmt} (same : stmt.pruned view options = stmt) :
    (stmt.pruning view options).2.count = 0 := by
  have count := count_tally view options stmt
  rw [same, tally] at count
  omega

/--
On a tree in range an elimination and a second one of its result succeed, and the second one changes
nothing if and only if the elimination is switched off or the tree is settled.
-/
theorem eliminateEmpty_twice_iff_settled {declarations : Declarations} {body : Stmt}
    (inRange : body.InRange declarations) (options : EliminationOptions)
    (diagnostics : Diagnostics) :
    ∃ first second,
      body.eliminateEmpty declarations.fetch options diagnostics = .ok first ∧
        first.body.eliminateEmpty declarations.fetch options first.diagnostics = .ok second ∧
        ((second.count = 0 ∧ second.body = first.body) ↔
          (options.eliminates = true → body.Settled declarations.view options)) := by
  refine ⟨_, _, inRange.eliminateEmpty_eq_ok diagnostics,
    (inRange.eliminated diagnostics).eliminateEmpty_eq_ok _, ?_⟩
  rw [count_eliminated, body_eliminated, body_eliminated]
  cases asked : options.eliminates with
  | false => exact iff_of_true ⟨rfl, rfl⟩ nofun
  | true =>
      rw [if_pos rfl, if_pos rfl, if_pos rfl, pruned_pruned_iff]
      constructor
      · rintro ⟨-, settled⟩ -
        exact settled
      · intro settled
        exact ⟨count_pruning ((pruned_pruned_iff body).2 (settled rfl)), settled rfl⟩

/--
A block with `int n; int values[n];` is cleared at once, and there is nothing left to do, so the block was
settled.
-/
theorem eliminateEmpty_twice_iff_settled_of_block :
    let declarations : Declarations := .ofList
      [.ofDeclarators [.sized "n" []], .ofDeclarators [.sized "values" [.var "n"]]]
    let body : Stmt := .ofList [.declares 0, .declares 1]
    body.InRange declarations ∧ body.Settled declarations.view {} ∧
      ∃ first second,
        body.eliminateEmpty declarations.fetch {} {} = .ok first ∧
          first.body.eliminateEmpty declarations.fetch {} first.diagnostics = .ok second ∧
          first.count = 2 ∧
          first.body = .ofList [] ∧
          second.count = 0 ∧
          second.body = .ofList [] := by
  intro declarations body
  have inRange : body.InRange declarations := by decide
  obtain ⟨first, second, ran, again, settled⟩ := eliminateEmpty_twice_iff_settled inRange {} {}
  obtain rfl := inRange.eq_eliminated ran
  have nothing : second.count = 0 ∧ second.body = .ofList [] := by
    obtain rfl := (inRange.eliminated {}).eq_eliminated again
    exact ⟨rfl, rfl⟩
  exact ⟨inRange, settled.1 nothing rfl, _, second, ran, again, rfl, rfl, nothing⟩

/--
With `int x;` in one case and `int y[x];` in the next, only `y` goes at first, and `x` goes with the
second elimination.
-/
theorem eliminateEmpty_twice_across_cases :
    let declarations : Declarations := .ofList
      [.ofDeclarators [.sized "x" []], .ofDeclarators [.sized "y" [.var "x"]]]
    let body : Stmt := .switch false (.literal (.int 0) .nowhere)
      [.mk (some (.literal (.int 1) .nowhere)) [.declares 0], .mk none [.declares 1]] .nowhere
    body.InRange declarations ∧
      ∃ first second,
        body.eliminateEmpty declarations.fetch {} {} = .ok first ∧
          first.body.eliminateEmpty declarations.fetch {} first.diagnostics = .ok second ∧
          first.count = 1 ∧
          second.count = 1 ∧
          second.body ≠ first.body := by
  intro declarations body
  have inRange : body.InRange declarations := by decide
  refine ⟨inRange, _, _, inRange.eliminateEmpty_eq_ok {},
    (inRange.eliminated {}).eliminateEmpty_eq_ok _, ?_, ?_, ?_⟩
  · rfl
  · rfl
  · intro same
    have handles := congrArg handles same
    exact absurd handles (by decide)

end Stmt

end ShaderTree
