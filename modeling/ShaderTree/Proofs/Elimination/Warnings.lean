import Mathlib.Data.Multiset.Bind
import ShaderTree.Proofs.Elimination.Conservation
import ShaderTree.Proofs.Expr.Effects
import ShaderTree.Proofs.Tree.Written

/-!
# The warnings of an elimination

A declaration leaves a tree from a list, from the place of a body or of an `else` branch, or inside
a block that goes later.  In each of these cases its variables are reported as unused, and no
variable is reported while its declaration stays.  Besides, the author is warned of each statement
that evaluates an expression without effect, unless the statement stands in the start of a loop.

These are all warnings.  Where diagnostics are printed as they come, the elimination collects
nothing and does the same otherwise.
-/

namespace ShaderTree

variable {view : View} {options : EliminationOptions}

/-! ## What there is to warn of -/

/-- For each variable of a declaration, the warning that the variable is unused. -/
def unusedVariables (view : View) (handle : Handle) : List Diagnostic :=
  (view handle).declarators.map fun declarator => .unusedVariable declarator.name declarator.span

namespace Stmt

/-- The declaration that a statement holds itself, with the place of the statement. -/
def holding? (stmt : Stmt) : Option (Handle × Span) :=
  stmt.handle?.map fun handle => (handle, stmt.span)

/-- The declarations that the statements of a tree hold, each with the place of its statement. -/
def holdings (stmt : Stmt) : List (Handle × Span) :=
  stmt.nodes.filterMap holding?

/-- The place of a statement that evaluates an expression in which nothing changes the state. -/
def effectless? : Stmt → Option Span
  | .simple (.evaluate expr) span => if expr.parts.any Expr.isEffect then none else some span
  | _ => none

/-- The places of the statements without effect that do not stand in the start of a loop. -/
def effectless (stmt : Stmt) : List Span :=
  stmt.visited.filterMap effectless?

@[simp] theorem holding?_pruned (stmt : Stmt) :
    (stmt.pruned view options).holding? = stmt.holding? := by
  rw [holding?, holding?, handle?_pruned, span_pruned]

/-- The pass leaves a tree no declaration that it did not hold at the same place. -/
theorem holdings_pruned_sublist (stmt : Stmt) :
    (stmt.pruned view options).holdings.Sublist stmt.holdings :=
  filterMap_nodes_pruned_sublist holding?_pruned (fun _ => rfl) stmt

theorem warnings_elided (reason : Reason) (stmt : Stmt) :
    (stmt.elided view reason).warnings =
      stmt.holding?.toList.flatMap fun holding => unusedVariables view holding.1 := by
  have declared : (stmt.elided view reason).warnings = (stmt.declared view).map fun declarator =>
      .unusedVariable declarator.name declarator.span := rfl
  rw [declared, declared_eq, holding?]
  cases stmt.handle? with
  | none => rfl
  | some handle => exact (List.append_nil _).symm

theorem warnings_remark (stmt : Stmt) :
    stmt.remark.warnings = stmt.effectless?.toList.map .withoutEffect := by
  cases stmt with
  | simple form span =>
      cases form with
      | evaluate expr =>
          rw [remark, Tally.ofSimple, effectless?, ← Expr.hasEffect_eq_any_parts]
          split <;> rfl
      | _ => rfl
  | _ => rfl

end Stmt

/-! ## What is warned of -/

/-- A statement is worth the warnings that go with its declaration, and a tally its warnings. -/
def Measure.warnings (diagnostic : Diagnostic) : Measure view options where
  own stmt :=
    (stmt.holding?.toList.flatMap fun holding => unusedVariables view holding.1).count diagnostic
  told tally := tally.warnings.count diagnostic
  told_nothing := rfl
  told_append _ _ := List.count_append
  told_elided reason stmt _ _ := by rw [Stmt.warnings_elided]
  own_pruned stmt := by rw [Stmt.holding?_pruned]
  own_nop _ := rfl

namespace Measure

theorem ofTree_warnings (diagnostic : Diagnostic) (stmt : Stmt) :
    (warnings diagnostic : Measure view options).ofTree stmt =
      (stmt.holdings.flatMap fun holding => unusedVariables view holding.1).count diagnostic := by
  rw [Stmt.holdings, List.filterMap_eq_flatMap_toList, List.flatMap_assoc, List.count_flatMap]
  rfl

theorem remarked_warnings (diagnostic : Diagnostic) (stmt : Stmt) :
    (warnings diagnostic : Measure view options).remarked stmt =
      (stmt.effectless.map .withoutEffect).count diagnostic := by
  have told (node : Stmt) :
      (warnings diagnostic : Measure view options).told node.remark =
        (node.effectless?.toList.map .withoutEffect).count diagnostic :=
    congrArg (List.count diagnostic) node.warnings_remark
  rw [remarked, Stmt.effectless, List.filterMap_eq_flatMap_toList, List.map_flatMap,
    List.count_flatMap]
  exact congrArg List.sum (List.map_congr_left fun node _ => told node)

end Measure

namespace Stmt

variable (view options) in
/-- The warnings of a tally, and what there is left to warn of. -/
theorem warnings_tally_add (stmt : Stmt) :
    ((stmt.tally view options).warnings : Multiset Diagnostic) +
        ((stmt.pruned view options).holdings.flatMap fun holding =>
          unusedVariables view holding.1 : List Diagnostic) =
      (stmt.holdings.flatMap fun holding => unusedVariables view holding.1 : List Diagnostic) +
        (stmt.effectless.map Diagnostic.withoutEffect : Multiset Diagnostic) := by
  ext diagnostic
  have law := (Measure.warnings diagnostic : Measure view options).conserves stmt
  have filler : (Measure.warnings diagnostic : Measure view options).filler = 0 := rfl
  rw [Measure.Conserves, filler, Measure.ofTree_warnings, Measure.ofTree_warnings,
    Measure.remarked_warnings, Nat.zero_mul, Nat.zero_mul, Nat.add_zero, Nat.add_zero] at law
  simp only [Multiset.count_add, Multiset.coe_count]
  exact law

/--
The warnings of a tally are those of the declarations that the tree does not hold any more, and
those of the statements without effect.
-/
theorem warnings_tally (stmt : Stmt) :
    ((stmt.tally view options).warnings : Multiset Diagnostic) =
      ((stmt.holdings : Multiset (Handle × Span)) - (stmt.pruned view options).holdings).bind
          (fun holding => (unusedVariables view holding.1 : Multiset Diagnostic)) +
        (stmt.effectless.map Diagnostic.withoutEffect : Multiset Diagnostic) := by
  have fewer : ((stmt.pruned view options).holdings : Multiset (Handle × Span)) ≤ stmt.holdings :=
    Multiset.coe_le.2 (holdings_pruned_sublist stmt).subperm
  have divided := congrArg
    (Multiset.bind · fun holding => (unusedVariables view holding.1 : Multiset Diagnostic))
    (tsub_add_cancel_of_le fewer)
  rw [Multiset.add_bind, Multiset.coe_bind, Multiset.coe_bind] at divided
  have law := warnings_tally_add view options stmt
  -- What there is left to warn of stands on both sides.
  rw [← divided, add_right_comm] at law
  exact add_right_cancel law

end Stmt

/-! ## What is collected -/

theorem Diagnostics.pushAll_of_collects {diagnostics : Diagnostics}
    (collects : diagnostics.printsAtOnce = false) (more : List Diagnostic) :
    diagnostics.pushAll more =
      { diagnostics with collected := diagnostics.collected ++ more } := by
  induction more generalizing diagnostics with
  | nil => simp [pushAll]
  | cons first rest ih =>
      have pushed : diagnostics.push first =
          { diagnostics with collected := diagnostics.collected ++ [first] } :=
        if_neg (by rw [collects]; exact nofun)
      have same : diagnostics.pushAll (first :: rest) = (diagnostics.push first).pushAll rest := rfl
      have still : (diagnostics.push first).printsAtOnce = false := by
        rw [pushed]
        exact collects
      rw [same, ih still, pushed, List.append_assoc]
      rfl

theorem Diagnostics.pushAll_of_prints {diagnostics : Diagnostics}
    (prints : diagnostics.printsAtOnce = true) (more : List Diagnostic) :
    diagnostics.pushAll more = diagnostics := by
  induction more with
  | nil => rfl
  | cons first rest ih =>
      have pushed : diagnostics.push first = diagnostics := if_pos prints
      rw [pushAll, List.foldl_cons, pushed]
      exact ih

namespace Stmt

/--
Where diagnostics are collected, an elimination adds the warnings of the variables whose
declarations left the tree and those of the statements without effect, and none else; where they are
printed it adds none and does the same otherwise.
-/
theorem eliminateEmpty_warns_exactly {declarations : Declarations} {body : Stmt}
    {options : EliminationOptions} (inRange : body.InRange declarations)
    (asked : options.eliminates = true) {collecting printing : Diagnostics}
    (collects : collecting.printsAtOnce = false) (prints : printing.printsAtOnce = true) :
    ∃ result printed warnings,
      body.eliminateEmpty declarations.fetch options collecting = .ok result ∧
        body.eliminateEmpty declarations.fetch options printing = .ok printed ∧
        result.diagnostics =
          { collecting with collected := collecting.collected ++ warnings } ∧
        (warnings : Multiset Diagnostic) =
          ((body.holdings : Multiset (Handle × Span)) - result.body.holdings).bind
              (fun holding =>
                (((declarations.view holding.1).declarators.map fun declarator =>
                  ⟨.warning, "unused variable '" ++ declarator.name ++ "'", some declarator.span⟩ :
                    List Diagnostic) : Multiset Diagnostic)) +
            ((body.effectless.map fun span =>
              ⟨.warning, "statement has no effect", some span⟩ : List Diagnostic) :
                Multiset Diagnostic) ∧
        printed.diagnostics = printing ∧
        printed.body = result.body ∧
        printed.count = result.count ∧
        printed.events = result.events := by
  refine ⟨_, _, (body.tally declarations.view options).warnings,
    inRange.eliminateEmpty_of_asked asked collecting,
    inRange.eliminateEmpty_of_asked asked printing, ?_, ?_, ?_, rfl, rfl, rfl⟩
  · exact Diagnostics.pushAll_of_collects collects _
  · exact warnings_tally body
  · exact Diagnostics.pushAll_of_prints prints _

/--
Of `int x, y; b;` the declaration goes, with a warning at each of its variables, and there is a warning at
`b;`.  They are collected behind what was collected before, and none is where they are printed.
-/
theorem eliminateEmpty_warns_exactly_of_block :
    let declarators : List Declarator :=
      [⟨"x", .int, [], none, ⟨4, 1⟩⟩, ⟨"y", .int, [], none, ⟨7, 1⟩⟩]
    let declarations : Declarations := .ofList [.ofDeclarators declarators]
    let body : Stmt := .ofList
      [.simple (.declare (.ofSlot 0)) ⟨0, 9⟩, .simple (.evaluate (.var "b")) ⟨10, 2⟩]
    let earlier : Diagnostic := ⟨.error, "no main function", none⟩
    let collecting : Diagnostics := { printsAtOnce := false, collected := [earlier] }
    body.InRange declarations ∧ ({} : EliminationOptions).eliminates = true ∧
      collecting.printsAtOnce = false ∧ ({} : Diagnostics).printsAtOnce = true ∧
      ∃ result printed,
        body.eliminateEmpty declarations.fetch {} collecting = .ok result ∧
          result.diagnostics.collected =
            [earlier, ⟨.warning, "statement has no effect", some ⟨10, 2⟩⟩,
              ⟨.warning, "unused variable 'x'", some ⟨4, 1⟩⟩,
              ⟨.warning, "unused variable 'y'", some ⟨7, 1⟩⟩] ∧
          result.body = .ofList [.simple (.evaluate (.var "b")) ⟨10, 2⟩] ∧
          body.eliminateEmpty declarations.fetch {} {} = .ok printed ∧
          printed.diagnostics.collected = [] ∧
          printed.body = result.body := by
  intro declarators declarations body earlier collecting
  have inRange : body.InRange declarations := by decide
  obtain ⟨result, printed, warnings, collects, prints, -, -, silent, same, -⟩ :=
    @eliminateEmpty_warns_exactly _ _ {} inRange rfl collecting {} rfl rfl
  obtain rfl := inRange.eq_eliminated collects
  exact ⟨inRange, rfl, rfl, rfl, _, printed, collects, rfl, rfl, prints,
    congrArg Diagnostics.collected silent, same⟩

end Stmt

end ShaderTree
