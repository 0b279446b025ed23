import ShaderTree.Proofs.Sharing.Separation
import ShaderTree.Proofs.Tree.Visits

/-!
# Unsharing without room

A store runs out of keys.  Unsharing needs a slot for each holder of the target but the first, and where
there are fewer slots left it ends with the fault of a full store, and with no other fault: it ends at
the first holder for whom there is no slot, so what it did to the tree before does not matter.
-/

namespace ShaderTree

open Unsharing

namespace Unsharing

variable {declarations : Declarations} {target : Handle}

theorem keeping_visit : Stmt.Keeping (visit target) := by
  intro stmt composed
  have other : stmt.handle? ≠ some target := by
    cases stmt with
    | simple form span => cases composed
    | _ => exact nofun
  refine ⟨pure stmt.span, ?_⟩
  rw [visit, if_neg other, map_pure]

/-- There is no copy for a later holder once the store is full. -/
theorem visit_of_full {stmt : Stmt} (holds : stmt.handle? = some target)
    (found : target.slot < declarations.size) {first : Span} {met : List Span}
    (full : declarationKeys.capacity ≤ declarations.size + met.length) :
    (visit target stmt).run (after declarations target (first :: met)) = .error .storeFull := by
  have old : target.slot < (after declarations target (first :: met)).declarations.size := by
    rw [after, Declarations.size_withCopies]
    omega
  obtain ⟨declaration, present⟩ := Store.exists_get?_of_lt old
  have noRoom : declarationKeys.capacity ≤
      (after declarations target (first :: met)).declarations.size := by
    rw [after, Declarations.size_withCopies]
    exact full
  have refused :
      (after declarations target (first :: met)).declarations.complete (Store.duplicate target) =
        .error .storeFull := by
    rw [Store.complete, Store.perform_duplicate present, Store.perform_insert_of_full noRoom]
  have begun : (after declarations target (first :: met)).metFirst = true := rfl
  rw [visit, if_pos holds]
  refine (run_bind_of_ok rfl).trans ?_
  rw [if_pos begun, StateT.run_bind, refused]
  rfl

/-- A visit of statements with more holders of the target than there are slots ends in a full store. -/
theorem visitEach_of_full (found : target.slot < declarations.size) (stmts : List Stmt)
    (met : List Span) (fits : declarations.size + (met.length - 1) ≤ declarationKeys.capacity)
    (full : declarationKeys.capacity < declarations.size +
      (met.length + (stmts.countP fun node => node.handle? = some target) - 1)) :
    (Stmt.visitEach (visit target) stmts).run (after declarations target met) =
      .error .storeFull := by
  induction stmts generalizing met with
  | nil =>
      rw [List.countP_nil] at full
      omega
  | cons stmt rest ih =>
      rw [Stmt.visitEach]
      by_cases holds : stmt.handle? = some target
      · rw [List.countP_cons_of_pos (by simpa using holds)] at full
        cases met with
        | nil =>
            rw [run_bind_of_ok (visit_first holds)]
            apply ih
            · exact fits
            · simp only [List.length_singleton, List.length_nil] at full ⊢
              omega
        | cons first met =>
            rw [List.length_cons] at fits full
            by_cases room : declarations.size + met.length < declarationKeys.capacity
            · rw [run_bind_of_ok (visit_later holds found room)]
              apply ih <;> rw [List.length_append, List.length_cons, List.length_singleton] <;> omega
            · rw [StateT.run_bind, visit_of_full holds found (Nat.not_lt.1 room)]
              rfl
      · rw [List.countP_cons_of_neg (by simpa using holds)] at full
        rw [run_bind_of_ok (visit_of_ne holds _)]
        exact ih met fits full

end Unsharing

/-- Where there is no room for all copies, unsharing ends in a full store. -/
theorem Stmt.unshare_of_full {declarations : Declarations} {target : Handle} {root : Stmt}
    (found : target.slot < declarations.size) (fits : declarations.size ≤ declarationKeys.capacity)
    (full : declarationKeys.capacity < declarations.size + (root.holders target - 1)) :
    root.unshare declarations target = .error .storeFull := by
  have begun : after declarations target [] = { declarations } := by
    simp [after]
  have visited : ((fun _ => ()) <$> root.rewrite (visit target)).run
      (after declarations target []) = .error .storeFull := by
    rw [discard_rewrite keeping_visit]
    refine visitEach_of_full found root.nodes [] fits ?_
    rwa [List.length_nil, Nat.zero_add]
  rw [begun, StateT.run_map] at visited
  unfold unshare
  cases ran : (root.rewrite (visit target)).run { declarations } with
  | error fault =>
      rw [ran] at visited
      rw [Except.error.inj visited]
  | ok result =>
      rw [ran] at visited
      cases visited

end ShaderTree
