import Mathlib.Data.List.Induction
import ShaderTree.Proofs.Elimination.Pass

/-!
# Lists by position

A sweep may be carried out in place: a position runs down the list, the list is cut behind the position
to see what is left later, and a statement is taken out where it stands.  The cases of a switch may be
replaced in place too, while a position runs up.  Each of these steps names a position that has to be
there.  It is there every time, although the list that is swept shrinks on the way, so the passes in place
do what the passes by recursion do, fault for fault.
-/

namespace ShaderTree

/-! ## Checked positions -/

section Checked

variable {α : Type}

/-- What stands at a position of a list, which has to be there. -/
def standing (values : List α) (position : Nat) : Except Fault α :=
  match values[position]? with
  | some value => .ok value
  | none => .error (.outOfBounds values.length position)

/-- The parts of a list before and from a position on, which must not lie behind the end. -/
def parting (values : List α) (position : Nat) : Except Fault (List α × List α) :=
  if position ≤ values.length then
    .ok (values.take position, values.drop position)
  else
    .error (.outOfBounds values.length position)

/-- What stands at a position of a list, and the list without it. -/
def takingOut (values : List α) (position : Nat) : Except Fault (α × List α) := do
  return (← standing values position, values.eraseIdx position)

variable (front : List α) (value : α) (back : List α)

theorem standing_append : standing (front ++ value :: back) front.length = .ok value := by
  simp [standing]

theorem parting_append :
    parting (front ++ value :: back) (front.length + 1) = .ok (front ++ [value], back) := by
  have length : front.length + 1 = (front ++ [value]).length := by simp
  rw [parting, List.append_cons, length, if_pos (by simp), List.take_left, List.drop_left]

theorem takingOut_append :
    takingOut (front ++ value :: back) front.length = .ok (value, front ++ back) := by
  rw [takingOut, standing_append, List.eraseIdx_append_of_length_le (Nat.le_refl _), Nat.sub_self]
  rfl

end Checked

namespace Tally

theorem append_assoc (first second third : Tally) :
    first ++ second ++ third = first ++ (second ++ third) := by
  change Tally.mk _ _ _ = Tally.mk _ _ _
  congr 1
  · exact Nat.add_assoc ..
  · exact List.append_assoc ..
  · exact List.append_assoc ..

theorem append_nothing (tally : Tally) : tally ++ .nothing = tally := by
  change Tally.mk _ _ _ = _
  congr 1
  · exact List.append_nil _
  · exact List.append_nil _

theorem nothing_append (tally : Tally) : .nothing ++ tally = tally := by
  change Tally.mk _ _ _ = _
  congr 1
  exact Nat.zero_add _

end Tally

variable (look : Lookup (Except Fault))

/-! ## Sweeps -/

/-- Decides about a statement for the sake of what a sweep has left behind it. -/
def decideAbout (outside : List Stmt) (stmt : Stmt) (behind : List Stmt × Tally) :
    Except Fault (List Stmt × Tally) := do
  let (kept, tally) := behind
  if ← stmt.isEmpty look then
    if ← stmt.isUsedBy look (kept ++ outside) then
      return (stmt :: kept, tally)
    else
      return (kept, tally ++ (← Tally.ofElided look .emptyStatement stmt))
  else
    return (stmt :: kept, tally)

/-- Decides about the statement at a position of a list that is swept in place. -/
def sweepAt (outside : List Stmt) (state : List Stmt × Tally) (position : Nat) :
    Except Fault (List Stmt × Tally) := do
  let (stmts, tally) := state
  if ← (← standing stmts position).isEmpty look then
    let (current, later) ← parting stmts (position + 1)
    if ← (← standing current position).isUsedBy look (later ++ outside) then
      return (stmts, tally)
    else
      let (stmt, left) ← takingOut stmts position
      return (left, tally ++ (← Tally.ofElided look .emptyStatement stmt))
  else
    return (stmts, tally)

/-- Sweeps a list in place, from its last position down to its first one. -/
def sweepInPlace (outside stmts : List Stmt) : Except Fault (List Stmt × Tally) :=
  (List.range stmts.length).reverse.foldlM (sweepAt look outside) (stmts, .nothing)

theorem sweep_eq_foldrM (outside stmts : List Stmt) :
    sweep look outside stmts = stmts.foldrM (decideAbout look outside) ([], .nothing) := by
  induction stmts with
  | nil => rfl
  | cons first rest ih =>
      rw [List.foldrM_cons, ← ih]
      rfl

/-- At a position whose statement is there, the decision leaves all before it as it stands. -/
theorem sweepAt_append (outside front kept : List Stmt) (stmt : Stmt) (tally : Tally) :
    sweepAt look outside (front ++ stmt :: kept, tally) front.length =
      (fun left => (front ++ left.1, left.2)) <$> decideAbout look outside stmt (kept, tally) := by
  have empty : standing (front ++ stmt :: kept) front.length = .ok stmt := standing_append ..
  have current : standing (front ++ [stmt]) front.length = .ok stmt := standing_append ..
  rw [sweepAt, empty, parting_append, takingOut_append, decideAbout]
  simp only [bind, Except.bind, current]
  cases stmt.isEmpty look with
  | error fault => rfl
  | ok empty =>
      cases empty with
      | false => rfl
      | true =>
          cases stmt.isUsedBy look (kept ++ outside) with
          | error fault => rfl
          | ok used =>
              cases used with
              | true => rfl
              | false => cases Tally.ofElided look .emptyStatement stmt <;> rfl

/-- A sweep in place of the front of a list goes on where the sweep of its back has come to. -/
theorem foldlM_sweepAt (outside front kept : List Stmt) (tally : Tally) :
    (List.range front.length).reverse.foldlM (sweepAt look outside) (front ++ kept, tally) =
      front.foldrM (decideAbout look outside) (kept, tally) := by
  induction front using List.reverseRecOn generalizing kept tally with
  | nil => rfl
  | append_singleton front stmt ih =>
      rw [List.length_append, List.length_singleton, List.range_succ, List.reverse_append,
        List.reverse_singleton, List.singleton_append, List.foldlM_cons, List.append_assoc,
        List.singleton_append, sweepAt_append, bind_map_left, List.foldrM_append, List.foldrM_cons,
        List.foldrM_nil, pure_bind]
      refine bind_congr fun left => ?_
      exact ih left.1 left.2

/-- A sweep in place does what a sweep does. -/
theorem sweepInPlace_eq_sweep (outside stmts : List Stmt) :
    sweepInPlace look outside stmts = sweep look outside stmts := by
  have whole := foldlM_sweepAt look outside stmts [] .nothing
  rw [List.append_nil] at whole
  rw [sweepInPlace, whole, sweep_eq_foldrM]

/-! ## Cases -/

variable (options : EliminationOptions)

/-- Prunes and sweeps the case at a position of a list of cases, in its place. -/
def pruneCaseAt (state : List Case × Tally) (position : Nat) : Except Fault (List Case × Tally) := do
  let (cases, tally) := state
  let (current, later) ← parting cases (position + 1)
  let each ← standing current position
  let (stmts, ofCase) ←
    sweepAfter look (later.flatMap Case.stmts) (← pruneEach look options each.stmts)
  return (cases.set position (.mk each.label stmts), tally ++ ofCase)

/-- Prunes the cases of a switch in place, from the first one up to the last one. -/
def pruneCasesInPlace (cases : List Case) : Except Fault (List Case × Tally) :=
  (List.range cases.length).foldlM (pruneCaseAt look options) (cases, .nothing)

/-- At a position whose case is there, the later cases are still as they were. -/
theorem pruneCaseAt_append (front back : List Case) (label : Option Expr) (stmts : List Stmt)
    (tally : Tally) :
    pruneCaseAt look options (front ++ .mk label stmts :: back, tally) front.length =
      (do
        let (stmts, ofCase) ←
          sweepAfter look (back.flatMap Case.stmts) (← pruneEach look options stmts)
        return (front ++ .mk label stmts :: back, tally ++ ofCase)) := by
  have current : standing (front ++ [Case.mk label stmts]) front.length = .ok (.mk label stmts) :=
    standing_append ..
  have replaced (left : List Stmt) :
      (front ++ Case.mk label stmts :: back).set front.length (.mk label left) =
        front ++ .mk label left :: back := by
    simp
  rw [pruneCaseAt, parting_append]
  simp only [bind, Except.bind, current, replaced, Case.label, Case.stmts]

theorem foldlM_pruneCaseAt (front back : List Case) (tally : Tally) :
    (List.range' front.length back.length).foldlM (pruneCaseAt look options)
        (front ++ back, tally) =
      (fun left => (front ++ left.1, tally ++ left.2)) <$> pruneCases look options back := by
  induction back generalizing front tally with
  | nil =>
      rw [List.length_nil, List.range'_zero, List.foldlM_nil, pruneCases, map_pure,
        Tally.append_nothing]
  | cons first rest ih =>
      obtain ⟨label, stmts⟩ := first
      rw [List.length_cons, List.range'_succ, List.foldlM_cons, pruneCaseAt_append, pruneCases]
      simp only [map_bind, bind_assoc, pure_bind, map_pure]
      refine bind_congr fun pruned => bind_congr fun swept => ?_
      have next := ih (front ++ [.mk label swept.1]) (tally ++ swept.2)
      rw [List.length_append, List.length_singleton, List.append_assoc, List.singleton_append]
        at next
      rw [next, map_eq_pure_bind]
      refine bind_congr fun left => ?_
      rw [List.append_assoc, Tally.append_assoc]
      rfl

/-- Pruning the cases of a switch in place does what pruning them does. -/
theorem pruneCasesInPlace_eq_pruneCases (cases : List Case) :
    pruneCasesInPlace look options cases = pruneCases look options cases := by
  have whole := foldlM_pruneCaseAt look options [] cases .nothing
  simp only [List.length_nil, List.nil_append, Tally.nothing_append] at whole
  rw [pruneCasesInPlace, List.range_eq_range', whole]
  exact id_map _

end ShaderTree
