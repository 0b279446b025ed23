import ShaderTree.Proofs.Tree.Nested

/-!
# Branches and the choices they belong to

A statement that is nested without braces ends where its parent goes on.  If it ends in a choice
without an `else` branch it is open: an `else` that its parent writes behind it is taken for a branch of
the inner choice.  A tree is safe if no choice with an `else` branch has an open body.

The branches of any tree can be moved to where they are taken to belong, each to the nearest choice in
front of it that has none yet.  A safe tree stays as it is.
-/

namespace ShaderTree

namespace Stmt

/-! ## Open statements -/

/-- Whether a statement ends in a choice without an `else` branch. -/
def isOpen : Stmt → Bool
  | .choice _ _ _ none _ => true
  | .choice _ _ _ (some no) _ => no.isOpen
  | .forLoop _ _ _ body _ | .whileLoop _ body _ => body.isOpen
  | .simple _ _ | .block _ _ | .doWhile _ _ _ | .switch _ _ _ _ => false

/-- Whether the `else` branch of a statement, if it is a choice with one, follows no open body. -/
def ownsElse : Stmt → Bool
  | .choice _ _ yes (some _) _ => !yes.isOpen
  | _ => true

/-- No choice of a tree that has an `else` branch has an open body. -/
def ElseSafe (stmt : Stmt) : Prop :=
  ∀ node ∈ stmt.nodes, node.ownsElse = true

instance (stmt : Stmt) : Decidable stmt.ElseSafe :=
  inferInstanceAs (Decidable (∀ node ∈ stmt.nodes, node.ownsElse = true))

/-- A tree is safe if its root owns its branch and the trees one level below are safe. -/
theorem elseSafe_iff {stmt : Stmt} :
    stmt.ElseSafe ↔ stmt.ownsElse = true ∧ ∀ below ∈ stmt.nested, below.ElseSafe :=
  forall_mem_nodes_iff

theorem ElseSafe.nested {stmt below : Stmt} (safe : stmt.ElseSafe) (within : below ∈ stmt.nested) :
    below.ElseSafe :=
  (elseSafe_iff.1 safe).2 below within

theorem elseSafe_simple (form : Simple) (span : Span) : ElseSafe (.simple form span) :=
  elseSafe_iff.2 ⟨rfl, List.forall_mem_nil _⟩

theorem elseSafe_block {stmts : List Stmt} {span : Span} :
    ElseSafe (.block stmts span) ↔ ∀ stmt ∈ stmts, stmt.ElseSafe := by
  rw [elseSafe_iff]
  exact and_iff_right rfl

theorem elseSafe_doWhile {body : Stmt} {test : Expr} {span : Span} :
    ElseSafe (.doWhile body test span) ↔ body.ElseSafe := by
  rw [elseSafe_iff, nested, List.forall_mem_singleton]
  exact and_iff_right rfl

theorem elseSafe_forLoop {start : Option Stmt} {test next : Option Expr} {body : Stmt}
    {span : Span} :
    ElseSafe (.forLoop start test next body span) ↔
      (∀ stmt ∈ start, stmt.ElseSafe) ∧ body.ElseSafe := by
  rw [elseSafe_iff, nested, List.forall_mem_append, List.forall_mem_singleton]
  simp only [Option.mem_toList]
  exact and_iff_right rfl

theorem elseSafe_choice {isStatic : Bool} {test : Expr} {yes : Stmt} {no : Option Stmt}
    {span : Span} :
    ElseSafe (.choice isStatic test yes no span) ↔
      (no.isSome = true → yes.isOpen = false) ∧ yes.ElseSafe ∧ ∀ stmt ∈ no, stmt.ElseSafe := by
  rw [elseSafe_iff, nested, List.forall_mem_cons]
  simp only [Option.mem_toList]
  refine and_congr_left fun _ => ?_
  cases no <;> simp [ownsElse]

theorem elseSafe_switch {isStatic : Bool} {value : Expr} {cases : List Case} {span : Span} :
    ElseSafe (.switch isStatic value cases span) ↔
      ∀ stmt ∈ cases.flatMap Case.stmts, stmt.ElseSafe := by
  rw [elseSafe_iff]
  exact and_iff_right rfl

theorem elseSafe_whileLoop {test : Expr} {body : Stmt} {span : Span} :
    ElseSafe (.whileLoop test body span) ↔ body.ElseSafe := by
  rw [elseSafe_iff, nested, List.forall_mem_singleton]
  exact and_iff_right rfl

/-! ## Where branches are taken to belong -/

/-- An open statement with a branch for the choice that it ends in. -/
def graft (branch : Stmt) : Stmt → Stmt
  | .choice isStatic test yes none span =>
      if yes.isOpen then .choice isStatic test (graft branch yes) none span
      else .choice isStatic test yes (some branch) span
  | .choice isStatic test yes (some no) span =>
      .choice isStatic test yes (some (graft branch no)) span
  | .forLoop start test next body span => .forLoop start test next (graft branch body) span
  | .whileLoop test body span => .whileLoop test (graft branch body) span
  | stmt => stmt

/-- A choice with the branch behind it, or behind its body if that is open. -/
def attach (isStatic : Bool) (test : Expr) (yes no : Stmt) (span : Span) : Stmt :=
  if yes.isOpen then .choice isStatic test (graft no yes) none span
  else .choice isStatic test yes (some no) span

mutual

/-- A tree with every `else` branch moved to the nearest choice in front of it that has none yet. -/
def asRead : Stmt → Stmt
  | .simple form span => .simple form span
  | .block stmts span => .block (asReadEach stmts) span
  | .doWhile body test span => .doWhile body.asRead test span
  | .forLoop (some start) test next body span =>
      .forLoop (some start.asRead) test next body.asRead span
  | .forLoop none test next body span => .forLoop none test next body.asRead span
  | .choice isStatic test yes (some no) span => attach isStatic test yes.asRead no.asRead span
  | .choice isStatic test yes none span => .choice isStatic test yes.asRead none span
  | .switch isStatic value cases span => .switch isStatic value (asReadCases cases) span
  | .whileLoop test body span => .whileLoop test body.asRead span

/-- Statements with every branch moved to where it is taken to belong. -/
def asReadEach : List Stmt → List Stmt
  | [] => []
  | first :: rest => first.asRead :: asReadEach rest

/-- Cases with every branch in them moved to where it is taken to belong. -/
def asReadCases : List Case → List Case
  | [] => []
  | .mk label stmts :: rest => .mk label (asReadEach stmts) :: asReadCases rest

end

theorem asReadEach_eq_map (stmts : List Stmt) : asReadEach stmts = stmts.map asRead := by
  induction stmts with
  | nil => rfl
  | cons first rest ih => rw [asReadEach, ih, List.map_cons]

theorem asReadCases_eq_map (cases : List Case) :
    asReadCases cases = cases.map fun each => .mk each.label (each.stmts.map asRead) := by
  induction cases with
  | nil => rfl
  | cons first rest ih =>
      obtain ⟨label, stmts⟩ := first
      rw [asReadCases, asReadEach_eq_map, ih]
      rfl

theorem stmts_asReadCases (cases : List Case) :
    (asReadCases cases).flatMap Case.stmts = (cases.flatMap Case.stmts).map asRead := by
  rw [asReadCases_eq_map, List.flatMap_map, List.map_flatMap]
  rfl

theorem elseSafe_graft {branch stmt : Stmt} (safeBranch : branch.ElseSafe) (safe : stmt.ElseSafe) :
    (graft branch stmt).ElseSafe := by
  induction stmt using Stmt.induction with
  | forLoop start test next body span ihStart ihBody =>
      obtain ⟨safeStart, safeBody⟩ := elseSafe_forLoop.1 safe
      exact elseSafe_forLoop.2 ⟨safeStart, ihBody safeBody⟩
  | choice isStatic test yes no span ihYes ihNo =>
      obtain ⟨closed, safeYes, safeNo⟩ := elseSafe_choice.1 safe
      cases no with
      | none =>
          rw [graft]
          split
          case isTrue => exact elseSafe_choice.2 ⟨nofun, ihYes safeYes, nofun⟩
          case isFalse closed =>
            refine elseSafe_choice.2 ⟨fun _ => Bool.eq_false_iff.2 closed, safeYes, ?_⟩
            rintro _ ⟨⟩
            exact safeBranch
      | some no =>
          refine elseSafe_choice.2 ⟨fun _ => closed rfl, safeYes, ?_⟩
          rintro _ ⟨⟩
          exact ihNo no rfl (safeNo no rfl)
  | whileLoop test body span ih => exact elseSafe_whileLoop.2 (ih (elseSafe_whileLoop.1 safe))
  | _ => exact safe

theorem elseSafe_attach {isStatic : Bool} {test : Expr} {yes no : Stmt} {span : Span}
    (safeYes : yes.ElseSafe) (safeNo : no.ElseSafe) :
    (attach isStatic test yes no span).ElseSafe := by
  unfold attach
  split
  case isTrue => exact elseSafe_choice.2 ⟨nofun, elseSafe_graft safeNo safeYes, nofun⟩
  case isFalse closed =>
    refine elseSafe_choice.2 ⟨fun _ => Bool.eq_false_iff.2 closed, safeYes, ?_⟩
    rintro _ ⟨⟩
    exact safeNo

/-- With its branches where they are taken to belong, every tree is safe. -/
theorem elseSafe_asRead (stmt : Stmt) : stmt.asRead.ElseSafe := by
  induction stmt using Stmt.induction with
  | simple form span => exact elseSafe_simple form span
  | block stmts span ih =>
      rw [asRead, asReadEach_eq_map, elseSafe_block]
      exact List.forall_mem_map.2 ih
  | doWhile body test span ih => exact elseSafe_doWhile.2 ih
  | forLoop start test next body span ihStart ihBody =>
      cases start with
      | none => exact elseSafe_forLoop.2 ⟨nofun, ihBody⟩
      | some start =>
          refine elseSafe_forLoop.2 ⟨?_, ihBody⟩
          rintro _ ⟨⟩
          exact ihStart start rfl
  | choice isStatic test yes no span ihYes ihNo =>
      cases no with
      | none => exact elseSafe_choice.2 ⟨nofun, ihYes, nofun⟩
      | some no => exact elseSafe_attach ihYes (ihNo no rfl)
  | switch isStatic value cases span ih =>
      rw [asRead, elseSafe_switch, stmts_asReadCases, List.forall_mem_map, List.forall_mem_flatMap]
      exact ih
  | whileLoop test body span ih => exact elseSafe_whileLoop.2 ih

/-- A tree stays as it is if and only if it is safe. -/
theorem asRead_eq_self_iff (stmt : Stmt) : stmt.asRead = stmt ↔ stmt.ElseSafe := by
  constructor
  · intro same
    exact same ▸ stmt.elseSafe_asRead
  intro safe
  have each {stmts : List Stmt} (same : ∀ stmt ∈ stmts, stmt.asRead = stmt) :
      stmts.map asRead = stmts :=
    (List.map_congr_left same).trans (List.map_id' stmts)
  induction stmt using Stmt.induction with
  | simple form span => rfl
  | block stmts span ih =>
      rw [elseSafe_block] at safe
      rw [asRead, asReadEach_eq_map, each fun stmt within => ih stmt within (safe stmt within)]
  | doWhile body test span ih => rw [asRead, ih (elseSafe_doWhile.1 safe)]
  | forLoop start test next body span ihStart ihBody =>
      obtain ⟨safeStart, safeBody⟩ := elseSafe_forLoop.1 safe
      cases start with
      | none => rw [asRead, ihBody safeBody]
      | some start => rw [asRead, ihBody safeBody, ihStart start rfl (safeStart start rfl)]
  | choice isStatic test yes no span ihYes ihNo =>
      obtain ⟨closed, safeYes, safeNo⟩ := elseSafe_choice.1 safe
      cases no with
      | none => rw [asRead, ihYes safeYes]
      | some no =>
          rw [asRead, ihYes safeYes, ihNo no rfl (safeNo no rfl), attach, closed rfl]
          rfl
  | switch isStatic value cases span ih =>
      rw [elseSafe_switch] at safe
      have same : ∀ own ∈ cases, Case.mk own.label (own.stmts.map asRead) = own := by
        rintro ⟨label, stmts⟩ listed
        have own : stmts.map asRead = stmts := each fun stmt within =>
          ih _ listed stmt within (safe stmt (List.mem_flatMap.2 ⟨_, listed, within⟩))
        exact congrArg (Case.mk label) own
      rw [asRead, asReadCases_eq_map, List.map_congr_left same, List.map_id']
  | whileLoop test body span ih => rw [asRead, ih (elseSafe_whileLoop.1 safe)]

end Stmt

end ShaderTree
