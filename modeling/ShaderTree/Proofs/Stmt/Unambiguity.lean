import ShaderTree.Proofs.Stmt.Readability
import ShaderTree.Proofs.Tree.Written

/-!
# What the text of a tree says

A tree has the same text with its branches where they are taken to belong.  There it is safe, so the
text is read as its outline.  Two proper trees therefore have the same text if and only if their
outlines agree once the branches of both are moved; and in a safe tree there is nothing to move.
-/

namespace ShaderTree

variable {view : View}

namespace Stmt

/-! ## The text of a moved branch -/

/-- An open statement with a branch is written as the statement and then the branch. -/
theorem textUnder_graft (branch : Stmt) {stmt : Stmt} (isOpen : stmt.isOpen = true) :
    (graft branch stmt).textUnder view =
      stmt.textUnder view ++ " else " ++ branch.textUnder view := by
  induction stmt using Stmt.induction with
  | forLoop start test next body span ihStart ihBody =>
      rw [graft, textUnder_forLoop, textUnder_forLoop, ihBody isOpen]
      simp only [String.append_assoc]
  | choice isStatic test yes no span ihYes ihNo =>
      cases no with
      | none =>
          rw [graft]
          split
          case isTrue inner =>
            rw [textUnder_choice_none, textUnder_choice_none, ihYes inner]
            simp only [String.append_assoc]
          case isFalse => rfl
      | some no =>
          rw [graft, textUnder_choice_some, textUnder_choice_some, ihNo no rfl isOpen]
          simp only [String.append_assoc]
  | whileLoop test body span ih =>
      rw [graft, textUnder_whileLoop, textUnder_whileLoop, ih isOpen]
      simp only [String.append_assoc]
  | _ => cases isOpen

/-- It does not matter to the text whether a branch belongs to a choice or to its open body. -/
theorem textUnder_attach (isStatic : Bool) (test : Expr) (yes no : Stmt) (span : Span) :
    (attach isStatic test yes no span).textUnder view =
      textUnder view (.choice isStatic test yes (some no) span) := by
  unfold attach
  split
  case isTrue isOpen =>
    rw [textUnder_choice_none, textUnder_choice_some, textUnder_graft no isOpen]
    simp only [String.append_assoc]
  case isFalse => rfl

theorem textOfEachUnder_asRead {stmts : List Stmt}
    (same : ∀ stmt ∈ stmts, stmt.asRead.textUnder view = stmt.textUnder view) :
    textOfEachUnder view (asReadEach stmts) = textOfEachUnder view stmts := by
  induction stmts with
  | nil => rfl
  | cons first rest ih =>
      rw [List.forall_mem_cons] at same
      rw [asReadEach, textOfEachUnder_cons, textOfEachUnder_cons, same.1, ih same.2]

theorem textOfCasesUnder_asRead {cases : List Case}
    (same : ∀ each ∈ cases, ∀ stmt ∈ each.stmts,
      stmt.asRead.textUnder view = stmt.textUnder view) :
    textOfCasesUnder view (asReadCases cases) = textOfCasesUnder view cases := by
  induction cases with
  | nil => rfl
  | cons first rest ih =>
      obtain ⟨label, stmts⟩ := first
      obtain ⟨own, others⟩ := List.forall_mem_cons.1 same
      have stmtsText : textOfEachUnder view (asReadEach stmts) = textOfEachUnder view stmts :=
        textOfEachUnder_asRead own
      rw [asReadCases, textOfCasesUnder_cons, textOfCasesUnder_cons, stmtsText, ih others]

/-- A tree has the same text with its branches where they are taken to belong. -/
theorem textUnder_asRead (stmt : Stmt) : stmt.asRead.textUnder view = stmt.textUnder view := by
  induction stmt using Stmt.induction with
  | simple form span => rfl
  | block stmts span ih =>
      rw [asRead, textUnder_block, textUnder_block, textOfEachUnder_asRead ih]
  | doWhile body test span ih => rw [asRead, textUnder_doWhile, textUnder_doWhile, ih]
  | forLoop start test next body span ihStart ihBody =>
      cases start with
      | none => rw [asRead, textUnder_forLoop, textUnder_forLoop, ihBody]
      | some start =>
          rw [asRead, textUnder_forLoop, textUnder_forLoop, ihBody, Option.elim_some,
            ihStart start rfl, Option.elim_some]
  | choice isStatic test yes no span ihYes ihNo =>
      cases no with
      | none => rw [asRead, textUnder_choice_none, textUnder_choice_none, ihYes]
      | some no =>
          rw [asRead, textUnder_attach, textUnder_choice_some, textUnder_choice_some, ihYes,
            ihNo no rfl]
  | switch isStatic value cases span ih =>
      rw [asRead, textUnder_switch, textUnder_switch, textOfCasesUnder_asRead ih]
  | whileLoop test body span ih => rw [asRead, textUnder_whileLoop, textUnder_whileLoop, ih]

/-! ## Proper trees with moved branches -/

/-- Whether a tree is proper depends on its root and on the trees one level below. -/
theorem IsProper.replace {stmt other : Stmt} (proper : stmt.IsProper view)
    (exprs : other.exprs = stmt.exprs) (handle : other.handle? = stmt.handle?)
    (below : ∀ own ∈ other.nested, own.IsProper view) : other.IsProper view := by
  obtain ⟨ownExprs, ownDeclaration⟩ := proper.own
  exact isProper_iff.2 ⟨⟨exprs ▸ ownExprs, handle ▸ ownDeclaration⟩, below⟩

theorem isProper_graft {branch stmt : Stmt} (properBranch : branch.IsProper view)
    (proper : stmt.IsProper view) : (graft branch stmt).IsProper view := by
  induction stmt using Stmt.induction with
  | forLoop start test next body span ihStart ihBody =>
      refine proper.replace rfl rfl fun own within => ?_
      rcases List.mem_append.1 within with inStart | inBody
      · exact proper.nested (List.mem_append_left _ inStart)
      · rw [List.mem_singleton.1 inBody]
        exact ihBody (proper.nested (List.mem_append_right _ List.mem_cons_self))
  | choice isStatic test yes no span ihYes ihNo =>
      have properYes := proper.nested List.mem_cons_self
      cases no with
      | none =>
          rw [graft]
          split
          case isTrue =>
            refine proper.replace rfl rfl (List.forall_mem_singleton.2 ?_)
            exact ihYes properYes
          case isFalse =>
            refine proper.replace rfl rfl (List.forall_mem_cons.2 ⟨properYes, ?_⟩)
            exact List.forall_mem_singleton.2 properBranch
      | some no =>
          refine proper.replace rfl rfl (List.forall_mem_cons.2 ⟨properYes, ?_⟩)
          refine List.forall_mem_singleton.2 (ihNo no rfl (proper.nested ?_))
          exact List.mem_cons_of_mem _ List.mem_cons_self
  | whileLoop test body span ih =>
      refine proper.replace rfl rfl (List.forall_mem_singleton.2 ?_)
      exact ih (proper.nested List.mem_cons_self)
  | _ => exact proper

theorem isProper_attach {isStatic : Bool} {test : Expr} {yes no : Stmt} {span : Span}
    (proper : IsProper view (.choice isStatic test yes (some no) span)) :
    (attach isStatic test yes no span).IsProper view := by
  have properYes := proper.nested List.mem_cons_self
  have properNo := proper.nested (List.mem_cons_of_mem _ List.mem_cons_self)
  unfold attach
  split
  case isTrue =>
    exact proper.replace rfl rfl (List.forall_mem_singleton.2 (isProper_graft properNo properYes))
  case isFalse => exact proper

theorem isProper_asRead {stmt : Stmt} (proper : stmt.IsProper view) :
    stmt.asRead.IsProper view := by
  induction stmt using Stmt.induction with
  | simple form span => exact proper
  | block stmts span ih =>
      rw [asRead, asReadEach_eq_map]
      refine proper.replace rfl rfl (List.forall_mem_map.2 fun stmt within => ?_)
      exact ih stmt within (proper.nested within)
  | doWhile body test span ih =>
      refine proper.replace rfl rfl (List.forall_mem_singleton.2 ?_)
      exact ih (proper.nested List.mem_cons_self)
  | forLoop start test next body span ihStart ihBody =>
      have properBody := ihBody (proper.nested (List.mem_append_right _ List.mem_cons_self))
      cases start with
      | none => exact proper.replace rfl rfl (List.forall_mem_singleton.2 properBody)
      | some start =>
          have properStart := ihStart start rfl
            (proper.nested (List.mem_append_left _ List.mem_cons_self))
          refine proper.replace rfl rfl (List.forall_mem_cons.2 ⟨properStart, ?_⟩)
          exact List.forall_mem_singleton.2 properBody
  | choice isStatic test yes no span ihYes ihNo =>
      have properYes := ihYes (proper.nested List.mem_cons_self)
      cases no with
      | none => exact proper.replace rfl rfl (List.forall_mem_singleton.2 properYes)
      | some no =>
          have properNo := ihNo no rfl (proper.nested (List.mem_cons_of_mem _ List.mem_cons_self))
          refine isProper_attach (proper.replace rfl rfl (List.forall_mem_cons.2 ⟨properYes, ?_⟩))
          exact List.forall_mem_singleton.2 properNo
  | switch isStatic value cases span ih =>
      have labels : (asReadCases cases).filterMap Case.label = cases.filterMap Case.label := by
        rw [asReadCases_eq_map, List.filterMap_map]
        rfl
      have below : ∀ stmt ∈ (asReadCases cases).flatMap Case.stmts, stmt.IsProper view := by
        rw [stmts_asReadCases, List.forall_mem_map]
        intro stmt within
        obtain ⟨each, inCases, inStmts⟩ := List.mem_flatMap.1 within
        exact ih each inCases stmt inStmts (proper.nested within)
      exact proper.replace (congrArg (value :: ·) labels) rfl below
  | whileLoop test body span ih =>
      refine proper.replace rfl rfl (List.forall_mem_singleton.2 ?_)
      exact ih (proper.nested List.mem_cons_self)

/-! ## Unambiguity -/

/-- The text of a proper tree is read as the outline of the tree with its branches moved. -/
theorem readOutline_textUnder {stmt : Stmt} (proper : stmt.IsProper view) :
    Reader.standard.readOutline (stmt.textUnder view).toList = some (stmt.asRead.outline view, []) := by
  have back := readsBack (isProper_asRead proper) (elseSafe_asRead stmt) [] fun _ => nofun
  rw [List.append_nil, textUnder_asRead] at back
  exact back

/-- Proper trees have the same text if and only if their outlines agree once the branches are moved. -/
theorem textUnder_eq_iff {view other : View} {first second : Stmt}
    (properFirst : first.IsProper view) (properSecond : second.IsProper other) :
    first.textUnder view = second.textUnder other ↔
      first.asRead.outline view = second.asRead.outline other := by
  constructor
  · intro same
    have readFirst := readOutline_textUnder properFirst
    rw [same, readOutline_textUnder properSecond] at readFirst
    injection readFirst with pair
    injection pair with outlines
    exact outlines.symm
  · intro same
    rw [← textUnder_asRead first, ← textUnder_asRead second, textUnder_eq_outline,
      textUnder_eq_outline, same]

/--
Printed trees are unambiguous up to the places of `else` branches: two proper trees, each in range of
its own declarations, are written out without a fault, and they have the same text if and only if their
outlines agree once every branch is moved to the nearest choice in front of it that has none yet.  There
is nothing to move if and only if no choice with a branch has a body that ends in one without.
-/
theorem text_eq_text_iff {declarations others : Declarations} {first second : Stmt}
    (firstInRange : first.InRange declarations) (secondInRange : second.InRange others)
    (firstProper : first.IsProper declarations.view) (secondProper : second.IsProper others.view) :
    ∃ text other,
      first.text declarations.fetch = .ok text ∧
        second.text others.fetch = .ok other ∧
        (text = other ↔
          first.asRead.outline declarations.view = second.asRead.outline others.view) ∧
        (first.asRead = first ↔ first.ElseSafe) ∧
        (second.asRead = second ↔ second.ElseSafe) :=
  ⟨_, _, text_eq_pure firstInRange.answered, text_eq_pure secondInRange.answered,
    textUnder_eq_iff firstProper secondProper, first.asRead_eq_self_iff, second.asRead_eq_self_iff⟩

/--
Two trees for `for (int i = -1; ; ) if (a) f().x; else ;` differ in where they are written, in their
declarations, and in what is known of `f` and of `x`; what they say is the same.
-/
theorem text_eq_text_iff_of_loop :
    let called (isPure : Bool) (selection : Selection) (span : Span) : Expr :=
      .select selection (.apply (.function "f" isPure) [] span) "x" span
    let loop (slot : Fin 256) (expr : Expr) : Stmt :=
      .forLoop (some (.declares slot)) none none
        (.choice false (.var "a") (.simple (.evaluate expr) .nowhere) (some (.nop .nowhere)) .nowhere)
        .nowhere
    let declarations : Declarations := .ofList
      [.ofDeclarators [.set "i" (.literal (.int (-1)) .nowhere)]]
    let others : Declarations := .ofList
      [.ofDeclarators [.sized "j" []],
        .ofDeclarators [.set "i" (.prefixed .negate (.literal (.int 1) .nowhere) .nowhere)]]
    let first : Stmt := loop 0 (called true .field ⟨3, 4⟩)
    let second : Stmt := loop 1 (called false .swizzle .nowhere)
    first.InRange declarations ∧
      second.InRange others ∧
      first.IsProper declarations.view ∧
      second.IsProper others.view ∧
      first.text declarations.fetch = .ok "for (int i = -1; ; ) if (a) f().x; else ;" ∧
      second.text others.fetch = .ok "for (int i = -1; ; ) if (a) f().x; else ;" ∧
      first.asRead = first ∧
      second.asRead = second := by
  intro called loop declarations others first second
  have firstInRange : first.InRange declarations := by decide
  have secondInRange : second.InRange others := by decide
  have firstProper : first.IsProper declarations.view := by decide
  have secondProper : second.IsProper others.view := by decide
  obtain ⟨text, other, told, toldToo, same, safe, safeToo⟩ :=
    text_eq_text_iff firstInRange secondInRange firstProper secondProper
  obtain rfl := same.2 rfl
  obtain rfl := Except.ok.inj (told.symm.trans rfl)
  exact ⟨firstInRange, secondInRange, firstProper, secondProper, told, toldToo,
    safe.2 (by decide), safeToo.2 (by decide)⟩

/--
A choice with a branch around one without, and a choice without a branch around one with it, are both
written `if (a) if (b) discard; else return;`.
-/
theorem text_eq_text_of_nested_choices :
    let leave : Stmt := .simple (.return none) .nowhere
    let inner (no : Option Stmt) : Stmt :=
      .choice false (.var "b") (.simple .discard .nowhere) no .nowhere
    let first : Stmt := .choice false (.var "a") (inner none) (some leave) .nowhere
    let second : Stmt := .choice false (.var "a") (inner (some leave)) none .nowhere
    let declarations : Declarations := .ofList []
    first.IsProper declarations.view ∧
      second.IsProper declarations.view ∧
      first.text declarations.fetch = .ok "if (a) if (b) discard; else return;" ∧
      second.text declarations.fetch = .ok "if (a) if (b) discard; else return;" ∧
      first.outline declarations.view ≠ second.outline declarations.view := by
  intro leave inner first second declarations
  refine ⟨by decide, by decide, rfl, rfl, ?_⟩
  intro same
  injection same with _ _ _ branches
  cases branches

end Stmt

end ShaderTree
