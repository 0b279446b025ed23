import ShaderTree.Proofs.Tree.Nested
import ShaderTree.Stmt.Printer

/-!
# Trees under a view

The questions asked of a tree look its declarations up, and a look-up can fail.  A view answers for
every handle.  Where the look-up gives what the view gives, for each handle that the tree holds, no
question fails, and the answer is the one found under the view.  A store gives rise to a view, and
the two agree on every tree whose handles name slots of the store.
-/

namespace ShaderTree

/-- A declaration for every handle. -/
abbrev View := Handle → Declaration

/-- The declarations of a store; a handle without a slot stands for a declaration of nothing. -/
def Declarations.view (declarations : Declarations) : View := fun handle =>
  (declarations.get? handle).getD ⟨{}, .single .void .nowhere, [], .nowhere⟩

namespace Stmt

/-- Every handle that a tree holds names a slot of a store. -/
def InRange (declarations : Declarations) (stmt : Stmt) : Prop :=
  ∀ handle ∈ stmt.handles, handle.slot < declarations.size

/-- A look-up gives what a view gives, for each handle that a tree holds. -/
def Answered {m : Type → Type} [Monad m] (look : Lookup m) (view : View) (stmt : Stmt) : Prop :=
  ∀ handle ∈ stmt.handles, look handle = pure (view handle)

/-- In range of a store, fetching gives what the view of the store gives. -/
theorem InRange.answered {declarations : Declarations} {stmt : Stmt}
    (inRange : stmt.InRange declarations) : stmt.Answered declarations.fetch declarations.view := by
  intro handle held
  obtain ⟨declaration, same⟩ := Store.exists_get?_of_lt (inRange handle held)
  rw [Store.fetch_eq_ok_iff.2 same, Declarations.view, same]
  rfl

section Answered

variable {m : Type → Type} [Monad m] {look : Lookup m} {view : View} {stmt : Stmt}

theorem Answered.own (answered : stmt.Answered look view) {handle : Handle}
    (holds : stmt.handle? = some handle) : look handle = pure (view handle) :=
  answered handle (mem_handles.2 (.inl holds))

theorem Answered.declare {handle : Handle} {span : Span}
    (answered : Answered look view (.simple (.declare handle) span)) :
    look handle = pure (view handle) :=
  answered.own rfl

theorem Answered.nested (answered : stmt.Answered look view) {below : Stmt}
    (within : below ∈ stmt.nested) : below.Answered look view :=
  fun handle held => answered handle (mem_handles.2 (.inr ⟨below, within, held⟩))

/-- A node of a tree is answered for where the tree is. -/
theorem Answered.node {stmt node : Stmt} (answered : stmt.Answered look view)
    (within : node ∈ stmt.nodes) : node.Answered look view := by
  induction stmt using nestedInduction with
  | step stmt ih =>
      rw [nodes_eq] at within
      rcases List.mem_cons.1 within with same | below
      · exact same ▸ answered
      · obtain ⟨stmt, nested, within⟩ := List.mem_flatMap.1 below
        exact ih stmt nested (answered.nested nested) within

end Answered

/-! ## The answers under a view -/

section View

variable (view : View)

/-- Whether leaving out a statement could not be observed. -/
def idle (stmt : Stmt) : Bool :=
  (stmt.isEmpty (m := Id) view).run

/-- Whether an expression of a tree mentions a variable. -/
def usesName (stmt : Stmt) (name : String) : Bool :=
  (stmt.mentions (m := Id) view name).run

/-- Whether an expression that a statement holds itself mentions a variable. -/
def usesNameItself (stmt : Stmt) (name : String) : Bool :=
  (stmt.mentionsItself (m := Id) view name).run

/-- The text of a statement. -/
def textUnder (stmt : Stmt) : String :=
  (stmt.text (m := Id) view).run

variable {view}

theorem allEmpty_run (stmts : List Stmt) :
    (allEmpty (m := Id) view stmts).run = stmts.all (idle view) := by
  induction stmts with
  | nil => rfl
  | cons first rest ih =>
      rw [List.all_cons, ← ih, idle, allEmpty, Id.run_bind]
      cases (first.isEmpty (m := Id) view).run <;> rfl

@[simp] theorem idle_block (stmts : List Stmt) (span : Span) :
    idle view (.block stmts span) = stmts.all (idle view) :=
  allEmpty_run stmts

@[simp] theorem idle_nop (span : Span) : idle view (.nop span) = true :=
  rfl

@[simp] theorem idle_declare (handle : Handle) (span : Span) :
    idle view (.simple (.declare handle) span) = (view handle).isEmpty :=
  rfl

@[simp] theorem anyM_run {α : Type} (values : List α) (test : α → Id Bool) :
    (values.anyM test).run = values.any fun value => (test value).run := by
  induction values with
  | nil => rfl
  | cons first rest ih =>
      rw [List.any_cons, ← ih, List.anyM_cons, Id.run_bind]
      cases (test first).run <;> rfl

theorem usesName_eq_any_nodes (stmt : Stmt) (name : String) :
    stmt.usesName view name = stmt.nodes.any fun node => node.usesNameItself view name :=
  anyM_run ..

/-- A tree uses a name where its root does or where a statement nested in the root does. -/
theorem usesName_eq (stmt : Stmt) (name : String) :
    stmt.usesName view name =
      (stmt.usesNameItself view name || stmt.nested.any fun below => below.usesName view name) := by
  rw [usesName_eq_any_nodes, nodes_eq, List.any_cons, List.any_flatMap]
  simp only [usesName_eq_any_nodes]

@[simp] theorem usesName_evaluate (expr : Expr) (span : Span) (name : String) :
    usesName view (.simple (.evaluate expr) span) name = expr.mentions name := by
  rw [usesName_eq]
  exact Bool.or_false _

@[simp] theorem usesName_return (value : Option Expr) (span : Span) (name : String) :
    usesName view (.simple (.return value) span) name = value.any (Expr.mentions name) := by
  rw [usesName_eq]
  exact Bool.or_false _

@[simp] theorem usesName_declare (handle : Handle) (span : Span) (name : String) :
    usesName view (.simple (.declare handle) span) name = (view handle).mentions name := by
  rw [usesName_eq]
  exact Bool.or_false _

@[simp] theorem usesName_block (stmts : List Stmt) (span : Span) (name : String) :
    usesName view (.block stmts span) name = stmts.any fun stmt => stmt.usesName view name := by
  rw [usesName_eq]
  rfl

@[simp] theorem usesName_doWhile (body : Stmt) (test : Expr) (span : Span) (name : String) :
    usesName view (.doWhile body test span) name =
      (test.mentions name || body.usesName view name) := by
  rw [usesName_eq]
  exact congrArg (test.mentions name || ·) (Bool.or_false _)

@[simp] theorem usesName_forLoop (start : Option Stmt) (test next : Option Expr) (body : Stmt)
    (span : Span) (name : String) :
    usesName view (.forLoop start test next body span) name =
      ((test.any (Expr.mentions name) || next.any (Expr.mentions name)) ||
        (start.any (fun stmt => stmt.usesName view name) || body.usesName view name)) := by
  rw [usesName_eq]
  cases start <;> simp [nested, usesNameItself, mentionsItself]

@[simp] theorem usesName_choice (isStatic : Bool) (test : Expr) (yes : Stmt) (no : Option Stmt)
    (span : Span) (name : String) :
    usesName view (.choice isStatic test yes no span) name =
      (test.mentions name ||
        (yes.usesName view name || no.any fun stmt => stmt.usesName view name)) := by
  rw [usesName_eq]
  cases no <;> simp [nested, usesNameItself, mentionsItself]

@[simp] theorem usesName_switch (isStatic : Bool) (value : Expr) (cases : List Case) (span : Span)
    (name : String) :
    usesName view (.switch isStatic value cases span) name =
      ((value.mentions name || cases.any fun each => each.label.any (Expr.mentions name)) ||
        (cases.flatMap Case.stmts).any fun stmt => stmt.usesName view name) := by
  rw [usesName_eq]
  rfl

@[simp] theorem usesName_whileLoop (test : Expr) (body : Stmt) (span : Span) (name : String) :
    usesName view (.whileLoop test body span) name =
      (test.mentions name || body.usesName view name) := by
  rw [usesName_eq]
  exact congrArg (test.mentions name || ·) (Bool.or_false _)

end View

end Stmt

/-! ## Look-ups that a view answers for -/

section Answered

variable {m : Type → Type} [Monad m] [LawfulMonad m] {look : Lookup m} {view : View}

theorem anyM_eq_pure {α : Type} {values : List α} {test : α → m Bool} {holds : α → Bool}
    (agree : ∀ value ∈ values, test value = pure (holds value)) :
    values.anyM test = pure (values.any holds) := by
  induction values with
  | nil => rfl
  | cons first rest ih =>
      rw [List.forall_mem_cons] at agree
      rw [List.anyM_cons, agree.1, pure_bind, ih agree.2, List.any_cons]
      cases holds first <;> rfl

namespace Stmt

theorem allEmpty_eq_pure {stmts : List Stmt}
    (agree : ∀ stmt ∈ stmts, stmt.isEmpty look = pure (stmt.idle view)) :
    allEmpty look stmts = pure (stmts.all (idle view)) := by
  induction stmts with
  | nil => rfl
  | cons first rest ih =>
      rw [List.forall_mem_cons] at agree
      rw [allEmpty, agree.1, pure_bind, ih agree.2, List.all_cons]
      cases first.idle view <;> rfl

theorem isEmpty_eq_pure {stmt : Stmt} (answered : stmt.Answered look view) :
    stmt.isEmpty look = pure (stmt.idle view) := by
  induction stmt using Stmt.induction with
  | simple form span =>
      cases form with
      | declare handle =>
          simp only [isEmpty, Simple.isEmpty, answered.declare, pure_bind]
          rfl
      | _ => rfl
  | block stmts span ih =>
      rw [idle_block]
      exact allEmpty_eq_pure fun stmt within => ih stmt within (answered.nested within)
  | _ => rfl

theorem mentionsItself_eq_pure {stmt : Stmt} (answered : stmt.Answered look view)
    (name : String) : stmt.mentionsItself look name = pure (stmt.usesNameItself view name) := by
  cases stmt with
  | simple form span =>
      cases form with
      | declare handle =>
          simp only [mentionsItself, Simple.mentions, answered.declare, pure_bind]
          rfl
      | _ => rfl
  | _ => rfl

theorem mentions_eq_pure {stmt : Stmt} (answered : stmt.Answered look view) (name : String) :
    stmt.mentions look name = pure (stmt.usesName view name) := by
  rw [usesName_eq_any_nodes]
  exact anyM_eq_pure fun node within => mentionsItself_eq_pure (answered.node within) name

theorem textOfList_eq_pure (stmts : List Stmt)
    (agree : ∀ stmt ∈ stmts, stmt.text look = pure (stmt.textUnder view)) :
    textOfList look stmts = pure (textOfList (m := Id) view stmts).run := by
  induction stmts with
  | nil => rfl
  | cons first rest ih =>
      rw [List.forall_mem_cons] at agree
      simp only [textOfList, agree.1, ih agree.2, pure_bind]
      rfl

theorem textOfCases_eq_pure (cases : List Case)
    (agree : ∀ stmt ∈ cases.flatMap Case.stmts, stmt.text look = pure (stmt.textUnder view)) :
    textOfCases look cases = pure (textOfCases (m := Id) view cases).run := by
  induction cases with
  | nil => rfl
  | cons first rest ih =>
      obtain ⟨label, stmts⟩ := first
      rw [List.flatMap_cons, List.forall_mem_append] at agree
      simp only [textOfCases, textOfList_eq_pure stmts agree.1, ih agree.2, pure_bind]
      rfl

theorem text_eq_pure {stmt : Stmt} (answered : stmt.Answered look view) :
    stmt.text look = pure (stmt.textUnder view) := by
  induction stmt using nestedInduction with
  | step stmt ih =>
      have nested : ∀ below ∈ stmt.nested, below.text look = pure (below.textUnder view) :=
        fun below within => ih below within (answered.nested within)
      cases stmt with
      | simple form span =>
          cases form with
          | declare handle =>
              simp only [text, Simple.text, answered.declare, pure_bind]
              rfl
          | «return» value => cases value <;> rfl
          | _ => rfl
      | block stmts span =>
          simp only [text, textOfList_eq_pure stmts nested, pure_bind]
          rfl
      | switch isStatic value cases span =>
          simp only [text, textOfCases_eq_pure cases nested, pure_bind]
          rfl
      | forLoop start test next body span =>
          cases start <;> simp only [Stmt.nested, Option.toList, List.forall_mem_cons,
            List.cons_append, List.nil_append] at nested
          · simp only [text, nested.1, pure_bind]
            rfl
          · simp only [text, nested.1, nested.2.1, pure_bind]
            rfl
      | choice isStatic test yes no span =>
          cases no <;> simp only [Stmt.nested, Option.toList, List.forall_mem_cons] at nested
          · simp only [text, nested.1, pure_bind]
            rfl
          · simp only [text, nested.1, nested.2.1, pure_bind]
            rfl
      | doWhile body test span =>
          simp only [text, nested body (List.mem_singleton_self body), pure_bind]
          rfl
      | whileLoop test body span =>
          simp only [text, nested body (List.mem_singleton_self body), pure_bind]
          rfl

end Stmt

end Answered

end ShaderTree
