import ShaderTree.Proofs.Tree.View

/-!
# Relabelled trees

A tree is relabelled by a change of handles: each statement that holds a declaration comes to hold
the one that the change gives for it, and all else stays.  A handle is seen by no question that is
asked of a tree, only what it is looked up to is.  So a relabelled tree answers under a look-up as
the tree itself answers under the look-up behind the change.
-/

namespace ShaderTree

section Relabeling

variable (change : Handle → Handle)

/-- A simple statement with its handle changed. -/
def Simple.relabeled : Simple → Simple
  | .declare handle => .declare (change handle)
  | form => form

/-- Changes the handle that a statement holds itself. -/
def Stmt.relabeling (stmt : Stmt) : Edit :=
  match stmt.handle? with
  | some handle => .become (.declare (change handle)) stmt.span
  | none => .keep stmt.span

/-- The tree with its handles changed. -/
def Stmt.relabeled (stmt : Stmt) : Stmt :=
  (stmt.rewrite (m := Id) fun stmt => pure (stmt.relabeling change)).run

end Relabeling

variable {change : Handle → Handle}

/-! ## Forms -/

theorem Stmt.rewriteList_run (visit : Stmt → Id Edit) (stmts : List Stmt) :
    (rewriteList visit stmts).run = stmts.map fun stmt => (stmt.rewrite visit).run := by
  induction stmts with
  | nil => rfl
  | cons first rest ih =>
      rw [List.map_cons, ← ih]
      rfl

/-- A case with the handles of its statements changed. -/
def Case.relabeled (change : Handle → Handle) (each : Case) : Case :=
  .mk each.label (each.stmts.map (Stmt.relabeled change))

theorem Stmt.rewriteCases_relabeling (cases : List Case) :
    (rewriteCases (m := Id) (fun stmt => pure (stmt.relabeling change)) cases).run =
      cases.map (Case.relabeled change) := by
  induction cases with
  | nil => rfl
  | cons first rest ih =>
      obtain ⟨label, stmts⟩ := first
      have stmts_eq := rewriteList_run (fun stmt => pure (stmt.relabeling change)) stmts
      rw [List.map_cons, ← ih]
      exact congrArg (fun stmts => Case.mk label stmts :: _) stmts_eq

namespace Stmt

@[simp] theorem relabeled_simple (form : Simple) (span : Span) :
    relabeled change (.simple form span) = .simple (form.relabeled change) span := by
  cases form <;> rfl

@[simp] theorem relabeled_block (stmts : List Stmt) (span : Span) :
    relabeled change (.block stmts span) = .block (stmts.map (relabeled change)) span :=
  congrArg (Stmt.block · span) (rewriteList_run _ stmts)

@[simp] theorem relabeled_doWhile (body : Stmt) (test : Expr) (span : Span) :
    relabeled change (.doWhile body test span) = .doWhile (body.relabeled change) test span :=
  rfl

@[simp] theorem relabeled_forLoop (start : Option Stmt) (test next : Option Expr) (body : Stmt)
    (span : Span) :
    relabeled change (.forLoop start test next body span) =
      .forLoop (start.map (relabeled change)) test next (body.relabeled change) span := by
  cases start <;> rfl

@[simp] theorem relabeled_choice (isStatic : Bool) (test : Expr) (yes : Stmt) (no : Option Stmt)
    (span : Span) :
    relabeled change (.choice isStatic test yes no span) =
      .choice isStatic test (yes.relabeled change) (no.map (relabeled change)) span := by
  cases no <;> rfl

@[simp] theorem relabeled_switch (isStatic : Bool) (value : Expr) (cases : List Case)
    (span : Span) :
    relabeled change (.switch isStatic value cases span) =
      .switch isStatic value (cases.map (Case.relabeled change)) span :=
  congrArg (Stmt.switch isStatic value · span) (rewriteCases_relabeling cases)

@[simp] theorem relabeled_whileLoop (test : Expr) (body : Stmt) (span : Span) :
    relabeled change (.whileLoop test body span) = .whileLoop test (body.relabeled change) span :=
  rfl

/-! ## Nodes -/

@[simp] theorem span_relabeled (stmt : Stmt) : (stmt.relabeled change).span = stmt.span := by
  cases stmt <;> simp [span]

@[simp] theorem kind_relabeled (stmt : Stmt) : (stmt.relabeled change).kind = stmt.kind := by
  cases stmt with
  | simple form span => cases form <;> rfl
  | _ => simp [kind]

@[simp] theorem handle?_relabeled (stmt : Stmt) :
    (stmt.relabeled change).handle? = stmt.handle?.map change := by
  cases stmt with
  | simple form span => cases form <;> rfl
  | _ => simp [handle?]

@[simp] theorem stmts_relabeled (cases : List Case) :
    (cases.map (Case.relabeled change)).flatMap Case.stmts =
      (cases.flatMap Case.stmts).map (relabeled change) := by
  rw [List.flatMap_map, List.map_flatMap]
  rfl

@[simp] theorem nested_relabeled (stmt : Stmt) :
    (stmt.relabeled change).nested = stmt.nested.map (relabeled change) := by
  cases stmt with
  | simple form span => rw [relabeled_simple]; rfl
  | forLoop start test next body span => cases start <;> rfl
  | choice isStatic test yes no span => cases no <;> rfl
  | switch isStatic value cases span => rw [relabeled_switch]; exact stmts_relabeled cases
  | block stmts span => rw [relabeled_block]; rfl
  | _ => rfl

/-- A walk of the relabelled tree visits the relabelled statements. -/
theorem nodes_relabeled (stmt : Stmt) :
    (stmt.relabeled change).nodes = stmt.nodes.map (relabeled change) := by
  induction stmt using nestedInduction with
  | step stmt ih =>
      rw [nodes_eq, nodes_eq stmt, List.map_cons, List.map_flatMap, nested_relabeled,
        List.flatMap_map]
      refine congrArg (_ :: ·) ?_
      rw [List.flatMap_def, List.flatMap_def, List.map_congr_left ih]

/-- A change that leaves the handles of a tree alone leaves the tree alone. -/
theorem relabeled_eq_self {stmt : Stmt} (same : ∀ handle ∈ stmt.handles, change handle = handle) :
    stmt.relabeled change = stmt := by
  have map_eq {stmts : List Stmt} (each : ∀ stmt ∈ stmts, stmt.relabeled change = stmt) :
      stmts.map (relabeled change) = stmts :=
    (List.map_congr_left each).trans (List.map_id _)
  induction stmt using nestedInduction with
  | step stmt ih =>
      have below : ∀ below ∈ stmt.nested, below.relabeled change = below := by
        intro below within
        refine ih below within fun handle held => ?_
        exact same handle (mem_handles.2 (.inr ⟨below, within, held⟩))
      clear ih
      cases stmt with
      | simple form span =>
          cases form with
          | declare handle =>
              rw [relabeled_simple, Simple.relabeled, same handle (mem_handles.2 (.inl rfl))]
          | _ => rfl
      | block stmts span =>
          rw [relabeled_block]
          exact congrArg (Stmt.block · span) (map_eq below)
      | doWhile body test span => rw [relabeled_doWhile, below body (List.mem_singleton_self body)]
      | forLoop start test next body span =>
          have ofBody := below body (List.mem_append_right _ (List.mem_singleton_self body))
          cases start with
          | none => rw [relabeled_forLoop, Option.map_none, ofBody]
          | some start =>
              rw [relabeled_forLoop, Option.map_some, below start List.mem_cons_self, ofBody]
      | choice isStatic test yes no span =>
          have ofYes := below yes List.mem_cons_self
          cases no with
          | none => rw [relabeled_choice, Option.map_none, ofYes]
          | some no =>
              rw [relabeled_choice, Option.map_some, ofYes,
                below no (List.mem_cons_of_mem _ (List.mem_singleton_self no))]
      | switch isStatic value cases span =>
          have each : ∀ each ∈ cases, each.relabeled change = each := by
            rintro ⟨label, stmts⟩ inCases
            refine congrArg (Case.mk label) (map_eq fun stmt within => ?_)
            exact below stmt (List.mem_flatMap.2 ⟨_, inCases, within⟩)
          have all : cases.map (Case.relabeled change) = cases :=
            (List.map_congr_left each).trans (List.map_id _)
          rw [relabeled_switch, all]
      | whileLoop test body span =>
          rw [relabeled_whileLoop, below body (List.mem_singleton_self body)]

/-! ## Answers -/

section Answers

variable {m : Type → Type} [Monad m] (look : Lookup m)

theorem allEmpty_relabeled {stmts : List Stmt}
    (same : ∀ stmt ∈ stmts, (stmt.relabeled change).isEmpty look = stmt.isEmpty (look ∘ change)) :
    allEmpty look (stmts.map (relabeled change)) = allEmpty (look ∘ change) stmts := by
  induction stmts with
  | nil => rfl
  | cons first rest ih =>
      rw [List.forall_mem_cons] at same
      rw [List.map_cons, allEmpty, allEmpty, same.1, ih same.2]

theorem isEmpty_relabeled (stmt : Stmt) :
    (stmt.relabeled change).isEmpty look = stmt.isEmpty (look ∘ change) := by
  induction stmt using Stmt.induction with
  | simple form span => cases form <;> rfl
  | block stmts span ih => rw [relabeled_block, isEmpty, isEmpty, allEmpty_relabeled look ih]
  | forLoop start test next body span => rw [relabeled_forLoop]; rfl
  | choice isStatic test yes no span => rw [relabeled_choice]; rfl
  | switch isStatic value cases span => rw [relabeled_switch]; rfl
  | _ => rfl

theorem mentionsItself_relabeled (stmt : Stmt) (name : String) :
    (stmt.relabeled change).mentionsItself look name =
      stmt.mentionsItself (look ∘ change) name := by
  cases stmt with
  | simple form span => cases form <;> rfl
  | block stmts span => rw [relabeled_block]; rfl
  | forLoop start test next body span => rw [relabeled_forLoop]; rfl
  | choice isStatic test yes no span => rw [relabeled_choice]; rfl
  | switch isStatic value cases span =>
      rw [relabeled_switch, mentionsItself, mentionsItself, List.any_map]
      rfl
  | _ => rfl

theorem mentions_relabeled (stmt : Stmt) (name : String) :
    (stmt.relabeled change).mentions look name = stmt.mentions (look ∘ change) name := by
  rw [mentions, mentions, nodes_relabeled]
  induction stmt.nodes with
  | nil => rfl
  | cons first rest ih =>
      rw [List.map_cons, List.anyM_cons, List.anyM_cons, mentionsItself_relabeled, ih]

theorem textOfList_relabeled {stmts : List Stmt}
    (same : ∀ stmt ∈ stmts, (stmt.relabeled change).text look = stmt.text (look ∘ change)) :
    textOfList look (stmts.map (relabeled change)) = textOfList (look ∘ change) stmts := by
  induction stmts with
  | nil => rfl
  | cons first rest ih =>
      rw [List.forall_mem_cons] at same
      rw [List.map_cons, textOfList, textOfList, same.1, ih same.2]

theorem textOfCases_relabeled {cases : List Case}
    (same : ∀ each ∈ cases, ∀ stmt ∈ each.stmts,
      (stmt.relabeled change).text look = stmt.text (look ∘ change)) :
    textOfCases look (cases.map (Case.relabeled change)) = textOfCases (look ∘ change) cases := by
  induction cases with
  | nil => rfl
  | cons first rest ih =>
      obtain ⟨label, stmts⟩ := first
      obtain ⟨inFirst, inRest⟩ := List.forall_mem_cons.1 same
      have texts : textOfList look (stmts.map (relabeled change)) =
          textOfList (look ∘ change) stmts :=
        textOfList_relabeled look inFirst
      rw [List.map_cons, Case.relabeled, textOfCases, textOfCases, ih inRest]
      exact congrArg (· >>= _) texts

theorem text_relabeled (stmt : Stmt) :
    (stmt.relabeled change).text look = stmt.text (look ∘ change) := by
  induction stmt using Stmt.induction with
  | simple form span =>
      cases form with
      | «return» value => cases value <;> rfl
      | _ => rfl
  | block stmts span ih => rw [relabeled_block, text, text, textOfList_relabeled look ih]
  | doWhile body test span ih => rw [relabeled_doWhile, text, text, ih]
  | forLoop start test next body span ihStart ihBody =>
      rw [relabeled_forLoop]
      cases start with
      | none => rw [Option.map_none, text, text, ihBody]
      | some start => rw [Option.map_some, text, text, ihStart start rfl, ihBody]
  | choice isStatic test yes no span ihYes ihNo =>
      rw [relabeled_choice]
      cases no with
      | none => rw [Option.map_none, text, text, ihYes]
      | some branch => rw [Option.map_some, text, text, ihYes, ihNo branch rfl]
  | switch isStatic value cases span ih =>
      rw [relabeled_switch, text, text, textOfCases_relabeled look ih]
  | whileLoop test body span ih => rw [relabeled_whileLoop, text, text, ih]

end Answers

section View

variable {view : View}

@[simp] theorem idle_relabeled (stmt : Stmt) :
    (stmt.relabeled change).idle view = stmt.idle (view ∘ change) :=
  isEmpty_relabeled (m := Id) view stmt

@[simp] theorem usesName_relabeled (stmt : Stmt) (name : String) :
    (stmt.relabeled change).usesName view name = stmt.usesName (view ∘ change) name :=
  mentions_relabeled (m := Id) view stmt name

@[simp] theorem textUnder_relabeled (stmt : Stmt) :
    (stmt.relabeled change).textUnder view = stmt.textUnder (view ∘ change) :=
  text_relabeled (m := Id) view stmt

end View

end Stmt

end ShaderTree
