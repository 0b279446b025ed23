import ShaderTree.Proofs.Tree.Written

/-!
# Walking and rewriting

A walk lists the statements of a tree, and a rewriting walk shows them to a visitor.  The visitor has a state
of its own, and it may move each statement that it is shown, or put a statement with nothing nested in it in
the place.  What it is shown is described by a list of statements that wait: the first one is shown, and what
is nested in it waits in front of all others, unless the visitor took the statement away.

The two walks agree.  What the visitor leaves of the statements, in the order in which it is shown them, is
what a walk of the rewritten tree lists; and a visitor that takes no statement away is shown what a walk of
the given tree lists.
-/

namespace ShaderTree

namespace Stmt

/-- The same statement at another span. -/
def withSpan (span : Span) : Stmt → Stmt
  | .simple form _ => .simple form span
  | .block stmts _ => .block stmts span
  | .doWhile body test _ => .doWhile body test span
  | .forLoop start test next body _ => .forLoop start test next body span
  | .choice isStatic test yes no _ => .choice isStatic test yes no span
  | .switch isStatic value cases _ => .switch isStatic value cases span
  | .whileLoop test body _ => .whileLoop test body span

/-- The kind of a statement and where it is written. -/
def tag (stmt : Stmt) : StmtKind × Span :=
  (stmt.kind, stmt.span)

@[simp] theorem tag_withSpan (stmt : Stmt) (span : Span) :
    (stmt.withSpan span).tag = (stmt.kind, span) := by
  cases stmt <;> rfl

/-- There is nothing below a statement with nothing nested in it. -/
theorem nested_of_isLeaf {stmt : Stmt} (leaf : stmt.isLeaf = true) : stmt.nested = [] := by
  cases stmt with
  | simple form span => rfl
  | block stmts span => exact List.isEmpty_iff.1 leaf
  | switch isStatic value cases span =>
      rw [isLeaf, List.all_eq_true] at leaf
      exact List.flatMap_eq_nil_iff.2 fun each listed => List.isEmpty_iff.1 (leaf each listed)
  | _ => cases leaf

end Stmt

/-! ## What a visitor is shown -/

/-- What an edit makes of a statement, before anything that is nested in it is visited. -/
def Edit.apply (stmt : Stmt) : Edit → Stmt
  | .keep span => stmt.withSpan span
  | .replace other _ => other

/-- A statement that a visitor was shown, and the edit that the visitor answered with. -/
structure Visit where
  shown : Stmt
  edit : Edit

namespace Visit

/-- The statement as the visitor left it. -/
def left (visit : Visit) : Stmt :=
  visit.edit.apply visit.shown

/-- The visitor took no statement away: it moved it at most, or changed the handle that it holds. -/
inductive Stays : Visit → Prop where
  | keep (stmt : Stmt) (span : Span) : Stays ⟨stmt, .keep span⟩
  | repoint (old new : Handle) (before after : Span) :
      Stays ⟨.simple (.declare old) before, .become (.declare new) after⟩

end Visit

section Visitors

variable {σ : Type} (visit : Stmt → StateM σ Edit)

/-- The visitor, with a list of its visits beside its own state. -/
def recording (stmt : Stmt) : StateM (σ × List Visit) Edit := fun (state, visits) =>
  let (edit, next) := (visit stmt).run state
  (edit, next, visits ++ [⟨stmt, edit⟩])

/--
The visits of a visitor while the statements of a list wait to be shown to it, with its state before the
first visit and behind the last one.
-/
inductive Meets : List Stmt → σ → List Visit → σ → Prop where
  | done (state : σ) : Meets [] state [] state
  | keep {stmt : Stmt} {waiting : List Stmt} {state next last : σ} {span : Span}
      {visits : List Visit} (answered : (visit stmt).run state = (.keep span, next))
      (more : Meets (stmt.nested ++ waiting) next visits last) :
      Meets (stmt :: waiting) state (⟨stmt, .keep span⟩ :: visits) last
  | replace {stmt other : Stmt} {waiting : List Stmt} {state next last : σ} {leaf : other.isLeaf}
      {visits : List Visit} (answered : (visit stmt).run state = (.replace other leaf, next))
      (more : Meets waiting next visits last) :
      Meets (stmt :: waiting) state (⟨stmt, .replace other leaf⟩ :: visits) last

variable {visit}

theorem run_recording {stmt : Stmt} {state next : σ} {edit : Edit}
    (answered : (visit stmt).run state = (edit, next)) (before : List Visit) :
    (recording visit stmt).run (state, before) = (edit, next, before ++ [⟨stmt, edit⟩]) := by
  change (let (edit, next) := (visit stmt).run state; (edit, next, before ++ [Visit.mk stmt edit])) = _
  rw [answered]

namespace Meets

theorem append {first second : List Stmt} {state middle last : σ} {visits more : List Visit}
    (meets : Meets visit first state visits middle) (behind : Meets visit second middle more last) :
    Meets visit (first ++ second) state (visits ++ more) last := by
  induction meets with
  | done => exact behind
  | keep answered _ ih =>
      exact .keep answered (List.append_assoc .. ▸ ih behind)
  | replace answered _ ih => exact .replace answered (ih behind)

/-- Each statement of a tree is shown at most once, and in the order of a walk. -/
theorem sublist {waiting : List Stmt} {state last : σ} {visits : List Visit}
    (meets : Meets visit waiting state visits last) :
    (visits.map Visit.shown).Sublist (waiting.flatMap Stmt.nodes) := by
  induction meets with
  | done => exact List.Sublist.refl _
  | @keep stmt waiting _ _ _ _ _ _ _ ih =>
      rw [List.flatMap_append] at ih
      rw [List.flatMap_cons, Stmt.nodes_eq]
      exact ih.cons_cons stmt
  | @replace stmt _ waiting _ _ _ _ _ _ _ ih =>
      rw [List.flatMap_cons, Stmt.nodes_eq]
      exact (ih.trans (List.sublist_append_right _ _)).cons_cons stmt

/-- Where no statement is taken away, all statements are shown. -/
theorem shown_eq {waiting : List Stmt} {state last : σ} {visits : List Visit}
    (meets : Meets visit waiting state visits last) (stay : ∀ each ∈ visits, each.Stays) :
    visits.map Visit.shown = waiting.flatMap Stmt.nodes := by
  induction meets with
  | done => rfl
  | keep _ _ ih =>
      have rest := ih fun each listed => stay each (List.mem_cons_of_mem _ listed)
      rw [List.flatMap_append] at rest
      rw [List.flatMap_cons, Stmt.nodes_eq, List.map_cons, rest, List.cons_append]
  | replace _ _ ih =>
      have rest := ih fun each listed => stay each (List.mem_cons_of_mem _ listed)
      -- Only a statement that holds a declaration is changed in another way than by moving it.
      cases stay _ List.mem_cons_self
      rw [List.map_cons, rest]
      rfl

end Meets

/-! ## One walk and the other -/

section Walks

variable {α β γ : Type}

/--
From a state, an action walks the statements of a value: it comes back with `left`, and its visitor is shown
what `visits` lists.  Recording the visits changes neither.
-/
structure Walked (visit : Stmt → StateM σ Edit) (stmtsOf : α → List Stmt) (given : α)
    (action : StateM σ α) (recorded : StateM (σ × List Visit) α) (state : σ) (left : α)
    (visits : List Visit) (last : σ) : Prop where
  ran : action.run state = (left, last)
  recorded : ∀ before, recorded.run (state, before) = (left, last, before ++ visits)
  meets : Meets visit (stmtsOf given) state visits last
  tags : ((stmtsOf left).flatMap Stmt.nodes).map Stmt.tag = visits.map fun each => each.left.tag
  same : (∀ each ∈ visits, each.left = each.shown) → left = given

/-- From every state, an action walks the statements of a value. -/
def Walks (visit : Stmt → StateM σ Edit) (stmtsOf : α → List Stmt) (given : α)
    (action : StateM σ α) (recorded : StateM (σ × List Visit) α) : Prop :=
  ∀ state, ∃ left visits last, Walked visit stmtsOf given action recorded state left visits last

namespace Walks

variable {stmtsOf : α → List Stmt} {given : α} {action : StateM σ α}
  {recorded : StateM (σ × List Visit) α}

/-- Where there are no statements, none is shown. -/
theorem nil (stmtsOf : α → List Stmt) (given : α) (empty : stmtsOf given = []) :
    Walks visit stmtsOf given (pure given) (pure given) := by
  intro state
  refine ⟨given, [], state, rfl, fun before => ?_, ?_, ?_, fun _ => rfl⟩
  · rw [List.append_nil]
    rfl
  · rw [empty]
    exact .done state
  · rw [empty]
    rfl

/-- Of two walks, one after the other, the visits follow each other. -/
theorem both {second : β → List Stmt} {other : β} {next : StateM σ β}
    {recordedNext : StateM (σ × List Visit) β} (others : γ → List Stmt) (form : α → β → γ)
    (walks : Walks visit stmtsOf given action recorded)
    (behind : Walks visit second other next recordedNext)
    (holds : ∀ value more, others (form value more) = stmtsOf value ++ second more) :
    Walks visit others (form given other) (do return form (← action) (← next))
      (do return form (← recorded) (← recordedNext)) := by
  intro state
  obtain ⟨left, visits, middle, walked⟩ := walks state
  obtain ⟨leftBehind, more, last, walkedBehind⟩ := behind middle
  refine ⟨form left leftBehind, visits ++ more, last, ?_, fun before => ?_, ?_, ?_, fun same => ?_⟩
  · rw [StateT.run_bind, walked.ran]
    change StateT.run (next >>= _) middle = _
    rw [StateT.run_bind, walkedBehind.ran]
    rfl
  · rw [StateT.run_bind, walked.recorded]
    change StateT.run (recordedNext >>= _) (middle, before ++ visits) = _
    rw [StateT.run_bind, walkedBehind.recorded, List.append_assoc]
    rfl
  · rw [holds]
    exact walked.meets.append walkedBehind.meets
  · rw [holds, List.flatMap_append, List.map_append, List.map_append, walked.tags,
      walkedBehind.tags]
  · rw [List.forall_mem_append] at same
    rw [walked.same same.1, walkedBehind.same same.2]

/--
A statement is walked by showing it and then walking what is nested in it, from which `form` builds it
again at the span that the visitor gave it.
-/
theorem settle (stmt : Stmt) (form : Span → α → Stmt)
    (walks : Walks visit stmtsOf given action recorded)
    (nested : ∀ span value, (form span value).nested = stmtsOf value)
    (tag : ∀ span value, (form span value).tag = (stmt.kind, span))
    (rebuilt : ∀ span, form span given = stmt.withSpan span) :
    Walks visit (fun stmt => [stmt]) stmt
      (do (← visit stmt).settle fun span => do return form span (← action))
      (do (← recording visit stmt).settle fun span => do return form span (← recorded)) := by
  intro state
  have below : stmt.nested = stmtsOf given := by
    rw [← nested stmt.span given, rebuilt]
    cases stmt <;> rfl
  cases answered : (visit stmt).run state with
  | mk edit next =>
      cases edit with
      | keep span =>
          obtain ⟨left, visits, last, walked⟩ := walks next
          refine ⟨form span left, ⟨stmt, .keep span⟩ :: visits, last, ?_, fun before => ?_, ?_, ?_,
            fun same => ?_⟩
          · rw [StateT.run_bind, answered]
            change StateT.run (action >>= _) next = _
            rw [StateT.run_bind, walked.ran]
            rfl
          · rw [StateT.run_bind, run_recording answered]
            change StateT.run (recorded >>= _) (next, before ++ [_]) = _
            rw [StateT.run_bind, walked.recorded, List.append_assoc]
            rfl
          · refine .keep answered ?_
            rw [List.append_nil, below]
            exact walked.meets
          · rw [List.flatMap_singleton, Stmt.nodes_eq, List.map_cons, nested, walked.tags, tag]
            exact congrArg (· :: _) (stmt.tag_withSpan span).symm
          · rw [List.forall_mem_cons] at same
            rw [walked.same same.2, rebuilt]
            exact same.1
      | replace other leaf =>
          refine ⟨other, [⟨stmt, .replace other leaf⟩], next, ?_, fun before => ?_, ?_, ?_,
            fun same => ?_⟩
          · rw [StateT.run_bind, answered]
            rfl
          · rw [StateT.run_bind, run_recording answered]
            rfl
          · exact .replace answered (.done next)
          · rw [List.flatMap_singleton, Stmt.nodes_eq, Stmt.nested_of_isLeaf leaf]
            rfl
          · exact same _ List.mem_cons_self

theorem rewriteList {stmts : List Stmt}
    (each : ∀ stmt ∈ stmts, Walks visit (fun stmt => [stmt]) stmt (stmt.rewrite visit)
      (stmt.rewrite (recording visit))) :
    Walks visit id stmts (Stmt.rewriteList visit stmts)
      (Stmt.rewriteList (recording visit) stmts) := by
  induction stmts with
  | nil => exact nil _ [] rfl
  | cons first rest ih =>
      rw [List.forall_mem_cons] at each
      exact both id List.cons each.1 (ih each.2) fun _ _ => rfl

theorem rewriteCases {cases : List Case}
    (each : ∀ stmt ∈ cases.flatMap Case.stmts, Walks visit (fun stmt => [stmt]) stmt
      (stmt.rewrite visit) (stmt.rewrite (recording visit))) :
    Walks visit (List.flatMap Case.stmts) cases (Stmt.rewriteCases visit cases)
      (Stmt.rewriteCases (recording visit) cases) := by
  induction cases with
  | nil => exact nil _ [] rfl
  | cons first rest ih =>
      obtain ⟨label, stmts⟩ := first
      rw [List.flatMap_cons, List.forall_mem_append] at each
      exact both (List.flatMap Case.stmts) (fun stmts rest => .mk label stmts :: rest)
        (rewriteList each.1) (ih each.2) fun _ _ => rfl

/-- A rewriting walk walks its statement. -/
theorem rewrite (stmt : Stmt) :
    Walks visit (fun stmt => [stmt]) stmt (stmt.rewrite visit) (stmt.rewrite (recording visit)) := by
  induction stmt using Stmt.nestedInduction with
  | step stmt ih =>
      have pair {first second : Stmt} (inFirst : first ∈ stmt.nested)
          (inSecond : second ∈ stmt.nested) :
          Walks visit (fun pair : Stmt × Stmt => [pair.1, pair.2]) (first, second)
            (do return (← first.rewrite visit, ← second.rewrite visit))
            (do return (← first.rewrite (recording visit), ← second.rewrite (recording visit))) :=
        both _ Prod.mk (ih first inFirst) (ih second inSecond) fun _ _ => rfl
      cases stmt with
      | simple form span =>
          exact settle _ (fun span _ => .simple form span) (nil (fun _ => []) () rfl)
            (fun _ _ => rfl) (fun _ _ => rfl) fun _ => rfl
      | block stmts span =>
          exact settle _ (fun span stmts => .block stmts span) (rewriteList ih)
            (fun _ _ => rfl) (fun _ _ => rfl) fun _ => rfl
      | doWhile body test span =>
          exact settle _ (fun span body => .doWhile body test span) (ih body List.mem_cons_self)
            (fun _ _ => rfl) (fun _ _ => rfl) fun _ => rfl
      | forLoop start test next body span =>
          cases start with
          | none =>
              exact settle _ (fun span body => .forLoop none test next body span)
                (ih body List.mem_cons_self) (fun _ _ => rfl) (fun _ _ => rfl) fun _ => rfl
          | some start =>
              have walks := settle (.forLoop (some start) test next body span)
                (fun span parts => .forLoop (some parts.1) test next parts.2 span)
                (pair List.mem_cons_self (List.mem_cons_of_mem _ List.mem_cons_self))
                (fun _ _ => rfl) (fun _ _ => rfl) fun _ => rfl
              simp only [bind_assoc, pure_bind] at walks
              exact walks
      | choice isStatic test yes no span =>
          cases no with
          | none =>
              exact settle _ (fun span yes => .choice isStatic test yes none span)
                (ih yes List.mem_cons_self) (fun _ _ => rfl) (fun _ _ => rfl) fun _ => rfl
          | some no =>
              have walks := settle (.choice isStatic test yes (some no) span)
                (fun span parts => .choice isStatic test parts.1 (some parts.2) span)
                (pair List.mem_cons_self (List.mem_cons_of_mem _ List.mem_cons_self))
                (fun _ _ => rfl) (fun _ _ => rfl) fun _ => rfl
              simp only [bind_assoc, pure_bind] at walks
              exact walks
      | switch isStatic value cases span =>
          exact settle _ (fun span cases => .switch isStatic value cases span) (rewriteCases ih)
            (fun _ _ => rfl) (fun _ _ => rfl) fun _ => rfl
      | whileLoop test body span =>
          exact settle _ (fun span body => .whileLoop test body span) (ih body List.mem_cons_self)
            (fun _ _ => rfl) (fun _ _ => rfl) fun _ => rfl

end Walks

end Walks

end Visitors

namespace Stmt

/--
A rewriting walk and a walk visit the same statements.  Recording the visits of a visitor does not change
what a rewriting walk comes to.  The visitor is shown each statement once, before the statements nested in it,
which are not shown if the visitor took it away; and kinds and spans of the statements, as the visitor leaves
them, are those that a walk of the rewritten tree lists, in the same order.  A visitor that takes no statement
away is shown what a walk of the given tree lists, and one that changes nothing leaves the tree as it was.
-/
theorem rewrite_visits_as_walk {σ : Type} (visit : Stmt → StateM σ Edit) (stmt : Stmt)
    (state : σ) :
    ∃ left visits last,
      (stmt.rewrite visit).run state = (left, last) ∧
        (stmt.rewrite (recording visit)).run (state, []) = (left, last, visits) ∧
        Meets visit [stmt] state visits last ∧
        (visits.map Visit.shown).Sublist stmt.nodes ∧
        left.nodes.map tag = visits.map (fun each => each.left.tag) ∧
        ((∀ each ∈ visits, each.Stays) → visits.map Visit.shown = stmt.nodes) ∧
        ((∀ each ∈ visits, each.left = each.shown) → left = stmt) := by
  have walks : Walks visit (fun stmt => [stmt]) stmt _ _ := Walks.rewrite stmt
  obtain ⟨left, visits, last, walked⟩ := walks state
  have alone : ∀ root : Stmt, [root].flatMap nodes = root.nodes := fun root => List.flatMap_singleton ..
  refine ⟨left, visits, last, walked.ran, walked.recorded [], walked.meets, ?_, ?_, ?_, walked.same⟩
  · exact alone stmt ▸ walked.meets.sublist
  · exact alone left ▸ walked.tags
  · exact fun stay => alone stmt ▸ walked.meets.shown_eq stay

/--
A visitor that counts its visits and changes every handle is shown the four statements of
`{ int x; while (x) int x; }`.
-/
theorem rewrite_visits_as_walk_of_block :
    let visit : Stmt → StateM Nat Edit := fun stmt => do
      modify (· + 1)
      return stmt.handle?.elim (.keep stmt.span) fun _ => .become (.declare (.ofSlot 1)) stmt.span
    let tree (slot : Fin 256) : Stmt :=
      .ofList [.declares slot, .whileLoop (.var "x") (.declares slot) .nowhere]
    ∃ visits,
      ((tree 0).rewrite (recording visit)).run (0, []) = (tree 1, 4, visits) ∧
        (∀ each ∈ visits, each.Stays) ∧ visits.map Visit.shown = (tree 0).nodes := by
  intro visit tree
  let visits : List Visit :=
    [⟨tree 0, .keep .nowhere⟩, ⟨.declares 0, .become (.declare (.ofSlot 1)) .nowhere⟩,
      ⟨.whileLoop (.var "x") (.declares 0) .nowhere, .keep .nowhere⟩,
      ⟨.declares 0, .become (.declare (.ofSlot 1)) .nowhere⟩]
  have ran : ((tree 0).rewrite (recording visit)).run (0, []) = (tree 1, 4, visits) := rfl
  have stay : ∀ each ∈ visits, each.Stays := by
    simp only [visits, List.forall_mem_cons]
    exact ⟨.keep .., .repoint .., .keep .., .repoint .., List.forall_mem_nil _⟩
  obtain ⟨_, _, _, -, recorded, -, -, -, shown, -⟩ := rewrite_visits_as_walk visit (tree 0) 0
  cases recorded.symm.trans ran
  exact ⟨visits, ran, stay, shown stay⟩

end Stmt

end ShaderTree
