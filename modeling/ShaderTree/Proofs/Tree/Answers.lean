import ShaderTree.Proofs.Expr.Effects
import ShaderTree.Proofs.Tree.Written

/-!
# What is asked of a tree

Two questions decide what may be done to a tree: whether leaving it out could be observed, and whether it
mentions a variable.  The first is answered by a search that goes into blocks alone and ends at the first
statement that has to stay, the second by a walk that collects nothing but a flag.

Here the two answers are described without a search.  A tree can be left out if and only if no statement in
it does anything by itself.  A tree mentions a variable if and only if a reference of that name is part of
an expression that is written in one of its statements, or in a declaration that one of them holds.
-/

namespace ShaderTree

namespace Stmt

/-! ## The statements of a tree -/

/-- A statement stands in a tree: it is the root, or it stands in one of the trees below the root. -/
inductive Contains (node : Stmt) : Stmt → Prop where
  | root : Contains node node
  | inBlock {stmts : List Stmt} {stmt : Stmt} (span : Span) (listed : stmt ∈ stmts)
      (within : Contains node stmt) : Contains node (.block stmts span)
  | doBody {body : Stmt} (test : Expr) (span : Span) (within : Contains node body) :
      Contains node (.doWhile body test span)
  | start {start : Stmt} (test next : Option Expr) (body : Stmt) (span : Span)
      (within : Contains node start) : Contains node (.forLoop (some start) test next body span)
  | forBody (start : Option Stmt) (test next : Option Expr) {body : Stmt} (span : Span)
      (within : Contains node body) : Contains node (.forLoop start test next body span)
  | yes (isStatic : Bool) (test : Expr) {yes : Stmt} (no : Option Stmt) (span : Span)
      (within : Contains node yes) : Contains node (.choice isStatic test yes no span)
  | no (isStatic : Bool) (test : Expr) (yes : Stmt) {no : Stmt} (span : Span)
      (within : Contains node no) : Contains node (.choice isStatic test yes (some no) span)
  | inCase (isStatic : Bool) (value : Expr) {cases : List Case} {each : Case} {stmt : Stmt}
      (span : Span) (listed : each ∈ cases) (belongs : stmt ∈ each.stmts)
      (within : Contains node stmt) : Contains node (.switch isStatic value cases span)
  | whileBody (test : Expr) {body : Stmt} (span : Span) (within : Contains node body) :
      Contains node (.whileLoop test body span)

theorem Contains.of_nested {node below stmt : Stmt} (nested : below ∈ stmt.nested)
    (within : Contains node below) : Contains node stmt := by
  cases stmt with
  | simple form span => cases nested
  | block stmts span => exact .inBlock span nested within
  | doWhile body test span =>
      obtain rfl := List.mem_singleton.1 nested
      exact .doBody test span within
  | forLoop start test next body span =>
      rcases List.mem_append.1 nested with inStart | inBody
      · obtain rfl := Option.mem_toList.1 inStart
        exact .start test next body span within
      · obtain rfl := List.mem_singleton.1 inBody
        exact .forBody start test next span within
  | choice isStatic test yes no span =>
      rcases List.mem_cons.1 nested with rfl | inNo
      · exact .yes isStatic test no span within
      · obtain rfl := Option.mem_toList.1 inNo
        exact .no isStatic test yes span within
  | switch isStatic value cases span =>
      obtain ⟨each, listed, belongs⟩ := List.mem_flatMap.1 nested
      exact .inCase isStatic value span listed belongs within
  | whileLoop test body span =>
      obtain rfl := List.mem_singleton.1 nested
      exact .whileBody test span within

/-- A walk visits the statements that stand in a tree, and no others. -/
theorem mem_nodes_iff {node stmt : Stmt} : node ∈ stmt.nodes ↔ Contains node stmt := by
  constructor
  · intro visited
    induction stmt using nestedInduction with
    | step stmt ih =>
        rw [nodes_eq] at visited
        rcases List.mem_cons.1 visited with rfl | later
        · exact .root
        · obtain ⟨below, nested, within⟩ := List.mem_flatMap.1 later
          exact (ih below nested within).of_nested nested
  · intro contains
    induction contains with
    | root => exact self_mem_nodes node
    | inBlock span listed within ih => exact mem_nodes_of_mem_nested listed ih
    | doBody test span within ih => exact mem_nodes_of_mem_nested List.mem_cons_self ih
    | start test next body span within ih => exact mem_nodes_of_mem_nested List.mem_cons_self ih
    | forBody start test next span within ih =>
        exact mem_nodes_of_mem_nested (List.mem_append_right _ (List.mem_singleton_self _)) ih
    | yes isStatic test no span within ih => exact mem_nodes_of_mem_nested List.mem_cons_self ih
    | no isStatic test yes span within ih =>
        exact mem_nodes_of_mem_nested (List.mem_cons_of_mem _ (List.mem_singleton_self _)) ih
    | inCase isStatic value span listed belongs within ih =>
        exact mem_nodes_of_mem_nested (List.mem_flatMap.2 ⟨_, listed, belongs⟩) ih
    | whileBody test span within ih => exact mem_nodes_of_mem_nested List.mem_cons_self ih

variable {declarations : Declarations} {stmt : Stmt}

/-- What stands in a tree in range is in range. -/
theorem InRange.node {node : Stmt} (inRange : stmt.InRange declarations)
    (visited : node ∈ stmt.nodes) {handle : Handle} (holds : node.handle? = some handle) :
    declarations.get? handle = some (declarations.view handle) :=
  Store.fetch_eq_ok_iff.1 ((inRange.answered.node visited).own holds)

/-! ## Trees that can be left out -/

/--
A statement does nothing by itself: it is the one that does nothing, it is a block, or it declares
variables none of which has an initializer.
-/
inductive Inert (declarations : Declarations) : Stmt → Prop where
  | nop (span : Span) : Inert declarations (.nop span)
  | block (stmts : List Stmt) (span : Span) : Inert declarations (.block stmts span)
  | declare {handle : Handle} {declaration : Declaration} (span : Span)
      (found : declarations.get? handle = some declaration)
      (bare : ∀ declarator ∈ declaration.declarators, declarator.value = none) :
      Inert declarations (.simple (.declare handle) span)

theorem inert_declare_iff {handle : Handle} {declaration : Declaration} {span : Span}
    (found : declarations.get? handle = some declaration) :
    Inert declarations (.simple (.declare handle) span) ↔ declaration.isEmpty = true := by
  rw [Declaration.isEmpty, List.all_eq_true]
  constructor
  · intro inert declarator listed
    cases inert with
    | declare span same bare =>
        obtain rfl := Option.some.inj (found.symm.trans same)
        exact Option.isNone_iff_eq_none.2 (bare declarator listed)
  · intro bare
    exact .declare span found fun declarator listed =>
      Option.isNone_iff_eq_none.1 (bare declarator listed)

/-- A tree can be left out if and only if each statement that a walk visits in it is inert. -/
theorem idle_iff_inert (inRange : stmt.InRange declarations) :
    stmt.idle declarations.view = true ↔ ∀ node ∈ stmt.nodes, node.Inert declarations := by
  induction stmt using nestedInduction with
  | step stmt ih =>
      have below : ∀ below ∈ stmt.nested, below.idle declarations.view = true ↔
          ∀ node ∈ below.nodes, node.Inert declarations := fun below nested =>
        ih below nested fun handle held =>
          inRange handle (mem_handles.2 (.inr ⟨below, nested, held⟩))
      rw [forall_mem_nodes_iff]
      cases stmt with
      | simple form span =>
          have own : Inert declarations (.simple form span) ↔
              idle declarations.view (.simple form span) = true := by
            cases form with
            | declare handle => exact inert_declare_iff (inRange.node (self_mem_nodes _) rfl)
            | nop => exact iff_of_true (.nop span) rfl
            | _ => exact iff_of_false nofun nofun
          exact own.symm.trans (and_iff_left (List.forall_mem_nil _)).symm
      | block stmts span =>
          rw [idle_block, List.all_eq_true, and_iff_right (.block stmts span)]
          exact forall₂_congr below
      | _ => exact iff_of_false nofun fun both => nomatch both.1

/--
Emptiness is decided by what a walk visits.  Of a tree in range it can always be told whether leaving it out
could be observed, and it could not if and only if every statement that a walk visits in the tree does
nothing, is a block, or declares variables without initializers.
-/
theorem isEmpty_iff_walk_meets_inert (inRange : stmt.InRange declarations) :
    ∃ answer, stmt.isEmpty declarations.fetch = .ok answer ∧
      (answer = true ↔ ∀ node ∈ stmt.nodes, node.Inert declarations) :=
  ⟨_, isEmpty_eq_pure inRange.answered, idle_iff_inert inRange⟩

/-- In `{ ; int x; { int x; } }` there is nothing that could not be left out. -/
theorem isEmpty_iff_walk_meets_inert_of_block :
    let declarations : Declarations := .ofList [.ofDeclarators [.sized "x" []]]
    let stmt : Stmt := .ofList [.nop .nowhere, .declares 0, .ofList [.declares 0]]
    stmt.InRange declarations ∧
      (∀ node ∈ stmt.nodes, node.Inert declarations) ∧
      stmt.isEmpty declarations.fetch = .ok true := by
  intro declarations stmt
  have inRange : stmt.InRange declarations := by decide
  obtain ⟨answer, asked, same⟩ := isEmpty_iff_walk_meets_inert inRange
  have empty : answer = true := Except.ok.inj (asked.symm.trans rfl)
  exact ⟨inRange, same.1 empty, empty ▸ asked⟩

end Stmt

/-! ## Names that are mentioned -/

theorem Expr.anyMentions_iff_parts {name : String} {exprs : List Expr}
    (each : ∀ expr ∈ exprs, expr.mentions name = true ↔ ∃ span, .reference name span ∈ expr.parts) :
    anyMentions name exprs = true ↔ ∃ span, .reference name span ∈ partsOfList exprs := by
  induction exprs with
  | nil => simp [anyMentions, partsOfList]
  | cons first rest ih =>
      rw [List.forall_mem_cons] at each
      simp only [anyMentions, partsOfList, Bool.or_eq_true, List.mem_append, each.1, ih each.2,
        exists_or]

/-- An expression mentions the variables that are referred to somewhere in it. -/
theorem Expr.mentions_iff_parts (expr : Expr) (name : String) :
    expr.mentions name = true ↔ ∃ span, .reference name span ∈ expr.parts := by
  induction expr using Expr.induction with
  | literal value span => simp [mentions, parts]
  | reference other span => simp [mentions, parts, eq_comm]
  | binary op left right span ihLeft ihRight =>
      simp [mentions, parts, ihLeft, ihRight, exists_or]
  | prefixed op operand span ih => simp [mentions, parts, ih]
  | suffixed op operand span ih => simp [mentions, parts, ih]
  | apply head arguments span ih =>
      simp [mentions, parts, anyMentions_iff_parts ih]
  | index base position span ihBase ihPosition =>
      simp [mentions, parts, ihBase, ihPosition, exists_or]
  | select selection base field span ih => simp [mentions, parts, ih]
  | conditional test yes no span ihTest ihYes ihNo =>
      simp [mentions, parts, ihTest, ihYes, ihNo, exists_or, or_assoc]

namespace Stmt

/--
An expression is written in a statement itself, or as a size or as an initializer in the declaration that
the statement holds.
-/
inductive Writes (declarations : Declarations) (expr : Expr) : Stmt → Prop where
  | evaluated (span : Span) : Writes declarations expr (.simple (.evaluate expr) span)
  | returned (span : Span) : Writes declarations expr (.simple (.return (some expr)) span)
  | size {handle : Handle} {declaration : Declaration} {declarator : Declarator} (span : Span)
      (found : declarations.get? handle = some declaration)
      (listed : declarator ∈ declaration.declarators) (written : some expr ∈ declarator.sizes) :
      Writes declarations expr (.simple (.declare handle) span)
  | initializer {handle : Handle} {declaration : Declaration} {declarator : Declarator}
      (span : Span) (found : declarations.get? handle = some declaration)
      (listed : declarator ∈ declaration.declarators) (written : declarator.value = some expr) :
      Writes declarations expr (.simple (.declare handle) span)
  | doTest (body : Stmt) (span : Span) : Writes declarations expr (.doWhile body expr span)
  | forTest (start : Option Stmt) (next : Option Expr) (body : Stmt) (span : Span) :
      Writes declarations expr (.forLoop start (some expr) next body span)
  | forNext (start : Option Stmt) (test : Option Expr) (body : Stmt) (span : Span) :
      Writes declarations expr (.forLoop start test (some expr) body span)
  | choiceTest (isStatic : Bool) (yes : Stmt) (no : Option Stmt) (span : Span) :
      Writes declarations expr (.choice isStatic expr yes no span)
  | switchValue (isStatic : Bool) (cases : List Case) (span : Span) :
      Writes declarations expr (.switch isStatic expr cases span)
  | label (isStatic : Bool) (value : Expr) {cases : List Case} {each : Case} (span : Span)
      (listed : each ∈ cases) (written : each.label = some expr) :
      Writes declarations expr (.switch isStatic value cases span)
  | whileTest (body : Stmt) (span : Span) : Writes declarations expr (.whileLoop expr body span)

variable {declarations : Declarations} {stmt : Stmt} {name : String}

theorem writes_declare_iff {handle : Handle} {declaration : Declaration} {span : Span} {expr : Expr}
    (found : declarations.get? handle = some declaration) :
    Writes declarations expr (.simple (.declare handle) span) ↔
      expr ∈ declaration.declarators.flatMap Declarator.exprs := by
  simp only [List.mem_flatMap, Declarator.exprs, List.mem_append, List.mem_filterMap, id,
    exists_eq_right, Option.mem_toList]
  constructor
  · intro writes
    cases writes with
    | size span same listed written =>
        obtain rfl := Option.some.inj (found.symm.trans same)
        exact ⟨_, listed, .inl written⟩
    | initializer span same listed written =>
        obtain rfl := Option.some.inj (found.symm.trans same)
        exact ⟨_, listed, .inr written⟩
  · rintro ⟨declarator, listed, written | written⟩
    · exact .size span found listed written
    · exact .initializer span found listed written

/-- A statement in which no other expression is written mentions by itself what this one mentions. -/
theorem usesNameItself_iff_of_only {expr : Expr} (writes : stmt.Writes declarations expr)
    (only : ∀ other, stmt.Writes declarations other → other = expr)
    (asked : stmt.usesNameItself declarations.view name = expr.mentions name) :
    stmt.usesNameItself declarations.view name = true ↔
      ∃ expr, stmt.Writes declarations expr ∧ expr.mentions name = true := by
  rw [asked]
  constructor
  · exact fun mentions => ⟨expr, writes, mentions⟩
  · rintro ⟨other, written, mentions⟩
    exact only other written ▸ mentions

/-- A statement mentions by itself what is mentioned in an expression that is written in it. -/
theorem usesNameItself_iff
    (found : ∀ handle, stmt.handle? = some handle →
      declarations.get? handle = some (declarations.view handle)) :
    stmt.usesNameItself declarations.view name = true ↔
      ∃ expr, stmt.Writes declarations expr ∧ expr.mentions name = true := by
  cases stmt with
  | simple form span =>
      cases form with
      | evaluate expr =>
          exact usesNameItself_iff_of_only (.evaluated span) (fun _ writes => by cases writes; rfl) rfl
      | «return» value =>
          constructor
          · intro mentions
            obtain ⟨expr, rfl, mentions⟩ := (Option.any_eq_true ..).1 mentions
            exact ⟨expr, .returned span, mentions⟩
          · rintro ⟨expr, ⟨⟩, mentions⟩
            exact mentions
      | declare handle =>
          simp only [writes_declare_iff (found handle rfl)]
          exact List.any_eq_true
      | _ => exact iff_of_false nofun fun ⟨_, writes, _⟩ => nomatch writes
  | block stmts span => exact iff_of_false nofun fun ⟨_, writes, _⟩ => nomatch writes
  | doWhile body test span =>
      exact usesNameItself_iff_of_only (.doTest body span) (fun _ writes => by cases writes; rfl) rfl
  | forLoop start test next body span =>
      have parts : usesNameItself declarations.view (.forLoop start test next body span) name =
          (test.any (Expr.mentions name) || next.any (Expr.mentions name)) := rfl
      rw [parts, Bool.or_eq_true, Option.any_eq_true, Option.any_eq_true]
      constructor
      · rintro (⟨expr, rfl, mentions⟩ | ⟨expr, rfl, mentions⟩)
        · exact ⟨expr, .forTest start next body span, mentions⟩
        · exact ⟨expr, .forNext start test body span, mentions⟩
      · rintro ⟨expr, ⟨⟩ | ⟨⟩, mentions⟩
        · exact .inl ⟨expr, rfl, mentions⟩
        · exact .inr ⟨expr, rfl, mentions⟩
  | choice isStatic test yes no span =>
      exact usesNameItself_iff_of_only (.choiceTest isStatic yes no span)
        (fun _ writes => by cases writes; rfl) rfl
  | switch isStatic value cases span =>
      have parts : usesNameItself declarations.view (.switch isStatic value cases span) name =
          (value.mentions name || cases.any fun each => each.label.any (Expr.mentions name)) := rfl
      rw [parts, Bool.or_eq_true, List.any_eq_true]
      constructor
      · rintro (mentions | ⟨each, listed, mentions⟩)
        · exact ⟨value, .switchValue isStatic cases span, mentions⟩
        · obtain ⟨expr, written, mentions⟩ := (Option.any_eq_true ..).1 mentions
          exact ⟨expr, .label isStatic value span listed written, mentions⟩
      · rintro ⟨expr, writes, mentions⟩
        cases writes with
        | switchValue => exact .inl mentions
        | label _ _ _ listed written =>
            exact .inr ⟨_, listed, (Option.any_eq_true ..).2 ⟨expr, written, mentions⟩⟩
  | whileLoop test body span =>
      exact usesNameItself_iff_of_only (.whileTest body span) (fun _ writes => by cases writes; rfl) rfl

/--
Mentions are exact.  Of a tree in range it can always be told whether it mentions a variable, and it does
if and only if a reference of that name is a part, at any depth, of an expression that is written in a
statement of the tree or in the declaration that the statement holds.
-/
theorem mentions_iff_contains_reference (inRange : stmt.InRange declarations) (name : String) :
    ∃ answer, stmt.mentions declarations.fetch name = .ok answer ∧
      (answer = true ↔ ∃ node expr span, Contains node stmt ∧ node.Writes declarations expr ∧
        .reference name span ∈ expr.parts) := by
  refine ⟨_, mentions_eq_pure inRange.answered name, ?_⟩
  rw [usesName_eq_any_nodes, List.any_eq_true]
  constructor
  · rintro ⟨node, visited, mentions⟩
    obtain ⟨expr, writes, mentions⟩ :=
      (usesNameItself_iff fun _ holds => inRange.node visited holds).1 mentions
    obtain ⟨span, refers⟩ := (expr.mentions_iff_parts name).1 mentions
    exact ⟨node, expr, span, mem_nodes_iff.1 visited, writes, refers⟩
  · rintro ⟨node, expr, span, contains, writes, refers⟩
    have visited := mem_nodes_iff.2 contains
    refine ⟨node, visited, (usesNameItself_iff fun _ holds => inRange.node visited holds).2 ?_⟩
    exact ⟨expr, writes, (expr.mentions_iff_parts name).2 ⟨span, refers⟩⟩

/-- In `for (int y = f(x); ; ) ;` the start of the loop mentions `x`, and nothing mentions `f`. -/
theorem mentions_iff_contains_reference_of_loop :
    let call : Expr := .apply (.function "f" true) [.var "x"] .nowhere
    let declarations : Declarations := .ofList [.ofDeclarators [.set "y" call]]
    let stmt : Stmt := .forLoop (some (.declares 0)) none none (.nop .nowhere) .nowhere
    stmt.InRange declarations ∧
      stmt.mentions declarations.fetch "x" = .ok true ∧
      (¬ ∃ node expr span, Contains node stmt ∧ node.Writes declarations expr ∧
        .reference "f" span ∈ expr.parts) := by
  intro call declarations stmt
  have inRange : stmt.InRange declarations := by decide
  constructor
  · exact inRange
  constructor
  · obtain ⟨answer, asked, same⟩ := mentions_iff_contains_reference inRange "x"
    have written : Writes declarations call (.declares 0) :=
      .initializer .nowhere rfl List.mem_cons_self rfl
    have holds : answer = true := same.2 ⟨.declares 0, call, .nowhere,
      .start none none _ .nowhere .root, written, List.mem_cons_of_mem _ List.mem_cons_self⟩
    exact holds ▸ asked
  · obtain ⟨answer, asked, same⟩ := mentions_iff_contains_reference inRange "f"
    have silent : answer = false := Except.ok.inj (asked.symm.trans rfl)
    intro occurs
    exact absurd (same.2 occurs) (silent ▸ Bool.false_ne_true)

end Stmt

end ShaderTree
