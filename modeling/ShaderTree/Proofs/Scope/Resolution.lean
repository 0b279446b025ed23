import ShaderTree.Proofs.Tree.View

/-!
# Names and what they stand for

A name stands for the variable of the innermost declaration that is in force where the name is
written; of several declarations in one scope the last one counts.  A declaration is in force behind
its statement up to the end of the list around it, a list of statements being a scope of its own.
Two scopes reach farther: the cases of a switch share one, which their labels lie outside of, and
what the start of a loop declares is in force in its test, in its step and in its body.  Within a
declaration each variable is in force for the variables behind it.

Resolving a tree lists its references in the order in which they are written, each with what it
stands for.
-/

namespace ShaderTree

/-- What a name stands for. -/
inductive Binding (Outer : Type) where
  /-- A variable, given by its declaration and its position among the declarators. -/
  | variable (handle : Handle) (position : Nat)
  /-- An entry of the environment around the tree. -/
  | outer (entry : Outer)
  /-- Nothing. -/
  | unresolved
deriving DecidableEq

/-- What each name stands for at one place of a tree. -/
abbrev Scope (Outer : Type) := String → Binding Outer

/-- A name written in a tree. -/
structure Reference (Outer : Type) where
  name : String
  span : Span
  binding : Binding Outer
  /-- The declaration that has the name in a size or in an initializer. -/
  holder : Option Handle
deriving DecidableEq

namespace Scope

variable {Outer : Type}

/-- The scope around a tree, where only the entries of an environment are in force. -/
def around (environment : String → Option Outer) : Scope Outer := fun name =>
  match environment name with
  | some entry => .outer entry
  | none => .unresolved

/-- A name comes to stand for a variable and hides what it stood for. -/
def bind (scope : Scope Outer) (name : String) (handle : Handle) (position : Nat) : Scope Outer :=
  fun other => if other = name then .variable handle position else scope other

/-- The declarators of a declaration, counted from `position`, come into force one by one. -/
def bindFrom (handle : Handle) : Nat → List Declarator → Scope Outer → Scope Outer
  | _, [], scope => scope
  | position, first :: rest, scope =>
      bindFrom handle (position + 1) rest (scope.bind first.name handle position)

/-- The scope behind a statement. -/
def after (view : View) (scope : Scope Outer) (stmt : Stmt) : Scope Outer :=
  match stmt.handle? with
  | some handle => scope.bindFrom handle 0 (view handle).declarators
  | none => scope

/-- The scope behind a list of statements. -/
def afterAll (view : View) (scope : Scope Outer) (stmts : List Stmt) : Scope Outer :=
  stmts.foldl (after view) scope

end Scope

/-! ## The references of a tree -/

namespace Expr

mutual

/-- The names written in an expression and where they are written, from left to right. -/
def names : Expr → List (String × Span)
  | .literal _ _ => []
  | .reference name span => [(name, span)]
  | .binary _ left right _ => left.names ++ right.names
  | .prefixed _ operand _ => operand.names
  | .suffixed _ operand _ => operand.names
  | .apply _ arguments _ => namesOfList arguments
  | .index base position _ => base.names ++ position.names
  | .select _ base _ _ => base.names
  | .conditional test yes no _ => test.names ++ yes.names ++ no.names

/-- The names written in the expressions of a list. -/
def namesOfList : List Expr → List (String × Span)
  | [] => []
  | first :: rest => first.names ++ namesOfList rest

end

end Expr

section References

variable {Outer : Type} (view : View)

/-- The references of an expression, all resolved in one scope. -/
def Expr.references (scope : Scope Outer) (holder : Option Handle) (expr : Expr) :
    List (Reference Outer) :=
  expr.names.map fun written => ⟨written.1, written.2, scope written.1, holder⟩

/-- The references of an expression that may be left out. -/
def Expr.optionalReferences (scope : Scope Outer) (expr : Option Expr) : List (Reference Outer) :=
  expr.toList.flatMap (references scope none)

/-- The references of declarators counted from `position`; each is in force behind itself. -/
def Declarator.referencesFrom (handle : Handle) :
    Nat → List Declarator → Scope Outer → List (Reference Outer)
  | _, [], _ => []
  | position, first :: rest, scope =>
      first.exprs.flatMap (Expr.references scope (some handle)) ++
        referencesFrom handle (position + 1) rest (scope.bind first.name handle position)

/-- The references of a simple statement. -/
def Simple.references (scope : Scope Outer) : Simple → List (Reference Outer)
  | .evaluate expr => expr.references scope none
  | .return value => Expr.optionalReferences scope value
  | .declare handle => Declarator.referencesFrom handle 0 (view handle).declarators scope
  | .breakOut | .continueOn | .discard | .nop => []

namespace Stmt

mutual

/-- The references of a tree. -/
def references (scope : Scope Outer) : Stmt → List (Reference Outer)
  | .simple form _ => form.references view scope
  | .block stmts _ => referencesOfList scope stmts
  | .doWhile body test _ => body.references scope ++ test.references scope none
  | .forLoop (some start) test next body _ =>
      start.references scope ++
        (Expr.optionalReferences (scope.after view start) test ++
          Expr.optionalReferences (scope.after view start) next ++
          body.references (scope.after view start))
  | .forLoop none test next body _ =>
      Expr.optionalReferences scope test ++ Expr.optionalReferences scope next ++
        body.references scope
  | .choice _ test yes (some no) _ =>
      test.references scope none ++ yes.references scope ++ no.references scope
  | .choice _ test yes none _ => test.references scope none ++ yes.references scope
  | .switch _ value cases _ => value.references scope none ++ referencesOfCases scope scope cases
  | .whileLoop test body _ => test.references scope none ++ body.references scope

/-- The references of a list of statements, each in the scope behind the ones before it. -/
def referencesOfList (scope : Scope Outer) : List Stmt → List (Reference Outer)
  | [] => []
  | first :: rest => first.references scope ++ referencesOfList (scope.after view first) rest

/-- The references of cases: labels lie in the scope around the switch, statements in `scope`. -/
def referencesOfCases (around scope : Scope Outer) : List Case → List (Reference Outer)
  | [] => []
  | .mk label stmts :: rest =>
      Expr.optionalReferences around label ++ referencesOfList scope stmts ++
        referencesOfCases around (scope.afterAll view stmts) rest

end

end Stmt

end References

end ShaderTree
