import ShaderTree.Expr.Basic
import ShaderTree.Qualifier
import ShaderTree.Store.Basic

/-!
# Declarations

A declaration introduces variables together: `const float a = 1, b[2]` has two declarators behind
common qualifiers and a common base type.  Declarations live in a store and are held by key, so that
copies of a statement keep sharing one declaration.
-/

namespace ShaderTree

/-- One variable of a declaration. -/
structure Declarator where
  name : String
  /-- The whole type of the variable, with its array dimensions. -/
  ty : Ty
  /-- The array dimensions as written, outermost first; one without an expression is unsized. -/
  sizes : List (Option Expr)
  /-- The initializer. -/
  value : Option Expr
  span : Span

namespace Declarator

/-- Leaving out a variable without an initializer cannot be observed; any initializer counts. -/
def isEmpty (declarator : Declarator) : Bool :=
  declarator.value.isNone

/-- The expressions of a declarator: sizes in order, then the initializer. -/
def exprs (declarator : Declarator) : List Expr :=
  declarator.sizes.filterMap id ++ declarator.value.toList

end Declarator

/-- Variables introduced together, in the order in which they are written. -/
structure Declaration where
  modifiers : Modifiers
  baseType : Ty
  declarators : List Declarator
  span : Span

namespace Declaration

/-- The first declarator of a name. -/
def find? (declaration : Declaration) (name : String) : Option Declarator :=
  declaration.declarators.find? fun declarator => declarator.name = name

/-- Whether no declarator has an initializer, as is the case where there is no declarator. -/
def isEmpty (declaration : Declaration) : Bool :=
  declaration.declarators.all Declarator.isEmpty

/-- Whether a size or an initializer mentions the variable `name`. -/
def mentions (declaration : Declaration) (name : String) : Bool :=
  (declaration.declarators.flatMap Declarator.exprs).any fun expr => expr.mentions name

/-- Rewrites the first declarator of a name in a list. -/
def modifyFirst (name : String) (change : Declarator → Declarator) :
    List Declarator → List Declarator
  | [] => []
  | first :: rest =>
      if first.name = name then
        change first :: rest
      else
        first :: modifyFirst name change rest

/-- Rewrites the first declarator of a name. -/
def modify (declaration : Declaration) (name : String) (change : Declarator → Declarator) :
    Declaration :=
  { declaration with declarators := modifyFirst name change declaration.declarators }

/-- Gives the first declarator of a name another initializer, or none. -/
def setValue (declaration : Declaration) (name : String) (value : Option Expr) : Declaration :=
  declaration.modify name ({ · with value })

end Declaration

/-- The format of the keys that name declarations. -/
def declarationKeys : KeyFormat := ⟨.w32, .niche⟩

/-- The key of a declaration, as statements hold it. -/
abbrev Handle := Key declarationKeys

/-- The declarations of one compilation. -/
abbrev Declarations := Store declarationKeys Declaration

/--
How a handle is resolved.  Functions that consult the declarations of a tree take the look-up as a
parameter: that of a store fails on a handle without a slot, and a total view never fails.
-/
abbrev Lookup (m : Type → Type) := Handle → m Declaration

end ShaderTree
