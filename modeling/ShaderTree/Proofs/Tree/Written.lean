import ShaderTree.Proofs.Tree.View

/-!
# Trees written down

Short forms for the stores and the trees of worked cases.  Nothing in them is written at a place of a
document, variables have the type `int`, and a handle is given by the number of its slot.
-/

namespace ShaderTree

/-- The handle of one of the first slots. -/
def Handle.ofSlot (slot : Fin 256) : Handle where
  raw := slot + 1
  raw_lt := Nat.lt_of_le_of_lt slot.isLt (by decide)
  offset_le := Nat.le_add_left ..

/-- The store of the listed declarations. -/
def Declarations.ofList (declarations : List Declaration) : Declarations :=
  ⟨declarations.toArray⟩

/-- The type `int`. -/
def Ty.int : Ty :=
  .single (.scalar .int) .nowhere

/-- A variable as an expression. -/
def Expr.var (name : String) : Expr :=
  .reference name .nowhere

/-- A variable with array dimensions of the given sizes. -/
def Declarator.sized (name : String) (sizes : List Expr) : Declarator :=
  ⟨name, .int, sizes.map some, none, .nowhere⟩

/-- A variable with an initializer. -/
def Declarator.set (name : String) (value : Expr) : Declarator :=
  ⟨name, .int, [], some value, .nowhere⟩

/-- The declaration of the listed variables. -/
def Declaration.ofDeclarators (declarators : List Declarator) : Declaration :=
  ⟨{}, .int, declarators, .nowhere⟩

namespace Stmt

/-- The statement that holds the declaration of a slot. -/
def declares (slot : Fin 256) : Stmt :=
  .simple (.declare (.ofSlot slot)) .nowhere

/-- The statement that returns a value. -/
def returns (value : Expr) : Stmt :=
  .simple (.return (some value)) .nowhere

/-- The block of the listed statements. -/
def ofList (stmts : List Stmt) : Stmt :=
  .block stmts .nowhere

instance (declarations : Declarations) (stmt : Stmt) : Decidable (stmt.InRange declarations) :=
  inferInstanceAs (Decidable (∀ handle ∈ stmt.handles, handle.slot < declarations.size))

end Stmt

end ShaderTree
