import ShaderTree.Declaration.Basic
import ShaderTree.Expr.Printer

/-!
# The text of declarations

A declaration is written as its qualifiers, its base type and its declarators, without the
semicolon that ends the statement around it.
-/

namespace ShaderTree

/-- One dimension behind the name of a variable. -/
def Declarator.sizeText : Option Expr → String
  | some size => "[" ++ size.text ++ "]"
  | none => "[]"

/-- A variable with its dimensions and its initializer. -/
def Declarator.text (declarator : Declarator) : String :=
  declarator.name ++ String.join (declarator.sizes.map sizeText) ++
    match declarator.value with
    | some value => " = " ++ value.within .assignment
    | none => ""

/-- The declarators behind a type, each two with a comma between them. -/
def Declaration.declaratorsText : List Declarator → String
  | [] => ""
  | first :: rest => " " ++ first.text ++ String.join (rest.map fun next => ", " ++ next.text)

/-- A declaration without the end of its statement. -/
def Declaration.text (declaration : Declaration) : String :=
  declaration.modifiers.text ++ declaration.baseType.text ++
    declaratorsText declaration.declarators

end ShaderTree
