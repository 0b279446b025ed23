import ShaderTree.Declaration.Printer
import ShaderTree.Stmt.Basic

/-!
# The text of statements

A statement is written with its terminator.  The statements of a block stand on lines of their own,
and so do the labels of a switch and the statements behind each label.
-/

namespace ShaderTree

variable {m : Type → Type} [Monad m] (look : Lookup m)

/-- The text of a simple statement. -/
def Simple.text : Simple → m String
  | .breakOut => return "break;"
  | .continueOn => return "continue;"
  | .discard => return "discard;"
  | .nop => return ";"
  | .evaluate expr => return expr.text ++ ";"
  | .return (some value) => return "return " ++ value.text ++ ";"
  | .return none => return "return;"
  | .declare handle => return (← look handle).text ++ ";"

/-- The mark of a choice made when the shader is compiled. -/
def Stmt.staticMark (isStatic : Bool) : String :=
  if isStatic then "@" else ""

/-- An expression that may be left out. -/
def Stmt.optionalText : Option Expr → String
  | some expr => expr.text
  | none => ""

/-- The label of a case. -/
def Case.labelText : Option Expr → String
  | some value => "case " ++ value.text ++ ":"
  | none => "default:"

namespace Stmt

mutual

/-- The text of a statement. -/
def text : Stmt → m String
  | .simple form _ => form.text look
  | .block stmts _ => return "\x7b" ++ (← textOfList stmts) ++ "\n\x7d"
  | .doWhile body test _ => return "do " ++ (← body.text) ++ " while (" ++ test.text ++ ");"
  | .forLoop (some start) test next body _ =>
      return "for (" ++ (← start.text) ++ " " ++ optionalText test ++ "; " ++ optionalText next ++
        ") " ++ (← body.text)
  | .forLoop none test next body _ =>
      return "for (; " ++ optionalText test ++ "; " ++ optionalText next ++ ") " ++ (← body.text)
  | .choice isStatic test yes (some no) _ =>
      return staticMark isStatic ++ "if (" ++ test.text ++ ") " ++ (← yes.text) ++ " else " ++
        (← no.text)
  | .choice isStatic test yes none _ =>
      return staticMark isStatic ++ "if (" ++ test.text ++ ") " ++ (← yes.text)
  | .switch isStatic value cases _ =>
      return staticMark isStatic ++ "switch (" ++ value.text ++ ") \x7b" ++
        (← textOfCases cases) ++ "\n\x7d"
  | .whileLoop test body _ => return "while (" ++ test.text ++ ") " ++ (← body.text)

/-- Statements, each on a new line. -/
def textOfList : List Stmt → m String
  | [] => return ""
  | first :: rest => return "\n" ++ (← first.text) ++ (← textOfList rest)

/-- Cases, each label and each statement on a new line. -/
def textOfCases : List Case → m String
  | [] => return ""
  | .mk label stmts :: rest =>
      return "\n" ++ Case.labelText label ++ (← textOfList stmts) ++ (← textOfCases rest)

end

end Stmt

end ShaderTree
