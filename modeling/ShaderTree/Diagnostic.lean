import ShaderTree.Document

/-!
# Diagnostics

What is wrong with a shader, or merely odd about it, is told in diagnostics.  Each is written on one
line behind the place it is about.  A diagnostics list either collects what is pushed to it, in
order, or leaves every diagnostic to be printed at once and collects nothing.
-/

namespace ShaderTree

/-- How grave a diagnostic is. -/
inductive Severity where
  | error
  | warning
deriving DecidableEq, Repr

/-- A message about a shader, and where it applies if it applies somewhere. -/
structure Diagnostic where
  severity : Severity
  message : String
  span : Option Span
deriving DecidableEq, Repr

namespace Diagnostic

/-- The warning that a variable is declared and never mentioned. -/
def unusedVariable (name : String) (span : Span) : Diagnostic :=
  ⟨.warning, "unused variable '" ++ name ++ "'", some span⟩

/-- The warning that evaluating a statement changes nothing. -/
def withoutEffect (span : Span) : Diagnostic :=
  ⟨.warning, "statement has no effect", some span⟩

/-- The word before the message; `colored` sets the word of a warning in bold yellow. -/
def label (colored : Bool) : Severity → String
  | .error => "error:"
  | .warning => if colored then "\x1b[1;33mwarning:\x1b[0m" else "warning:"

/-- The line that shows a diagnostic, without its end. -/
def text (diagnostic : Diagnostic) (colored : Bool) (document : Document) : String :=
  let told := label colored diagnostic.severity ++ " " ++ diagnostic.message
  match diagnostic.span with
  | some span => (document.placeOf span.offset.toNat).text ++ ": " ++ told
  | none => told

end Diagnostic

/-- The diagnostics of one compilation that await rendering. -/
structure Diagnostics where
  /-- Diagnostics are printed as they come, and none is collected. -/
  printsAtOnce : Bool := true
  /-- What was collected, oldest first. -/
  collected : List Diagnostic := []
deriving Repr

namespace Diagnostics

/-- Takes in one more diagnostic. -/
def push (diagnostics : Diagnostics) (diagnostic : Diagnostic) : Diagnostics :=
  if diagnostics.printsAtOnce then
    diagnostics
  else
    { diagnostics with collected := diagnostics.collected ++ [diagnostic] }

/-- Takes in several diagnostics, in order. -/
def pushAll (diagnostics : Diagnostics) (more : List Diagnostic) : Diagnostics :=
  more.foldl push diagnostics

/-- The number of diagnostics collected. -/
def count (diagnostics : Diagnostics) : Nat :=
  diagnostics.collected.length

/-- Every collected diagnostic on a line of its own. -/
def render (diagnostics : Diagnostics) (colored : Bool) (document : Document) : String :=
  String.join (diagnostics.collected.map fun diagnostic => diagnostic.text colored document ++ "\n")

end Diagnostics

end ShaderTree
