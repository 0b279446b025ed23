/-!
# Qualifiers

Qualifiers stand in front of the type of a declaration, in the order in which they were written.
-/

namespace ShaderTree

/-- A word that qualifies every variable of a declaration. -/
inductive Qualifier where
  | const
  | input
  | output
  | uniform
  | flat
  | noPerspective
  | highPrecision
  | mediumPrecision
  | lowPrecision
deriving DecidableEq, Repr

/-- The spelling of a qualifier. -/
def Qualifier.text : Qualifier → String
  | .const => "const"
  | .input => "in"
  | .output => "out"
  | .uniform => "uniform"
  | .flat => "flat"
  | .noPerspective => "noperspective"
  | .highPrecision => "highp"
  | .mediumPrecision => "mediump"
  | .lowPrecision => "lowp"

/-- The qualifiers of a declaration, in the order in which they are written. -/
structure Modifiers where
  qualifiers : List Qualifier := []
deriving DecidableEq, Repr

/-- The qualifiers, each with a space after it, so that a type can follow directly. -/
def Modifiers.text (modifiers : Modifiers) : String :=
  String.join (modifiers.qualifiers.map fun qualifier => qualifier.text ++ " ")

end ShaderTree
