import ShaderTree.Span

/-!
# Types

The types of the shading language: scalars, vectors and matrices of them, samplers, structures, and
arrays of any of these.  An array type is written as its element type followed by its own count, so
the dimension that is added last is written last.
-/

namespace ShaderTree

/-- The types of single components. -/
inductive Scalar where
  | bool
  | int
  | uint
  | short
  | ushort
  | float
  | half
deriving DecidableEq, Repr

/-- The spelling of a scalar type. -/
def Scalar.text : Scalar → String
  | .bool => "bool"
  | .int => "int"
  | .uint => "uint"
  | .short => "short"
  | .ushort => "ushort"
  | .float => "float"
  | .half => "half"

/-- The types that are no arrays. -/
inductive ElementTy where
  | void
  | scalar (component : Scalar)
  | vector (component : Scalar) (count : Nat)
  | matrix (component : Scalar) (columns rows : Nat)
  | sampler2D
  | struct (name : String)
deriving DecidableEq, Repr

/-- The spelling of a type that is no array. -/
def ElementTy.text : ElementTy → String
  | .void => "void"
  | .scalar component => component.text
  | .vector component count => component.text ++ toString count
  | .matrix component columns rows => component.text ++ toString columns ++ "x" ++ toString rows
  | .sampler2D => "sampler2D"
  | .struct name => name

/-- A type as it is written at a span. -/
inductive Ty where
  | single (element : ElementTy) (span : Span)
  /-- An array, of `count` elements where the count is given. -/
  | array (of : Ty) (count : Option Nat) (span : Span)
deriving DecidableEq, Repr

namespace Ty

/-- Where a type is written. -/
def span : Ty → Span
  | .single _ span => span
  | .array _ _ span => span

/-- The type of a single element, behind all dimensions. -/
def element : Ty → ElementTy
  | .single element _ => element
  | .array of _ _ => of.element

/-- One dimension of an array type, with or without its count. -/
def dimensionText : Option Nat → String
  | some count => "[" ++ toString count ++ "]"
  | none => "[]"

/-- The spelling of a type. -/
def text : Ty → String
  | .single element _ => element.text
  | .array of count _ => of.text ++ dimensionText count

end Ty

end ShaderTree
