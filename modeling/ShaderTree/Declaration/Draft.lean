import ShaderTree.Declaration.Basic
import ShaderTree.Diagnostic

/-!
# Drafts

A declaration is put together one declarator at a time.  A draft takes in the first declarator of
each name, refuses the others, and does not become a declaration before it has a declarator.

The names are kept in a set of their own.  All that is asked of this set is that it tells a new name from
one that it has, and that it is walked in the order in which its names came; how it does so is left open.
-/

namespace ShaderTree

/-! ## Sets of names -/

/-- The operations of a set of names. -/
class NameSet (σ : Type) where
  /-- The set without names. -/
  empty : σ
  /-- Takes in a name, and tells whether it is new. -/
  insert : σ → String → Bool × σ
  /-- The names, in the order of a walk. -/
  toList : σ → List String

/-- The laws of a set that is walked in the order in which its names came. -/
class LawfulNameSet (σ : Type) [NameSet σ] : Prop where
  /-- There is nothing to walk over at first. -/
  toList_empty : NameSet.toList (NameSet.empty : σ) = []
  /-- A name that the set has is not new, and the set is left as it was. -/
  insert_of_mem {names : σ} {name : String} :
    name ∈ NameSet.toList names → NameSet.insert names name = (false, names)
  /-- A name that the set does not have is new. -/
  insert_fst_of_not_mem {names : σ} {name : String} :
    name ∉ NameSet.toList names → (NameSet.insert names name).1 = true
  /-- A new name goes behind the others. -/
  toList_insert_of_not_mem {names : σ} {name : String} :
    name ∉ NameSet.toList names →
      NameSet.toList (NameSet.insert names name).2 = NameSet.toList names ++ [name]

/-- The names of a list, where a new one goes to the end. -/
instance : NameSet (List String) where
  empty := []
  insert names name := if name ∈ names then (false, names) else (true, names ++ [name])
  toList names := names

instance : LawfulNameSet (List String) where
  toList_empty := rfl
  insert_of_mem held := if_pos held
  insert_fst_of_not_mem new := congrArg Prod.fst (if_neg new)
  toList_insert_of_not_mem new := congrArg Prod.snd (if_neg new)

/-! ## Drafts -/

/-- A declaration that is being put together. -/
structure Draft (σ : Type) where
  modifiers : Modifiers
  baseType : Ty
  span : Span
  /-- The names taken so far. -/
  names : σ
  /-- The declarators taken in so far, in order. -/
  declarators : List Declarator

/-- What no declaration of a well-formed shader does. -/
inductive DraftError where
  /-- A declarator repeats a name. -/
  | redeclared (name : String) (span : Span)
  /-- There is no declarator. -/
  | withoutDeclarators (span : Span)
deriving DecidableEq, Repr

namespace DraftError

/-- The wording of a draft's error. -/
def message : DraftError → String
  | .redeclared name _ => "'" ++ name ++ "' is already declared in this declaration"
  | .withoutDeclarators _ => "declaration must declare at least one variable"

/-- Where the error lies: at the repeated declarator, or at the whole declaration. -/
def span : DraftError → Span
  | .redeclared _ span | .withoutDeclarators span => span

/-- The error as it is told to the author of the shader. -/
def diagnostic (error : DraftError) : Diagnostic :=
  ⟨.error, error.message, some error.span⟩

end DraftError

namespace Draft

variable {σ : Type}

section NameSet

variable [NameSet σ]

/-- A draft without declarators. -/
def new (modifiers : Modifiers) (baseType : Ty) (span : Span) : Draft σ :=
  ⟨modifiers, baseType, span, NameSet.empty, []⟩

/-- Takes in a declarator, unless its name is taken; the draft comes back either way. -/
def declare (draft : Draft σ) (declarator : Declarator) : Except DraftError Unit × Draft σ :=
  let (isNew, names) := NameSet.insert draft.names declarator.name
  if isNew then
    (.ok (), { draft with names, declarators := draft.declarators ++ [declarator] })
  else
    (.error (.redeclared declarator.name declarator.span), { draft with names })

/-- The names taken so far, in order. -/
def declaredNames (draft : Draft σ) : List String :=
  NameSet.toList draft.names

end NameSet

/-- The declaration that a draft has come to. -/
def declaration (draft : Draft σ) : Declaration :=
  ⟨draft.modifiers, draft.baseType, draft.declarators, draft.span⟩

/-- Puts the finished declaration into a store, if it has a declarator. -/
def finish (draft : Draft σ) :
    Store.Operation declarationKeys Declaration (Except DraftError Handle) :=
  if draft.declarators.isEmpty then
    return .error (.withoutDeclarators draft.span)
  else
    return .ok (← Store.insert draft.declaration)

end Draft

end ShaderTree
