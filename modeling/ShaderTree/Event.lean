import ShaderTree.Declaration.Basic

/-!
# Events

Passes over statements tell what they do in events, each with a level and a message.
-/

namespace ShaderTree

/-- Why a statement was taken out of its place. -/
inductive Reason where
  | emptyStatement
  | emptyBody
  | emptyElse
deriving DecidableEq, Repr

/-- The wording of a reason. -/
def Reason.message : Reason → String
  | .emptyStatement => "eliding empty statement"
  | .emptyBody => "collapsing empty body"
  | .emptyElse => "dropping empty else branch"

/-- How closely an event follows the work of a pass. -/
inductive Level where
  | debug
  | trace
deriving DecidableEq, Repr

/-- One thing that a pass did. -/
inductive Event where
  /-- A statement at `offset` was copied. -/
  | duplicating (offset : UInt32)
  /-- The statement at `offset`, with its text, was taken out of its place. -/
  | eliding (reason : Reason) (offset : UInt32) (statement : String)
  /-- An elimination took `count` statements out of their places. -/
  | eliminated (count : Nat)
  /-- The statement at `offset` was given a declaration of its own. -/
  | unsharing (offset : UInt32) (copy : Handle)
deriving DecidableEq

namespace Event

/-- The level of an event. -/
def level : Event → Level
  | .duplicating _ => .trace
  | .eliding _ _ _ | .eliminated _ | .unsharing _ _ => .debug

/-- The message of an event. -/
def message : Event → String
  | .duplicating _ => "duplicating statement"
  | .eliding reason _ _ => reason.message
  | .eliminated _ => "eliminated empty statements"
  | .unsharing _ _ => "unsharing declaration group"

end Event

end ShaderTree
