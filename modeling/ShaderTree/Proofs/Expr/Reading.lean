import ShaderTree.Expr.Printer
import ShaderTree.Proofs.Tree.Induction
import ShaderTree.Proofs.Ty.Readability

/-!
# Readings

The text of an expression does not say where the expression is written, whether a function is known
to be pure, or whether a name behind a point picks a field or components.  A type in front of
arguments is spelled as a function of that name would be, and a negative literal as its absolute value
behind a minus sign.  The reading of an expression is the expression with all of this settled in one
way, on every level; it has the text of the expression in every place.
-/

namespace ShaderTree

/-! ## Readings -/

/-- A literal as the text of it is read. -/
def Literal.reading : Literal → Expr
  | .bool value => .literal (.bool value) .nowhere
  | .int (.ofNat magnitude) => .literal (.int magnitude) .nowhere
  | .int (.negSucc below) =>
      .prefixed .negate (.literal (.int (below + 1 : Nat)) .nowhere) .nowhere
  | .float value => .literal (.float value) .nowhere

namespace Expr

mutual

/--
An expression as the text of it is read: written nowhere, with fields only, with functions for types
and none of them pure, and with negated literals for negative ones.
-/
def reading : Expr → Expr
  | .literal value _ => value.reading
  | .reference name _ => .reference name .nowhere
  | .binary op left right _ => .binary op left.reading right.reading .nowhere
  | .prefixed op operand _ => .prefixed op operand.reading .nowhere
  | .suffixed op operand _ => .suffixed op operand.reading .nowhere
  | .apply head arguments _ => .apply (.function head.text false) (readings arguments) .nowhere
  | .index base position _ => .index base.reading position.reading .nowhere
  | .select _ base name _ => .select .field base.reading name .nowhere
  | .conditional test yes no _ => .conditional test.reading yes.reading no.reading .nowhere

/-- Arguments as the texts of them are read. -/
def readings : List Expr → List Expr
  | [] => []
  | first :: rest => first.reading :: readings rest

end

end Expr

/-! ## Plain expressions -/

/-- Whether a literal is no floating point number. -/
def Literal.isPlain : Literal → Bool
  | .bool _ | .int _ => true
  | .float _ => false

/-- Whether what stands before arguments is named by a name. -/
def Head.isPlain : Head → Bool
  | .function name _ => Word.isName name
  | .type ty => ty.element.isPlain

namespace Expr

mutual

/-- Whether an expression has no floating point literal, and names things by names. -/
def isPlain : Expr → Bool
  | .literal value _ => value.isPlain
  | .reference name _ => Word.isName name
  | .binary _ left right _ => left.isPlain && right.isPlain
  | .prefixed _ operand _ => operand.isPlain
  | .suffixed _ operand _ => operand.isPlain
  | .apply head arguments _ => head.isPlain && arePlain arguments
  | .index base position _ => base.isPlain && position.isPlain
  | .select _ base name _ => base.isPlain && Word.isName name
  | .conditional test yes no _ => test.isPlain && yes.isPlain && no.isPlain

/-- Whether all arguments are plain. -/
def arePlain : List Expr → Bool
  | [] => true
  | first :: rest => first.isPlain && arePlain rest

end

theorem arePlain_iff {arguments : List Expr} :
    arePlain arguments = true ↔ ∀ argument ∈ arguments, argument.isPlain = true := by
  induction arguments with
  | nil => exact iff_of_true rfl (List.forall_mem_nil _)
  | cons first rest ih => rw [arePlain, Bool.and_eq_true, ih, List.forall_mem_cons]

end Expr

/-! ## Parentheses -/

/-- A number without a sign is written as its numeral in every place. -/
theorem Literal.within_natCast (place : Precedence) (magnitude : Nat) :
    (Literal.int magnitude).within place = toString magnitude := by
  rw [within, if_neg (Int.not_lt.2 (Int.natCast_nonneg magnitude))]
  rfl

/-- A number with a sign is ranked as its absolute value behind a minus sign would be. -/
theorem Literal.within_negSucc (place : Precedence) (below : Nat) :
    (Literal.int (.negSucc below)).within place =
      Precedence.prefixed.enclose place ("-" ++ toString (below + 1)) := by
  have negative : Int.negSucc below < 0 := Int.negSucc_lt_zero below
  rw [within, if_pos negative, precedence, if_pos negative]
  rfl

theorem Precedence.needsParentheses_iff {own place : Precedence} :
    own.needsParentheses place = true ↔ place.looseness ≤ own.looseness :=
  decide_eq_true_iff

theorem Precedence.needsParentheses_eq_false_iff {own place : Precedence} :
    own.needsParentheses place = false ↔ own.looseness < place.looseness := by
  rw [← Bool.not_eq_true, needsParentheses_iff, Nat.not_le]

/-- Nothing is put in parentheses where nothing stands around it. -/
theorem Precedence.enclose_topLevel {own : Precedence}
    (tighter : own.looseness < Precedence.topLevel.looseness) (inner : String) :
    own.enclose .topLevel inner = inner := by
  rw [enclose, needsParentheses_eq_false_iff.2 tighter]
  rfl

/-! ## Binary operators -/

namespace BinaryOp

/-- The operators that compute, those that compare or connect, and those that assign. -/
def all : List BinaryOp :=
  let computing : List Arithmetic :=
    [.add, .subtract, .multiply, .divide, .modulus, .shiftLeft, .shiftRight, .bitAnd, .bitXor,
      .bitOr]
  let comparing : List Logical :=
    [.less, .lessEqual, .greater, .greaterEqual, .equal, .notEqual, .conjunction, .exclusive,
      .disjunction]
  computing.map .arithmetic ++ comparing.map .logical ++
    .assign none :: computing.map fun op => .assign (some op)

/-- What is found to be so of the listed operators is so of all. -/
theorem of_all {test : BinaryOp → Bool} (each : all.all test = true) (op : BinaryOp) :
    test op = true := by
  have listed : op ∈ all := by
    cases op with
    | arithmetic op => cases op <;> decide
    | logical op => cases op <;> decide
    | assign op =>
        cases op with
        | none => decide
        | some op => cases op <;> decide
  exact List.all_eq_true.1 each op listed

/-- An operator of two operands binds less tightly than one of a single operand. -/
theorem prefixed_lt (op : BinaryOp) :
    Precedence.prefixed.looseness < op.precedence.looseness := by
  have each : (all.all fun op => Precedence.prefixed.looseness < op.precedence.looseness) = true :=
    rfl
  exact of_decide_eq_true (of_all each op)

theorem lt_topLevel (op : BinaryOp) :
    op.precedence.looseness < Precedence.topLevel.looseness := by
  have each : (all.all fun op => op.precedence.looseness < Precedence.topLevel.looseness) = true :=
    rfl
  exact of_decide_eq_true (of_all each op)

end BinaryOp

/-! ## Places -/

namespace Expr

/-- The rank of an expression, if there are places in which it is put in parentheses. -/
def rank? : Expr → Option Precedence
  | .literal (.bool _) _ => none
  | .literal (.int value) _ => if value < 0 then some .prefixed else none
  | .literal (.float value) _ => some (Literal.float value).precedence
  | .binary op _ _ _ => some op.precedence
  | .prefixed _ _ _ => some .prefixed
  | .suffixed _ _ _ => some .suffixed
  | .conditional _ _ _ _ => some .conditional
  | .reference _ _ | .apply _ _ _ | .index _ _ _ | .select _ _ _ _ => none

theorem lt_topLevel_of_rank? {expr : Expr} {own : Precedence} (rank : own ∈ expr.rank?) :
    own.looseness < Precedence.topLevel.looseness := by
  cases expr with
  | literal value span =>
      cases value with
      | bool value => cases rank
      | int value =>
          simp only [rank?] at rank
          split at rank
          · cases rank
            decide
          · cases rank
      | float value =>
          cases rank
          rw [Literal.precedence]
          split <;> decide
  | binary op left right span =>
      cases rank
      exact op.lt_topLevel
  | prefixed op operand span => cases rank; decide
  | suffixed op operand span => cases rank; decide
  | conditional test yes no span => cases rank; decide
  | _ => cases rank

/-- The place of an expression decides about the parentheses around its text and about nothing else. -/
theorem within_eq (place : Precedence) (expr : Expr) :
    expr.within place =
      if expr.rank?.any fun own => own.needsParentheses place then "(" ++ expr.text ++ ")"
      else expr.text := by
  have enclosed {own : Precedence} {inner : String} (rank : expr.rank? = some own)
      (eq : ∀ place, expr.within place = own.enclose place inner) :
      expr.within place =
        if expr.rank?.any fun own => own.needsParentheses place then "(" ++ expr.text ++ ")"
        else expr.text := by
    have bare : expr.text = inner := by
      rw [text, eq, Precedence.enclose_topLevel (lt_topLevel_of_rank? rank)]
    rw [rank, bare, eq]
    rfl
  cases expr with
  | literal value span =>
      cases value with
      | bool value => rfl
      | int value =>
          by_cases negative : value < 0
          · have eq : ∀ place, (Expr.literal (.int value) span).within place =
                Precedence.prefixed.enclose place (Literal.int value).text := by
              intro place
              rw [within, Literal.within, if_pos negative, Literal.precedence, if_pos negative]
            exact enclosed (if_pos negative) eq
          · simp [within, text, rank?, Literal.within, negative]
      | float value => exact enclosed rfl fun place => rfl
  | binary op left right span => exact enclosed rfl fun place => rfl
  | prefixed op operand span => exact enclosed rfl fun place => rfl
  | suffixed op operand span => exact enclosed rfl fun place => rfl
  | conditional test yes no span => exact enclosed rfl fun place => rfl
  | _ => rfl

/-- An expression is written in parentheses, or it binds more tightly than its place. -/
theorem within_cases (place : Precedence) (expr : Expr) :
    expr.within place = "(" ++ expr.text ++ ")" ∨
      expr.within place = expr.text ∧ ∀ own ∈ expr.rank?, own.looseness < place.looseness := by
  rw [within_eq]
  split
  case isTrue => exact .inl rfl
  case isFalse outside =>
    refine .inr ⟨rfl, fun own rank => ?_⟩
    rw [Option.mem_def] at rank
    rw [rank, Option.any_some, Bool.not_eq_true] at outside
    exact Precedence.needsParentheses_eq_false_iff.1 outside

/-! ## Texts as characters -/

theorem toList_enclosed (text : String) (rest : List Char) :
    ("(" ++ text ++ ")").toList ++ rest = '(' :: (text.toList ++ ')' :: rest) := by
  simp [String.toList_append]

theorem text_negSucc (below : Nat) (span : Span) :
    (Expr.literal (.int (.negSucc below)) span).text = "-" ++ toString (below + 1) :=
  Literal.within_negSucc .topLevel below

theorem toList_text_binary (op : BinaryOp) (left right : Expr) (span : Span) :
    (Expr.binary op left right span).text.toList =
      (left.within op.precedence).toList ++
        ' ' :: (op.text.toList ++ ' ' :: (right.within op.precedence).toList) := by
  rw [text, within, Precedence.enclose_topLevel op.lt_topLevel]
  simp [String.toList_append]

theorem toList_text_prefixed (op : PrefixOp) (operand : Expr) (span : Span) :
    (Expr.prefixed op operand span).text.toList =
      op.text.toList ++ (operand.within .prefixed).toList := by
  rw [text, within, Precedence.enclose_topLevel (by decide), String.toList_append]

theorem toList_text_suffixed (op : Step) (operand : Expr) (span : Span) :
    (Expr.suffixed op operand span).text.toList =
      (operand.within .suffixed).toList ++ op.text.toList := by
  rw [text, within, Precedence.enclose_topLevel (by decide), String.toList_append]

theorem toList_text_apply (head : Head) (arguments : List Expr) (span : Span) :
    (Expr.apply head arguments span).text.toList =
      head.text.toList ++ '(' :: ((argumentsText arguments).toList ++ [')']) := by
  rw [text, within]
  simp [String.toList_append]

theorem toList_text_index (base position : Expr) (span : Span) :
    (Expr.index base position span).text.toList =
      (base.within .suffixed).toList ++ '[' :: ((position.within .topLevel).toList ++ [']']) := by
  rw [text, within]
  simp [String.toList_append]

theorem toList_text_select (selection : Selection) (base : Expr) (name : String) (span : Span) :
    (Expr.select selection base name span).text.toList =
      (base.within .suffixed).toList ++ '.' :: name.toList := by
  rw [text, within]
  simp [String.toList_append]

theorem toList_text_conditional (test yes no : Expr) (span : Span) :
    (Expr.conditional test yes no span).text.toList =
      (test.within .conditional).toList ++
        ' ' :: '?' :: ' ' :: ((yes.within .conditional).toList ++
          ' ' :: ':' :: ' ' :: (no.within .conditional).toList) := by
  rw [text, within, Precedence.enclose_topLevel (by decide)]
  simp [String.toList_append]

/-! ## The text of a reading -/

theorem within_reading_literal (place : Precedence) (value : Literal) :
    value.reading.within place = value.within place := by
  cases value with
  | bool value => rfl
  | int value =>
      cases value with
      | ofNat magnitude => rfl
      | negSucc below =>
          rw [Literal.reading, within, within, Literal.within_natCast, Literal.within_negSucc]
          rfl
  | float value => rfl

theorem argumentsText_readings {arguments : List Expr}
    (each : ∀ argument ∈ arguments, ∀ place,
      argument.reading.within place = argument.within place) :
    argumentsText (readings arguments) = argumentsText arguments := by
  induction arguments with
  | nil => rfl
  | cons first rest ih =>
      rw [List.forall_mem_cons] at each
      cases rest with
      | nil => exact each.1 .sequence
      | cons second rest =>
          have others : argumentsText (readings (second :: rest)) =
              argumentsText (second :: rest) :=
            ih each.2
          calc first.reading.within .sequence ++ ", " ++ argumentsText (readings (second :: rest))
            _ = first.within .sequence ++ ", " ++ argumentsText (second :: rest) := by
              rw [each.1, others]

/-- A reading has the text of its expression in every place. -/
@[simp] theorem within_reading (place : Precedence) (expr : Expr) :
    expr.reading.within place = expr.within place := by
  induction expr using Expr.induction generalizing place with
  | literal value span => exact within_reading_literal place value
  | reference name span => rfl
  | binary op left right span ihLeft ihRight => rw [reading, within, within, ihLeft, ihRight]
  | prefixed op operand span ih => rw [reading, within, within, ih]
  | suffixed op operand span ih => rw [reading, within, within, ih]
  | apply head arguments span ih =>
      rw [reading, within, within, argumentsText_readings ih]
      rfl
  | index base position span ihBase ihPosition =>
      rw [reading, within, within, ihBase, ihPosition]
  | select selection base name span ih => rw [reading, within, within, ih]
  | conditional test yes no span ihTest ihYes ihNo =>
      rw [reading, within, within, ihTest, ihYes, ihNo]

end Expr

end ShaderTree
