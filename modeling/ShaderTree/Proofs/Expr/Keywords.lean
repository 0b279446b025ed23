import ShaderTree.Proofs.Expr.Readability

/-!
# Keywords

Statements are told apart by the words they start with.  An expression may stand first in a statement,
so no name of it may be such a word; the words that it starts with are then free, since the spellings of
types, numerals and truth values are no keywords either.  A semicolon ends a statement, and there is
none in the text of an expression.
-/

namespace ShaderTree

/-- The words that statements start with or that stand between their parts. -/
inductive Keyword where
  | breakOut
  | caseLabel
  | continueOn
  | defaultLabel
  | discard
  | doWhile
  | otherwise
  | forLoop
  | choice
  | return
  | switch
  | whileLoop
deriving DecidableEq, Repr

namespace Keyword

/-- The spelling of a keyword. -/
def text : Keyword → String
  | .breakOut => "break"
  | .caseLabel => "case"
  | .continueOn => "continue"
  | .defaultLabel => "default"
  | .discard => "discard"
  | .doWhile => "do"
  | .otherwise => "else"
  | .forLoop => "for"
  | .choice => "if"
  | .return => "return"
  | .switch => "switch"
  | .whileLoop => "while"

/-- All keywords. -/
def all : List Keyword :=
  [.breakOut, .caseLabel, .continueOn, .defaultLabel, .discard, .doWhile, .otherwise, .forLoop,
    .choice, .return, .switch, .whileLoop]

/-- The keyword of a spelling. -/
def ofWord? (word : List Char) : Option Keyword :=
  all.find? fun keyword => keyword.text.toList = word

theorem ofWord?_eq_none_iff {word : List Char} :
    ofWord? word = none ↔ ∀ keyword ∈ all, keyword.text.toList ≠ word := by
  simp [ofWord?]

/-- The spellings of the keywords are told apart. -/
theorem ofWord?_text (keyword : Keyword) : ofWord? keyword.text.toList = some keyword := by
  cases keyword <;> decide

theorem isWord_text (keyword : Keyword) : Word.IsWord keyword.text.toList :=
  Word.isWord_name (by cases keyword <;> decide)

end Keyword

namespace Word

/-- A text starts with no keyword. -/
def IsFree (text : List Char) : Prop :=
  Keyword.ofWord? (first text) = none

/-- What stands behind a text does not matter to its first word unless the word goes on there. -/
theorem first_append_of_ends (text : List Char) {rest : List Char} (ends : Ends rest) :
    first (text ++ rest) = first text := by
  induction text with
  | nil =>
      cases rest with
      | nil => rfl
      | cons char rest => exact List.takeWhile_cons_of_neg (Bool.eq_false_iff.1 (ends char rfl))
  | cons char text ih =>
      rw [first, List.cons_append, first, List.takeWhile_cons, List.takeWhile_cons]
      split
      · exact congrArg (char :: ·) ih
      · rfl

theorem IsFree.append {text rest : List Char} (free : IsFree text) (ends : Ends rest) :
    IsFree (text ++ rest) := by
  rw [IsFree, first_append_of_ends text ends]
  exact free

/-- A text that starts with no word starts with no keyword. -/
theorem isFree_cons {char : Char} (rest : List Char) (other : isPart char = false) :
    IsFree (char :: rest) := by
  have empty : first (char :: rest) = [] :=
    List.takeWhile_cons_of_neg (Bool.eq_false_iff.1 other)
  rw [IsFree, empty]
  decide

theorem isFree_of_isWord {word : List Char} (isWord : IsWord word)
    (free : Keyword.ofWord? word = none) : IsFree word := by
  have whole := first_append isWord ends_nil
  rw [List.append_nil] at whole
  rw [IsFree, whole, free]

/-- No keyword is a numeral. -/
theorem isFree_toString (number : Nat) : IsFree (toString number).toList := by
  refine isFree_of_isWord (isWord_toString number) (Keyword.ofWord?_eq_none_iff.2 ?_)
  intro keyword listed same
  have none : ∀ keyword ∈ Keyword.all, isNumeral keyword.text.toList = false := by decide
  have other := none keyword listed
  rw [same, isNumeral_toString] at other
  cases other

/-- A text starts with a word. -/
def Begins (text : List Char) : Prop :=
  ∃ char rest, text = char :: rest ∧ isPart char = true

theorem Begins.append {text : List Char} (begins : Begins text) (rest : List Char) :
    Begins (text ++ rest) := by
  obtain ⟨char, others, rfl, part⟩ := begins
  exact ⟨char, others ++ rest, rfl, part⟩

theorem IsWord.begins {word : List Char} (isWord : IsWord word) : Begins word :=
  isWord.exists_cons

theorem IsWord.not_mem {word : List Char} (isWord : IsWord word) {char : Char}
    (other : isPart char = false) : char ∉ word := by
  intro within
  rw [isWord.parts char within] at other
  cases other

end Word

/-! ## Names -/

/-- The name of a structure. -/
def ElementTy.identifiers : ElementTy → List String
  | .struct name => [name]
  | _ => []

/-- The name that stands before arguments, unless it is a spelling of the language. -/
def Head.identifiers : Head → List String
  | .function name _ => [name]
  | .type ty => ty.element.identifiers

namespace Expr

mutual

/-- The names that an expression uses, of variables, functions, structures and fields. -/
def identifiers : Expr → List String
  | .literal _ _ => []
  | .reference name _ => [name]
  | .binary _ left right _ => left.identifiers ++ right.identifiers
  | .prefixed _ operand _ => operand.identifiers
  | .suffixed _ operand _ => operand.identifiers
  | .apply head arguments _ => head.identifiers ++ identifiersOfEach arguments
  | .index base position _ => base.identifiers ++ position.identifiers
  | .select _ base name _ => base.identifiers ++ [name]
  | .conditional test yes no _ => test.identifiers ++ yes.identifiers ++ no.identifiers

/-- The names that arguments use. -/
def identifiersOfEach : List Expr → List String
  | [] => []
  | first :: rest => first.identifiers ++ identifiersOfEach rest

end

/-- An expression has no floating point literal, and names things by names that are no keywords. -/
structure IsProper (expr : Expr) : Prop where
  plain : expr.isPlain = true
  free : ∀ name ∈ expr.identifiers, Keyword.ofWord? name.toList = none

end Expr

instance (expr : Expr) : Decidable expr.IsProper :=
  decidable_of_iff
    (expr.isPlain = true ∧ ∀ name ∈ expr.identifiers, Keyword.ofWord? name.toList = none)
    ⟨fun ⟨plain, free⟩ => ⟨plain, free⟩, fun ⟨plain, free⟩ => ⟨plain, free⟩⟩

/-! ## First words -/

/-- A type without dimensions is spelled as no word that starts as no scalar type does. -/
theorem ElementTy.text_ne {element : ElementTy} {word : String}
    (scalar : ∀ component : Scalar, ¬ component.text.toList <+: word.toList)
    (void : word ≠ "void") (sampler : word ≠ "sampler2D")
    (names : ∀ name ∈ element.identifiers, name ≠ word) : element.text ≠ word := by
  have other (component : Scalar) (rest : String) : component.text ++ rest ≠ word := by
    rintro rfl
    refine scalar component ?_
    rw [String.toList_append]
    exact List.prefix_append ..
  cases element with
  | void => exact void.symm
  | scalar component =>
      rintro rfl
      exact scalar component (List.prefix_refl _)
  | vector component count => exact other component _
  | matrix component columns rows =>
      rw [text, String.append_assoc, String.append_assoc]
      exact other component _
  | sampler2D => exact sampler.symm
  | struct name => exact names name List.mem_cons_self

theorem ElementTy.isFree_text {element : ElementTy} (plain : element.isPlain = true)
    (free : ∀ name ∈ element.identifiers, Keyword.ofWord? name.toList = none) :
    Word.IsFree element.text.toList := by
  refine Word.isFree_of_isWord (Word.isWord_name (isName_text plain)) ?_
  refine Keyword.ofWord?_eq_none_iff.2 fun keyword listed same => ?_
  have scalar (component : Scalar) : ¬ component.text.toList <+: keyword.text.toList := by
    have none : ∀ keyword ∈ Keyword.all, ¬ component.text.toList <+: keyword.text.toList := by
      cases component <;> decide
    exact none keyword listed
  have names : ∀ name ∈ element.identifiers, name ≠ keyword.text := by
    rintro _ within rfl
    exact Keyword.ofWord?_eq_none_iff.1 (free _ within) keyword listed rfl
  exact text_ne scalar (by cases keyword <;> decide) (by cases keyword <;> decide) names
    (String.toList_inj.1 same.symm)

theorem Ty.isFree_text {ty : Ty} (plain : ty.element.isPlain = true)
    (free : ∀ name ∈ ty.element.identifiers, Keyword.ofWord? name.toList = none) :
    Word.IsFree ty.text.toList := by
  induction ty with
  | single element span => exact ElementTy.isFree_text plain free
  | array of count span ih =>
      rw [text, String.toList_append]
      refine (ih plain free).append ?_
      cases count with
      | none => exact Word.ends_cons _ rfl
      | some count =>
          rw [dimensionText, String.toList_append, String.toList_append]
          exact Word.ends_cons _ rfl

theorem Head.isFree_text {head : Head} (plain : head.isPlain = true)
    (free : ∀ name ∈ head.identifiers, Keyword.ofWord? name.toList = none) :
    Word.IsFree head.text.toList := by
  cases head with
  | function name isPure =>
      exact Word.isFree_of_isWord (Word.isWord_name plain) (free name List.mem_cons_self)
  | type ty => exact Ty.isFree_text plain free

namespace Expr

theorem isFree_within_of {expr : Expr} (bare : Word.IsFree expr.text.toList) (place : Precedence) :
    Word.IsFree (expr.within place).toList := by
  rcases expr.within_cases place with enclosed | ⟨same, -⟩
  · have text := toList_enclosed expr.text []
    rw [List.append_nil] at text
    rw [enclosed, text]
    exact Word.isFree_cons _ rfl
  · rw [same]
    exact bare

/-- The text of an expression whose names are no keywords starts with none. -/
theorem IsProper.isFree_within {expr : Expr} (proper : expr.IsProper) (place : Precedence) :
    Word.IsFree (expr.within place).toList := by
  obtain ⟨plain, free⟩ := proper
  refine isFree_within_of ?_ place
  induction expr using Expr.induction with
  | literal value span =>
      cases value with
      | bool value =>
          have other : Keyword.ofWord? (toString value).toList = none := by cases value <;> decide
          exact Word.isFree_of_isWord (Word.isWord_truthValue value) other
      | int value =>
          cases value with
          | ofNat magnitude =>
              have text : (Expr.literal (.int (.ofNat magnitude)) span).text = toString magnitude :=
                Literal.within_natCast .topLevel magnitude
              rw [text]
              exact Word.isFree_toString magnitude
          | negSucc below =>
              rw [text_negSucc, String.toList_append]
              exact Word.isFree_cons _ rfl
      | float value => cases plain
  | reference name span =>
      exact Word.isFree_of_isWord (Word.isWord_name plain) (free name List.mem_cons_self)
  | binary op left right span ihLeft ihRight =>
      rw [isPlain, Bool.and_eq_true] at plain
      rw [identifiers, List.forall_mem_append] at free
      rw [toList_text_binary]
      exact (isFree_within_of (ihLeft plain.1 free.1) _).append (Word.ends_cons _ rfl)
  | prefixed op operand span ih =>
      rw [toList_text_prefixed]
      cases op with
      | step op => cases op <;> exact Word.isFree_cons _ rfl
      | _ => exact Word.isFree_cons _ rfl
  | suffixed op operand span ih =>
      rw [toList_text_suffixed]
      refine (isFree_within_of (ih plain free) _).append ?_
      cases op <;> exact Word.ends_cons _ rfl
  | apply head arguments span ih =>
      rw [isPlain, Bool.and_eq_true] at plain
      rw [identifiers, List.forall_mem_append] at free
      rw [toList_text_apply]
      exact (Head.isFree_text plain.1 free.1).append (Word.ends_cons _ rfl)
  | index base position span ihBase ihPosition =>
      rw [isPlain, Bool.and_eq_true] at plain
      rw [identifiers, List.forall_mem_append] at free
      rw [toList_text_index]
      exact (isFree_within_of (ihBase plain.1 free.1) _).append (Word.ends_cons _ rfl)
  | select selection base name span ih =>
      rw [isPlain, Bool.and_eq_true] at plain
      rw [identifiers, List.forall_mem_append] at free
      rw [toList_text_select]
      exact (isFree_within_of (ih plain.1 free.1) _).append (Word.ends_cons _ rfl)
  | conditional test yes no span ihTest ihYes ihNo =>
      rw [isPlain, Bool.and_eq_true, Bool.and_eq_true] at plain
      rw [identifiers, List.forall_mem_append, List.forall_mem_append] at free
      rw [toList_text_conditional]
      exact (isFree_within_of (ihTest plain.1.1 free.1.1) _).append (Word.ends_cons _ rfl)

end Expr

/-! ## Semicolons -/

/-- Only brackets stand in the spelling of a type among the characters that are no part of a word. -/
theorem Ty.not_mem_text {ty : Ty} (plain : ty.element.isPlain = true) {char : Char}
    (other : Word.isPart char = false) (noBracket : char ∉ ['[', ']']) : char ∉ ty.text.toList := by
  induction ty with
  | single element span => exact (Word.isWord_name (ElementTy.isName_text plain)).not_mem other
  | array of count span ih =>
      rw [text, String.toList_append, List.mem_append, not_or]
      refine ⟨ih plain, ?_⟩
      cases count with
      | none => exact noBracket
      | some count =>
          have digits : char ∉ (toString count).toList := (Word.isWord_toString count).not_mem other
          have notOpen : char ∉ "[".toList := fun within =>
            noBracket (List.mem_append_left [']'] within)
          have notClose : char ∉ "]".toList := fun within =>
            noBracket (List.mem_append_right ['['] within)
          simp only [dimensionText, String.toList_append, List.mem_append, not_or]
          exact ⟨⟨notOpen, digits⟩, notClose⟩

namespace Expr

theorem semicolon_not_mem_within_of {expr : Expr} (bare : ';' ∉ expr.text.toList)
    (place : Precedence) : ';' ∉ (expr.within place).toList := by
  rcases expr.within_cases place with enclosed | ⟨same, -⟩
  · have text := toList_enclosed expr.text []
    rw [List.append_nil] at text
    rw [enclosed, text]
    simpa using bare
  · rw [same]
    exact bare

theorem semicolon_not_mem_argumentsText {arguments : List Expr}
    (each : ∀ argument ∈ arguments, ';' ∉ argument.text.toList) :
    ';' ∉ (argumentsText arguments).toList := by
  induction arguments with
  | nil => exact List.not_mem_nil
  | cons first rest ih =>
      rw [List.forall_mem_cons] at each
      have own := semicolon_not_mem_within_of each.1 .sequence
      cases rest with
      | nil => exact own
      | cons second rest =>
          have text := argumentsText_cons_cons first second rest []
          rw [List.append_nil, List.append_nil] at text
          rw [text]
          simpa using ⟨own, ih each.2⟩

/-- There is no semicolon in the text of a plain expression. -/
theorem semicolon_not_mem_within {expr : Expr} (plain : expr.isPlain = true) (place : Precedence) :
    ';' ∉ (expr.within place).toList := by
  refine semicolon_not_mem_within_of ?_ place
  induction expr using Expr.induction with
  | literal value span =>
      cases value with
      | bool value => exact (Word.isWord_truthValue value).not_mem rfl
      | int value =>
          cases value with
          | ofNat magnitude =>
              have text : (Expr.literal (.int (.ofNat magnitude)) span).text = toString magnitude :=
                Literal.within_natCast .topLevel magnitude
              rw [text]
              exact (Word.isWord_toString magnitude).not_mem rfl
          | negSucc below =>
              have digits : ';' ∉ (toString (below + 1)).toList :=
                (Word.isWord_toString (below + 1)).not_mem rfl
              rw [text_negSucc, String.toList_append]
              simpa using digits
      | float value => cases plain
  | reference name span => exact (Word.isWord_name plain).not_mem rfl
  | binary op left right span ihLeft ihRight =>
      rw [isPlain, Bool.and_eq_true] at plain
      have symbol : ';' ∉ op.text.toList := by
        have each : (BinaryOp.all.all fun op => decide (';' ∉ op.text.toList)) = true := rfl
        exact of_decide_eq_true (BinaryOp.of_all each op)
      have left := semicolon_not_mem_within_of (ihLeft plain.1) op.precedence
      have right := semicolon_not_mem_within_of (ihRight plain.2) op.precedence
      rw [toList_text_binary]
      simpa using ⟨left, symbol, right⟩
  | prefixed op operand span ih =>
      have sign : ';' ∉ op.text.toList := by
        cases op with
        | step op => cases op <;> decide
        | _ => decide
      rw [toList_text_prefixed, List.mem_append, not_or]
      exact ⟨sign, semicolon_not_mem_within_of (ih plain) _⟩
  | suffixed op operand span ih =>
      have sign : ';' ∉ op.text.toList := by cases op <;> decide
      rw [toList_text_suffixed, List.mem_append, not_or]
      exact ⟨semicolon_not_mem_within_of (ih plain) _, sign⟩
  | apply head arguments span ih =>
      rw [isPlain, Bool.and_eq_true, arePlain_iff] at plain
      have headText : ';' ∉ head.text.toList := by
        cases head with
        | function name isPure => exact (Word.isWord_name plain.1).not_mem rfl
        | type ty => exact Ty.not_mem_text plain.1 rfl (by decide)
      have each := semicolon_not_mem_argumentsText fun argument within =>
        ih argument within (plain.2 argument within)
      rw [toList_text_apply]
      simpa using ⟨headText, each⟩
  | index base position span ihBase ihPosition =>
      rw [isPlain, Bool.and_eq_true] at plain
      have base := semicolon_not_mem_within_of (ihBase plain.1) .suffixed
      have position := semicolon_not_mem_within_of (ihPosition plain.2) .topLevel
      rw [toList_text_index]
      simpa using ⟨base, position⟩
  | select selection base name span ih =>
      rw [isPlain, Bool.and_eq_true] at plain
      have base := semicolon_not_mem_within_of (ih plain.1) .suffixed
      have named : ';' ∉ name.toList := (Word.isWord_name plain.2).not_mem rfl
      rw [toList_text_select]
      simpa using ⟨base, named⟩
  | conditional test yes no span ihTest ihYes ihNo =>
      rw [isPlain, Bool.and_eq_true, Bool.and_eq_true] at plain
      have test := semicolon_not_mem_within_of (ihTest plain.1.1) .conditional
      have yes := semicolon_not_mem_within_of (ihYes plain.1.2) .conditional
      have no := semicolon_not_mem_within_of (ihNo plain.2) .conditional
      rw [toList_text_conditional]
      simpa using ⟨test, yes, no⟩

end Expr

end ShaderTree
