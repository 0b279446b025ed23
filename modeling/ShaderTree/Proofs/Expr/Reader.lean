import ShaderTree.Proofs.Expr.Reading

/-!
# A reader of expressions

The reader goes from left to right through a text and is told the place that the expression is to
stand in.  It reads what stands first, which is a word, an operator in front of its operand, or
something in parentheses, and extends it for as long as what follows belongs to it: a connective
belongs to the expression if its rank fits the place.  The rest of the text is left over.

Any text that an expression has is read as the reading of the expression.  Other texts are read in some
way or not at all, which nothing depends on.
-/

namespace ShaderTree

namespace Reader

/-! ## Words and symbols -/

/-- The expression that a word is. -/
def ofWord (word : List Char) : Expr :=
  if word = "true".toList then
    .literal (.bool true) .nowhere
  else if word = "false".toList then
    .literal (.bool false) .nowhere
  else if Word.isNumeral word then
    .literal (.int (Word.value word)) .nowhere
  else
    .reference (String.ofList word) .nowhere

/-- The operator in front of an operand at the beginning of a text, and what stands behind it. -/
def prefixOp? : List Char → Option (PrefixOp × List Char)
  | '+' :: '+' :: rest => some (.step .increment, rest)
  | '-' :: '-' :: rest => some (.step .decrement, rest)
  | '-' :: rest => some (.negate, rest)
  | '+' :: rest => some (.plus, rest)
  | '!' :: rest => some (.not, rest)
  | '~' :: rest => some (.complement, rest)
  | _ => none

/-- The binary operator of a spelling. -/
def binaryOp? (symbol : List Char) : Option BinaryOp :=
  BinaryOp.all.find? fun op => op.text.toList = symbol

/-- Whether a character is no space. -/
def isSolid (char : Char) : Bool :=
  char ≠ ' '

/-! ## The reader -/

end Reader

namespace Precedence

open Reader

mutual

/-- Reads an expression in a place, up to where the place ends it. -/
def read (place : Precedence) (text : List Char) : Option (Expr × List Char) :=
  match text with
  | '(' :: inside => do
      match ← topLevel |>.read inside with
      | (inner, ')' :: rest) => place |>.extend inner rest
      | _ => none
  | text =>
      match prefixOp? text with
      | some (op, rest) => do
          let (operand, rest) ← prefixed |>.read rest
          place |>.extend (.prefixed op operand .nowhere) rest
      | none =>
          if (Word.first text).isEmpty then
            none
          else
            place |>.extend (ofWord (Word.first text)) (Word.behind text)
partial_fixpoint

/-- Goes on with an expression that has been read, for as long as what follows belongs to it. -/
def extend (place : Precedence) (left : Expr) (text : List Char) : Option (Expr × List Char) :=
  match text with
  | '[' :: ']' :: rest => place |>.extend (.reference (left.text ++ "[]") .nowhere) rest
  | '[' :: inside => do
      match ← topLevel |>.read inside with
      | (position, ']' :: rest) => place |>.extend (.index left position .nowhere) rest
      | _ => none
  | '.' :: rest =>
      place |>.extend (.select .field left (String.ofList (Word.first rest)) .nowhere)
        (Word.behind rest)
  | '(' :: ')' :: rest => place |>.extend (.apply (.function left.text false) [] .nowhere) rest
  | '(' :: inside => do
      let (arguments, rest) ← sequence |>.readArguments inside
      place |>.extend (.apply (.function left.text false) arguments .nowhere) rest
  | '+' :: '+' :: rest => place |>.extend (.suffixed .increment left .nowhere) rest
  | '-' :: '-' :: rest => place |>.extend (.suffixed .decrement left .nowhere) rest
  | ' ' :: '?' :: ' ' :: behind =>
      if conditional.needsParentheses place then
        some (left, text)
      else do
        match ← conditional |>.read behind with
        | (yes, ' ' :: ':' :: ' ' :: rest) => do
            let (no, rest) ← conditional |>.read rest
            place |>.extend (.conditional left yes no .nowhere) rest
        | _ => none
  | ' ' :: behind =>
      match binaryOp? (behind.takeWhile isSolid) with
      | some op =>
          if op.precedence.needsParentheses place then
            some (left, text)
          else do
            let (right, rest) ← op.precedence |>.read ((behind.dropWhile isSolid).drop 1)
            place |>.extend (.binary op left right .nowhere) rest
      | none => some (left, text)
  | text => some (left, text)
partial_fixpoint

/-- Reads arguments in a place, of which there is at least one, up to the parenthesis behind them. -/
def readArguments (place : Precedence) (text : List Char) : Option (List Expr × List Char) := do
  match ← place |>.read text with
  | (last, ')' :: rest) => some ([last], rest)
  | (first, ',' :: ' ' :: behind) => do
      let (arguments, rest) ← place |>.readArguments behind
      some (first :: arguments, rest)
  | _ => none
partial_fixpoint

end

end Precedence

namespace Reader

/-! ## Where reading stops -/

/-- Whether a character behind an expression ends it, wherever the expression stands. -/
def closes (char : Char) : Bool :=
  char ∉ ['[', '.', '(', '+', '-', ' '] && !Word.isPart char

/-- A text stops the reader in the places of operands that bind more tightly than the given place. -/
def Stops (place : Precedence) (text : List Char) : Prop :=
  ∀ (inner : Precedence) (left : Expr),
    Precedence.prefixed.looseness ≤ inner.looseness → inner.looseness < place.looseness →
      inner.extend left text = some (left, text)

theorem Stops.mono {tight loose : Precedence} {text : List Char} (stops : Stops loose text)
    (le : tight.looseness ≤ loose.looseness) : Stops tight text :=
  fun inner left lower upper => stops inner left lower (Nat.lt_of_lt_of_le upper le)

/-- There is no place for an operand that binds more tightly than a suffix. -/
theorem stops_suffixed (text : List Char) : Stops .suffixed text := by
  intro inner left lower upper
  exact absurd (Nat.lt_of_le_of_lt lower upper) (by decide)

theorem ends_of_closes {char : Char} (rest : List Char) (closing : closes char = true) :
    Word.Ends (char :: rest) := by
  rw [closes, Bool.and_eq_true, Bool.not_eq_true'] at closing
  exact Word.ends_cons rest closing.2

@[simp] theorem extend_nil (place : Precedence) (left : Expr) :
    place.extend left [] = some (left, []) := by
  rw [Precedence.extend] <;> exact fun _ absurd => nomatch absurd

theorem extend_of_closes {char : Char} (closing : closes char = true) (place : Precedence)
    (left : Expr) (rest : List Char) :
    place.extend left (char :: rest) = some (left, char :: rest) := by
  rw [Precedence.extend]
  all_goals
    rintro _ ⟨⟩
    exact absurd closing (by decide)

theorem stops_of_closes {char : Char} (closing : closes char = true) (place : Precedence)
    (rest : List Char) : Stops place (char :: rest) :=
  fun inner left _ _ => extend_of_closes closing inner left rest

/-! ## Connectives -/

theorem isSolid_text (op : BinaryOp) : ∀ char ∈ op.text.toList, isSolid char = true := by
  have each : (BinaryOp.all.all fun op => op.text.toList.all isSolid) = true := rfl
  exact List.all_eq_true.1 (BinaryOp.of_all each op)

/-- The spellings of the binary operators are told apart. -/
theorem binaryOp?_text (op : BinaryOp) : binaryOp? op.text.toList = some op := by
  have each : (BinaryOp.all.all fun op => binaryOp? op.text.toList = some op) = true := rfl
  exact of_decide_eq_true (BinaryOp.of_all each op)

/-- No binary operator is spelled with a question mark. -/
theorem binaryText_append_ne (op : BinaryOp) (rest behind : List Char) :
    op.text.toList ++ rest ≠ '?' :: behind := by
  have each : (BinaryOp.all.all fun op =>
      op.text.toList.head?.any fun char => char ≠ '?') = true := rfl
  have other := BinaryOp.of_all each op
  intro same
  cases holds : op.text.toList with
  | nil => simp [holds] at other
  | cons char others =>
      rw [holds, List.cons_append, List.cons.injEq] at same
      simp [holds, same.1] at other

theorem takeWhile_symbol (op : BinaryOp) (rest : List Char) :
    (op.text.toList ++ ' ' :: rest).takeWhile isSolid = op.text.toList := by
  rw [List.takeWhile_append_of_pos (isSolid_text op)]
  exact List.append_nil _

theorem dropWhile_symbol (op : BinaryOp) (rest : List Char) :
    (op.text.toList ++ ' ' :: rest).dropWhile isSolid = ' ' :: rest := by
  rw [List.dropWhile_append_of_pos (isSolid_text op)]
  rfl

/-- The reader stops before an operator whose rank does not fit the place. -/
theorem stops_binary (op : BinaryOp) (rest : List Char) :
    Stops op.precedence (' ' :: (op.text.toList ++ ' ' :: rest)) := by
  intro inner left _ upper
  rw [Precedence.extend, takeWhile_symbol, binaryOp?_text]
  · exact if_pos (Precedence.needsParentheses_iff.2 (Nat.le_of_lt upper))
  · exact fun behind same => binaryText_append_ne op _ _ same

/-- The reader goes on behind an operator whose rank fits the place. -/
theorem extend_binary {place : Precedence} {op : BinaryOp} {right : Expr} {inside rest : List Char}
    (fits : op.precedence.looseness < place.looseness)
    (operand : op.precedence.read inside = some (right, rest)) (left : Expr) :
    place.extend left (' ' :: (op.text.toList ++ ' ' :: inside)) =
      place.extend (.binary op left right .nowhere) rest := by
  have bare := Precedence.needsParentheses_eq_false_iff.2 fits
  rw [Precedence.extend, takeWhile_symbol, dropWhile_symbol, binaryOp?_text]
  · simp only [bare, List.drop_one, List.tail_cons, operand]
    rfl
  · exact fun behind same => binaryText_append_ne op _ _ same

theorem stops_conditional (rest : List Char) : Stops .conditional (' ' :: '?' :: ' ' :: rest) := by
  intro inner left _ upper
  rw [Precedence.extend]
  exact if_pos (Precedence.needsParentheses_iff.2 (Nat.le_of_lt upper))

theorem extend_conditional {place : Precedence} {yes no : Expr} {inside behind rest : List Char}
    (fits : Precedence.conditional.looseness < place.looseness)
    (readYes : Precedence.conditional.read inside = some (yes, ' ' :: ':' :: ' ' :: behind))
    (readNo : Precedence.conditional.read behind = some (no, rest)) (test : Expr) :
    place.extend test (' ' :: '?' :: ' ' :: inside) =
      place.extend (.conditional test yes no .nowhere) rest := by
  have bare := Precedence.needsParentheses_eq_false_iff.2 fits
  rw [Precedence.extend]
  simp only [bare, readYes, readNo, Option.bind_eq_bind, Option.bind_some]
  rfl

/-- A colon in the middle of a conditional is no operator. -/
theorem extend_colon (place : Precedence) (left : Expr) (rest : List Char) :
    place.extend left (' ' :: ':' :: ' ' :: rest) = some (left, ' ' :: ':' :: ' ' :: rest) := by
  have unknown : binaryOp? ((':' :: ' ' :: rest).takeWhile isSolid) = none := rfl
  rw [Precedence.extend, unknown]
  exact fun behind same => nomatch (List.cons.inj same).1

theorem stops_colon (place : Precedence) (rest : List Char) :
    Stops place (' ' :: ':' :: ' ' :: rest) :=
  fun inner left _ _ => extend_colon inner left rest

/-! ## Words -/

theorem ofWord_bool (value : Bool) :
    ofWord (toString value).toList = .literal (.bool value) .nowhere := by
  cases value <;> rfl

theorem ofWord_name {name : String} (named : Word.isName name = true) :
    ofWord name.toList = .reference name .nowhere := by
  obtain ⟨-, -, neTrue, neFalse⟩ := Word.isName_iff.1 named
  have notTrue : name.toList ≠ "true".toList := fun same => neTrue (String.toList_inj.1 same)
  have notFalse : name.toList ≠ "false".toList := fun same => neFalse (String.toList_inj.1 same)
  rw [ofWord, if_neg notTrue, if_neg notFalse, Word.isNumeral_name named, String.ofList_toList]
  rfl

theorem ofWord_toString (number : Nat) :
    ofWord (toString number).toList = .literal (.int number) .nowhere := by
  have digits := Word.isNumeral_toString number
  have notTrue : (toString number).toList ≠ "true".toList := by
    intro same
    rw [same] at digits
    exact absurd digits (by decide)
  have notFalse : (toString number).toList ≠ "false".toList := by
    intro same
    rw [same] at digits
    exact absurd digits (by decide)
  rw [ofWord, if_neg notTrue, if_neg notFalse, if_pos digits, Word.value_toString]

/-- Whether a character starts the text of an operator in front of its operand. -/
def isSign (char : Char) : Bool :=
  char ∈ ['+', '-', '!', '~']

theorem prefixOp?_of_not_isSign {char : Char} (other : isSign char = false) (rest : List Char) :
    prefixOp? (char :: rest) = none := by
  unfold prefixOp?
  split
  case h_7 => rfl
  all_goals
    rename_i same
    cases (List.cons.inj same).1
    exact absurd other (by decide)

/-- A sign is no part of a word. -/
theorem isSign_of_isPart {char : Char} (part : Word.isPart char = true) : isSign char = false := by
  rw [Bool.eq_false_iff]
  intro sign
  simp only [isSign, List.mem_cons, List.not_mem_nil, or_false, decide_eq_true_eq] at sign
  rcases sign with rfl | rfl | rfl | rfl
  all_goals exact absurd part (by decide)

/-- The word that a text starts with is read first. -/
theorem read_word {word rest : List Char} (isWord : Word.IsWord word) (ends : Word.Ends rest)
    (place : Precedence) : place.read (word ++ rest) = place.extend (ofWord word) rest := by
  obtain ⟨char, others, rfl, part⟩ := isWord.exists_cons
  have operand : prefixOp? (char :: others ++ rest) = none :=
    prefixOp?_of_not_isSign (isSign_of_isPart part) _
  rw [Precedence.read, operand, Word.first_append isWord ends, Word.behind_append isWord ends]
  · rfl
  · intro inside same
    exact Word.ne_of_isPart part rfl (List.cons.inj same).1

theorem read_truthValue (value : Bool) {rest : List Char} (ends : Word.Ends rest)
    (place : Precedence) :
    place.read ((toString value).toList ++ rest) =
      place.extend (.literal (.bool value) .nowhere) rest := by
  rw [read_word (Word.isWord_truthValue value) ends, ofWord_bool]

theorem read_name {name : String} (named : Word.isName name = true) {rest : List Char}
    (ends : Word.Ends rest) (place : Precedence) :
    place.read (name.toList ++ rest) = place.extend (.reference name .nowhere) rest := by
  rw [read_word (Word.isWord_name named) ends, ofWord_name named]

theorem read_numeral (number : Nat) {rest : List Char} (ends : Word.Ends rest)
    (place : Precedence) :
    place.read ((toString number).toList ++ rest) =
      place.extend (.literal (.int number) .nowhere) rest := by
  rw [read_word (Word.isWord_toString number) ends, ofWord_toString]

/-! ## Operands -/

theorem read_enclosed {inner : Expr} {inside rest : List Char}
    (readInner : Precedence.topLevel.read inside = some (inner, ')' :: rest)) (place : Precedence) :
    place.read ('(' :: inside) = place.extend inner rest := by
  rw [Precedence.read, readInner]
  rfl

/-- The operators in front of an operand are told apart if the operand starts with no sign. -/
theorem prefixOp?_text (op : PrefixOp) {char : Char} (other : isSign char = false)
    (rest : List Char) : prefixOp? (op.text.toList ++ char :: rest) = some (op, char :: rest) := by
  cases op with
  | negate =>
      refine prefixOp?.eq_3 (char :: rest) fun behind same => ?_
      cases (List.cons.inj same).1
      exact absurd other (by decide)
  | plus =>
      refine prefixOp?.eq_4 (char :: rest) fun behind same => ?_
      cases (List.cons.inj same).1
      exact absurd other (by decide)
  | not => rfl
  | complement => rfl
  | step op => cases op <;> rfl

/-- An operator in front of an operand starts with a sign. -/
theorem exists_cons_prefixText (op : PrefixOp) :
    ∃ sign rest, op.text.toList = sign :: rest ∧ isSign sign = true := by
  cases op with
  | step op => cases op <;> exact ⟨_, _, rfl, rfl⟩
  | _ => exact ⟨_, _, rfl, rfl⟩

theorem read_prefixed {op : PrefixOp} {operand : Expr} {char : Char} {inside rest : List Char}
    (other : isSign char = false)
    (readOperand : Precedence.prefixed.read (char :: inside) = some (operand, rest)) (place : Precedence) :
    place.read (op.text.toList ++ char :: inside) =
      place.extend (.prefixed op operand .nowhere) rest := by
  rw [Precedence.read, prefixOp?_text op other]
  · simp only [readOperand]
    rfl
  · intro inside same
    obtain ⟨sign, behind, holds, isOne⟩ := exists_cons_prefixText op
    rw [holds] at same
    cases (List.cons.inj same).1
    exact absurd isOne (by decide)

theorem extend_suffixed (place : Precedence) (op : Step) (left : Expr) (rest : List Char) :
    place.extend left (op.text.toList ++ rest) =
      place.extend (.suffixed op left .nowhere) rest := by
  cases op with
  | increment => exact Precedence.extend.eq_6 place left rest
  | decrement => exact Precedence.extend.eq_7 place left rest

theorem extend_select {name : String} (place : Precedence) (left : Expr) {rest : List Char}
    (named : Word.isName name = true) (ends : Word.Ends rest) :
    place.extend left ('.' :: (name.toList ++ rest)) =
      place.extend (.select .field left name .nowhere) rest := by
  have word := Word.isWord_name named
  rw [Precedence.extend, Word.first_append word ends, Word.behind_append word ends, String.ofList_toList]

theorem extend_unsized (place : Precedence) (left : Expr) (rest : List Char) :
    place.extend left ('[' :: ']' :: rest) =
      place.extend (.reference (left.text ++ "[]") .nowhere) rest := by
  rw [Precedence.extend]

theorem extend_index {place : Precedence} {position : Expr} {char : Char} {inside rest : List Char}
    (filled : char ≠ ']')
    (readPosition : Precedence.topLevel.read (char :: inside) = some (position, ']' :: rest)) (left : Expr) :
    place.extend left ('[' :: char :: inside) =
      place.extend (.index left position .nowhere) rest := by
  rw [Precedence.extend, readPosition]
  · rfl
  · exact fun behind same => filled (List.cons.inj same).1

theorem extend_apply_nil (place : Precedence) (left : Expr) (rest : List Char) :
    place.extend left ('(' :: ')' :: rest) =
      place.extend (.apply (.function left.text false) [] .nowhere) rest := by
  rw [Precedence.extend]

theorem extend_apply {place : Precedence} {arguments : List Expr} {char : Char}
    {inside rest : List Char} (filled : char ≠ ')')
    (readInside : Precedence.sequence.readArguments (char :: inside) = some (arguments, rest)) (left : Expr) :
    place.extend left ('(' :: char :: inside) =
      place.extend (.apply (.function left.text false) arguments .nowhere) rest := by
  rw [Precedence.extend, readInside]
  · rfl
  · exact fun behind same => filled (List.cons.inj same).1

end Reader

end ShaderTree
