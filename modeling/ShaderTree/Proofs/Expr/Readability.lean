import ShaderTree.Proofs.Expr.Reader
import ShaderTree.Proofs.Tree.Written

/-!
# Printed expressions are readable

The reader undoes the printer: it reads the text of a plain expression, written in any place, as the
reading of the expression.  So two plain expressions with the same text in one place have the same
reading, and the parentheses that the printer writes are enough.

An expression is read from its first operand on and then extended, form by form.  What has to be known
of the text behind an expression is that it does not go on with a word, and that it stops the reader in
every place that binds more tightly than the one around.  The induction is on the expression, with the
text behind it left open.
-/

namespace ShaderTree

namespace Reader

/-! ## What an expression starts with -/

/-- The text of an expression starts with a word, a parenthesis or, in loose places, a sign. -/
def Starts (place : Precedence) (text : List Char) : Prop :=
  ∃ char rest, text = char :: rest ∧
    (Word.isPart char = true ∨ char = '(' ∨
      isSign char = true ∧ Precedence.prefixed.looseness < place.looseness)

theorem starts_of_isWord {text : List Char} (word : Word.IsWord text) (place : Precedence) :
    Starts place text := by
  obtain ⟨char, rest, rfl, part⟩ := word.exists_cons
  exact ⟨char, rest, rfl, .inl part⟩

theorem Starts.append {tight loose : Precedence} {text : List Char} (starts : Starts tight text)
    (le : tight.looseness ≤ loose.looseness) (rest : List Char) : Starts loose (text ++ rest) := by
  rcases starts with ⟨char, others, rfl, part | same | ⟨sign, lower⟩⟩
  · exact ⟨char, others ++ rest, rfl, .inl part⟩
  · exact ⟨char, others ++ rest, rfl, .inr (.inl same)⟩
  · exact ⟨char, others ++ rest, rfl, .inr (.inr ⟨sign, by omega⟩)⟩

/-- An operand with a suffix starts with no sign, so its place does not matter. -/
theorem Starts.operand {text : List Char} (starts : Starts .suffixed text) (place : Precedence)
    (rest : List Char) : Starts place (text ++ rest) := by
  rcases starts with ⟨char, others, rfl, part | same | ⟨-, lower⟩⟩
  · exact ⟨char, others ++ rest, rfl, .inl part⟩
  · exact ⟨char, others ++ rest, rfl, .inr (.inl same)⟩
  · exact absurd lower (by decide)

/-- The operand of an operator in front of it starts with no sign. -/
theorem Starts.not_isSign {text : List Char} (starts : Starts .prefixed text) :
    ∃ char rest, text = char :: rest ∧ isSign char = false := by
  rcases starts with ⟨char, rest, rfl, part | same | ⟨-, lower⟩⟩
  · exact ⟨char, rest, rfl, isSign_of_isPart part⟩
  · subst same
    exact ⟨'(', rest, rfl, rfl⟩
  · exact absurd lower (by decide)

/-- No expression starts with a character that is no part of a word, no parenthesis and no sign. -/
theorem Starts.ne {place : Precedence} {text : List Char} (starts : Starts place text)
    {other : Char} (notPart : Word.isPart other = false) (notOpen : '(' ≠ other)
    (notSign : isSign other = false) :
    ∃ char rest, text = char :: rest ∧ char ≠ other := by
  rcases starts with ⟨char, rest, rfl, part | same | ⟨sign, -⟩⟩
  · exact ⟨char, rest, rfl, Word.ne_of_isPart part notPart⟩
  · subst same
    exact ⟨'(', rest, rfl, notOpen⟩
  · refine ⟨char, rest, rfl, ?_⟩
    rintro rfl
    rw [sign] at notSign
    cases notSign

end Reader

open Reader

theorem Ty.starts_text {ty : Ty} (plain : ty.element.isPlain = true) (place : Precedence) :
    Starts place ty.text.toList := by
  induction ty with
  | single element span =>
      exact starts_of_isWord (Word.isWord_name (ElementTy.isName_text plain)) place
  | array of count span ih =>
      rw [text, String.toList_append]
      exact (ih plain).append (Nat.le_refl _) _

theorem Head.starts_text {head : Head} (plain : head.isPlain = true) (place : Precedence) :
    Starts place head.text.toList := by
  cases head with
  | function name isPure => exact starts_of_isWord (Word.isWord_name plain) place
  | type ty => exact Ty.starts_text plain place

namespace Expr

/-- In parentheses an expression starts with one, so only its own text matters. -/
theorem starts_within_of {expr : Expr} {place : Precedence}
    (bare : (∀ own ∈ expr.rank?, own.looseness < place.looseness) →
      Starts place expr.text.toList) : Starts place (expr.within place).toList := by
  rcases expr.within_cases place with enclosed | ⟨same, fits⟩
  · have text := toList_enclosed expr.text []
    rw [List.append_nil] at text
    rw [enclosed, text]
    exact ⟨'(', _, rfl, .inr (.inl rfl)⟩
  · rw [same]
    exact bare fits

/-- The text of a plain expression starts as that of an expression does. -/
theorem starts_within {expr : Expr} (plain : expr.isPlain = true) (place : Precedence) :
    Starts place (expr.within place).toList := by
  induction expr using Expr.induction generalizing place with
  | literal value span =>
      cases value with
      | bool value => exact starts_of_isWord (Word.isWord_truthValue value) place
      | int value =>
          cases value with
          | ofNat magnitude =>
              have text : (Expr.literal (.int (.ofNat magnitude)) span).within place =
                  toString magnitude :=
                Literal.within_natCast place magnitude
              rw [text]
              exact starts_of_isWord (Word.isWord_toString magnitude) place
          | negSucc below =>
              apply starts_within_of
              intro fits
              have own : Precedence.prefixed.looseness < place.looseness :=
                fits .prefixed (if_pos (Int.negSucc_lt_zero below))
              rw [text_negSucc, String.toList_append]
              exact ⟨'-', _, rfl, .inr (.inr ⟨rfl, own⟩)⟩
      | float value => cases plain
  | reference name span =>
      exact starts_of_isWord (Word.isWord_name plain) place
  | binary op left right span ihLeft ihRight =>
      rw [isPlain, Bool.and_eq_true] at plain
      apply starts_within_of
      intro fits
      rw [toList_text_binary]
      exact (ihLeft plain.1 _).append (Nat.le_of_lt (fits op.precedence rfl)) _
  | prefixed op operand span ih =>
      apply starts_within_of
      intro fits
      rw [toList_text_prefixed]
      obtain ⟨sign, rest, holds, isOne⟩ := exists_cons_prefixText op
      rw [holds]
      exact ⟨sign, _, rfl, .inr (.inr ⟨isOne, fits .prefixed rfl⟩)⟩
  | suffixed op operand span ih =>
      apply starts_within_of
      intro fits
      rw [toList_text_suffixed]
      exact (ih plain _).operand place _
  | apply head arguments span ih =>
      rw [isPlain, Bool.and_eq_true] at plain
      apply starts_within_of
      intro fits
      rw [toList_text_apply]
      exact (Head.starts_text plain.1 place).append (Nat.le_refl _) _
  | index base position span ihBase ihPosition =>
      rw [isPlain, Bool.and_eq_true] at plain
      apply starts_within_of
      intro fits
      rw [toList_text_index]
      exact (ihBase plain.1 _).operand place _
  | select selection base name span ih =>
      rw [isPlain, Bool.and_eq_true] at plain
      apply starts_within_of
      intro fits
      rw [toList_text_select]
      exact (ih plain.1 _).operand place _
  | conditional test yes no span ihTest ihYes ihNo =>
      rw [isPlain, Bool.and_eq_true, Bool.and_eq_true] at plain
      apply starts_within_of
      intro fits
      rw [toList_text_conditional]
      exact (ihTest plain.1.1 _).append (Nat.le_of_lt (fits .conditional rfl)) _

/-! ## Reading back -/

/--
The text of an expression is read as its reading and then extended by what follows, in every place
that the expression can stand in without parentheses.
-/
def ReadsBack (expr : Expr) : Prop :=
  ∀ (place limit : Precedence) (rest : List Char),
    Precedence.prefixed.looseness ≤ place.looseness → limit.looseness ≤ place.looseness →
      Word.Ends rest → Stops limit rest →
        (∀ own ∈ expr.rank?, own.looseness < limit.looseness) →
          place.read (expr.text.toList ++ rest) = place.extend expr.reading rest

namespace ReadsBack

variable {expr : Expr} {place limit : Precedence} {rest : List Char}

/-- In parentheses or without them, an expression is read back. -/
theorem within (back : expr.ReadsBack) (lower : Precedence.prefixed.looseness ≤ place.looseness)
    (upper : limit.looseness ≤ place.looseness) (ends : Word.Ends rest) (stops : Stops limit rest) :
    place.read ((expr.within limit).toList ++ rest) = place.extend expr.reading rest := by
  rcases expr.within_cases limit with enclosed | ⟨same, fits⟩
  · have closing : closes ')' = true := rfl
    have inner : Precedence.topLevel.read (expr.text.toList ++ ')' :: rest) =
        some (expr.reading, ')' :: rest) := by
      rw [back .topLevel .topLevel (')' :: rest) (by decide) (Nat.le_refl _)
        (ends_of_closes rest closing) (stops_of_closes closing .topLevel rest)
        fun own rank => lt_topLevel_of_rank? rank]
      exact extend_of_closes closing ..
    rw [enclosed, toList_enclosed, read_enclosed inner]
  · rw [same]
    exact back place limit rest lower upper ends stops fits

/-- An operand is read back as a whole where the text behind it stops the reader. -/
theorem operand (back : expr.ReadsBack) (lower : Precedence.prefixed.looseness ≤ place.looseness)
    (upper : place.looseness < limit.looseness) (ends : Word.Ends rest) (stops : Stops limit rest) :
    place.read ((expr.within place).toList ++ rest) = some (expr.reading, rest) := by
  rw [back.within lower (Nat.le_refl _) ends (stops.mono (Nat.le_of_lt upper))]
  exact stops place expr.reading lower upper

/-- Before a character that ends it, an expression is read back as a whole. -/
theorem closed (back : expr.ReadsBack) (lower : Precedence.prefixed.looseness ≤ place.looseness)
    {char : Char} (closing : closes char = true) :
    place.read ((expr.within place).toList ++ char :: rest) =
      some (expr.reading, char :: rest) := by
  rw [back.within lower (Nat.le_refl _) (ends_of_closes rest closing)
    (stops_of_closes closing place rest)]
  exact extend_of_closes closing ..

end ReadsBack

theorem suffixed_le {place : Precedence}
    (lower : Precedence.prefixed.looseness ≤ place.looseness) :
    Precedence.suffixed.looseness ≤ place.looseness :=
  Nat.le_trans (by decide) lower

theorem readsBack_literal {value : Literal} (plain : value.isPlain = true) (span : Span) :
    ReadsBack (.literal value span) := by
  intro place limit rest lower upper ends stops fits
  cases value with
  | bool value => exact read_truthValue value ends place
  | int value =>
      cases value with
      | ofNat magnitude =>
          have text : (Expr.literal (.int magnitude) span).text = toString magnitude :=
            Literal.within_natCast .topLevel magnitude
          have word := read_numeral magnitude ends place
          rw [← text] at word
          exact word
      | negSucc below =>
          have own : Precedence.prefixed.looseness < limit.looseness :=
            fits .prefixed (if_pos (Int.negSucc_lt_zero below))
          have readOperand : Precedence.prefixed.read ((toString (below + 1)).toList ++ rest) =
              some (.literal (.int (below + 1 : Nat)) .nowhere, rest) := by
            rw [read_numeral (below + 1) ends]
            exact stops .prefixed _ (Nat.le_refl _) own
          obtain ⟨char, others, holds, part⟩ := (Word.isWord_toString (below + 1)).exists_cons
          rw [text_negSucc, String.toList_append, List.append_assoc]
          rw [holds, List.cons_append] at readOperand ⊢
          have negated : place.read (PrefixOp.negate.text.toList ++ char :: (others ++ rest)) =
              place.extend (Literal.int (.negSucc below)).reading rest :=
            read_prefixed (isSign_of_isPart part) readOperand place
          exact negated
  | float value => cases plain

end Expr

/-! ## What stands before arguments -/

/-- The expression as which the spelling of a type is read, before it is known to be one. -/
def Ty.spelling : Ty → Expr
  | .single element _ => .reference element.text .nowhere
  | .array of (some count) _ => .index of.spelling (.literal (.int count) .nowhere) .nowhere
  | .array of none _ => .reference (of.spelling.text ++ "[]") .nowhere

/-- A spelling is the text of its type, and is put in parentheses nowhere. -/
theorem Ty.within_spelling (place : Precedence) (ty : Ty) : ty.spelling.within place = ty.text := by
  induction ty generalizing place with
  | single element span => rfl
  | array of count span ih =>
      cases count with
      | none => exact congrArg (· ++ "[]") (ih .topLevel)
      | some count =>
          rw [spelling, Expr.within, ih, Expr.within, Literal.within_natCast, text, dimensionText,
            String.append_assoc, String.append_assoc]
          simp only [String.append_assoc]

theorem Ty.read_text {ty : Ty} (plain : ty.element.isPlain = true) (place : Precedence)
    {rest : List Char} (ends : Word.Ends rest) :
    place.read (ty.text.toList ++ rest) = place.extend ty.spelling rest := by
  induction ty generalizing place rest with
  | single element span =>
      exact read_name (ElementTy.isName_text plain) ends place
  | array of count span ih =>
      have opening (inside : List Char) : Word.Ends ('[' :: inside) := Word.ends_cons inside rfl
      cases count with
      | none =>
          have text : (Ty.array of none span).text.toList ++ rest =
              of.text.toList ++ '[' :: ']' :: rest := by
            simp [Ty.text, dimensionText, String.toList_append]
          rw [text, ih plain place (opening _), extend_unsized]
          rfl
      | some count =>
          have closing : closes ']' = true := rfl
          have text : (Ty.array of (some count) span).text.toList ++ rest =
              of.text.toList ++ '[' :: ((toString count).toList ++ ']' :: rest) := by
            simp [Ty.text, dimensionText, String.toList_append]
          have readCount : Precedence.topLevel.read ((toString count).toList ++ ']' :: rest) =
              some (.literal (.int count) .nowhere, ']' :: rest) := by
            rw [read_numeral count (ends_of_closes rest closing)]
            exact extend_of_closes closing ..
          obtain ⟨char, others, holds, part⟩ := (Word.isWord_toString count).exists_cons
          rw [text, ih plain place (opening _)]
          rw [holds, List.cons_append] at readCount ⊢
          rw [extend_index (Word.ne_of_isPart part rfl) readCount]
          rfl

theorem Head.read_text {head : Head} (plain : head.isPlain = true) (place : Precedence)
    (rest : List Char) :
    ∃ spelling : Expr, spelling.text = head.text ∧
      place.read (head.text.toList ++ '(' :: rest) = place.extend spelling ('(' :: rest) := by
  have ends : Word.Ends ('(' :: rest) := Word.ends_cons rest rfl
  cases head with
  | function name isPure =>
      exact ⟨.reference name .nowhere, rfl, read_name plain ends place⟩
  | type ty => exact ⟨ty.spelling, ty.within_spelling .topLevel, Ty.read_text plain place ends⟩

namespace Expr

/-! ## Arguments -/

theorem argumentsText_cons_cons (first second : Expr) (rest : List Expr) (behind : List Char) :
    (argumentsText (first :: second :: rest)).toList ++ behind =
      (first.within .sequence).toList ++
        ',' :: ' ' :: ((argumentsText (second :: rest)).toList ++ behind) := by
  rw [argumentsText]
  · simp [String.toList_append]
  · exact List.cons_ne_nil second rest

theorem readArguments_text {first : Expr} {others : List Expr}
    (back : ∀ argument ∈ first :: others, argument.ReadsBack) (behind : List Char) :
    Precedence.sequence.readArguments ((argumentsText (first :: others)).toList ++ ')' :: behind) =
      some (readings (first :: others), behind) := by
  induction others generalizing first with
  | nil =>
      have own : first.ReadsBack := back first List.mem_cons_self
      rw [Precedence.readArguments, argumentsText, own.closed (by decide) rfl]
      rfl
  | cons second rest ih =>
      rw [List.forall_mem_cons] at back
      rw [argumentsText_cons_cons, Precedence.readArguments, back.1.closed (by decide) rfl]
      simp only [Option.bind_eq_bind, Option.bind_some, ih back.2]
      rfl

theorem starts_argumentsText {first : Expr} (plain : first.isPlain = true) (others : List Expr)
    (behind : List Char) :
    Starts .sequence ((argumentsText (first :: others)).toList ++ behind) := by
  cases others with
  | nil => exact (starts_within plain .sequence).append (Nat.le_refl _) behind
  | cons second rest =>
      rw [argumentsText_cons_cons]
      exact (starts_within plain .sequence).append (Nat.le_refl _) _

/-! ## The forms of expressions -/

namespace ReadsBack

theorem binary (op : BinaryOp) {left right : Expr} (backLeft : left.ReadsBack)
    (backRight : right.ReadsBack) (span : Span) : ReadsBack (.binary op left right span) := by
  intro place limit rest lower upper ends stops fits
  have own : op.precedence.looseness < limit.looseness := fits op.precedence rfl
  have fitsPlace : op.precedence.looseness < place.looseness := by omega
  have readRight := backRight.operand (Nat.le_of_lt op.prefixed_lt) own ends stops
  rw [toList_text_binary, List.append_assoc, List.cons_append, List.append_assoc,
    List.cons_append, backLeft.within lower (Nat.le_of_lt fitsPlace) (Word.ends_cons _ rfl)
      (stops_binary op _),
    extend_binary fitsPlace readRight]
  rfl

theorem prefixed (op : PrefixOp) {operand : Expr} (back : operand.ReadsBack)
    (plain : operand.isPlain = true) (span : Span) : ReadsBack (.prefixed op operand span) := by
  intro place limit rest lower upper ends stops fits
  have own : Precedence.prefixed.looseness < limit.looseness := fits .prefixed rfl
  have readOperand := back.operand (Nat.le_refl _) own ends stops
  obtain ⟨char, others, holds, notSign⟩ := (starts_within plain .prefixed).not_isSign
  rw [toList_text_prefixed, List.append_assoc]
  rw [holds] at readOperand ⊢
  exact read_prefixed notSign readOperand place

theorem suffixed (op : Step) {operand : Expr} (back : operand.ReadsBack) (span : Span) :
    ReadsBack (.suffixed op operand span) := by
  intro place limit rest lower upper ends stops fits
  have endsStep : Word.Ends (op.text.toList ++ rest) := by
    cases op with
    | increment => exact Word.ends_cons _ rfl
    | decrement => exact Word.ends_cons _ rfl
  rw [toList_text_suffixed, List.append_assoc,
    back.within lower (suffixed_le lower) endsStep (stops_suffixed _), extend_suffixed]
  rfl

theorem apply {head : Head} {arguments : List Expr} (plain : head.isPlain = true)
    (plainEach : ∀ argument ∈ arguments, argument.isPlain = true)
    (back : ∀ argument ∈ arguments, argument.ReadsBack) (span : Span) :
    ReadsBack (.apply head arguments span) := by
  intro place limit rest lower upper ends stops fits
  rw [toList_text_apply, List.append_assoc, List.cons_append, List.append_assoc,
    List.singleton_append]
  cases arguments with
  | nil =>
      obtain ⟨spelling, text, readHead⟩ := Head.read_text plain place (')' :: rest)
      have called := extend_apply_nil place spelling rest
      rw [text] at called
      exact readHead.trans called
  | cons first others =>
      -- The first argument starts with no parenthesis that could end the arguments.
      rcases (starts_argumentsText (plainEach first List.mem_cons_self) others (')' :: rest)).ne
        (rfl : Word.isPart ')' = false) (by decide) rfl with ⟨char, inside, holds, filled⟩
      have readInside := readArguments_text back rest
      rw [holds] at readInside ⊢
      obtain ⟨spelling, text, readHead⟩ := Head.read_text plain place (char :: inside)
      have called : place.extend spelling ('(' :: char :: inside) = _ :=
        extend_apply filled readInside spelling
      rw [text] at called
      exact readHead.trans called

theorem index {base position : Expr} (backBase : base.ReadsBack)
    (backPosition : position.ReadsBack) (plain : position.isPlain = true) (span : Span) :
    ReadsBack (.index base position span) := by
  intro place limit rest lower upper ends stops fits
  rcases ((starts_within plain .topLevel).append (Nat.le_refl _) (']' :: rest)).ne
    (rfl : Word.isPart ']' = false) (by decide) rfl with ⟨char, inside, holds, filled⟩
  have readPosition : Precedence.topLevel.read ((position.within .topLevel).toList ++ ']' :: rest) =
      some (position.reading, ']' :: rest) :=
    backPosition.closed (by decide) rfl
  rw [toList_text_index, List.append_assoc, List.cons_append, List.append_assoc,
    List.singleton_append, backBase.within lower (suffixed_le lower) (Word.ends_cons _ rfl)
      (stops_suffixed _)]
  rw [holds] at readPosition ⊢
  exact extend_index filled readPosition base.reading

theorem select (selection : Selection) {base : Expr} {name : String} (back : base.ReadsBack)
    (named : Word.isName name = true) (span : Span) :
    ReadsBack (.select selection base name span) := by
  intro place limit rest lower upper ends stops fits
  rw [toList_text_select, List.append_assoc, List.cons_append,
    back.within lower (suffixed_le lower) (Word.ends_cons _ rfl) (stops_suffixed _)]
  exact extend_select place base.reading named ends

theorem conditional {test yes no : Expr} (backTest : test.ReadsBack) (backYes : yes.ReadsBack)
    (backNo : no.ReadsBack) (span : Span) : ReadsBack (.conditional test yes no span) := by
  intro place limit rest lower upper ends stops fits
  have own : Precedence.conditional.looseness < limit.looseness := fits .conditional rfl
  have fitsPlace : Precedence.conditional.looseness < place.looseness := by omega
  have readNo := backNo.operand (by decide) own ends stops
  have readYes : Precedence.conditional.read ((yes.within .conditional).toList ++
        ' ' :: ':' :: ' ' :: ((no.within .conditional).toList ++ rest)) =
      some (yes.reading, ' ' :: ':' :: ' ' :: ((no.within .conditional).toList ++ rest)) := by
    rw [backYes.within (by decide) (Nat.le_refl _) (Word.ends_cons _ rfl)
      (stops_colon .conditional _)]
    exact extend_colon ..
  rw [toList_text_conditional, List.append_assoc]
  simp only [List.cons_append, List.append_assoc]
  rw [backTest.within lower (Nat.le_of_lt fitsPlace) (Word.ends_cons _ rfl)
    (stops_conditional _)]
  exact extend_conditional fitsPlace readYes readNo test.reading

end ReadsBack

/-- Every plain expression is read back. -/
theorem readsBack {expr : Expr} (plain : expr.isPlain = true) : expr.ReadsBack := by
  induction expr using Expr.induction with
  | literal value span => exact readsBack_literal plain span
  | reference name span =>
      intro place limit rest lower upper ends stops fits
      exact read_name plain ends place
  | binary op left right span ihLeft ihRight =>
      rw [isPlain, Bool.and_eq_true] at plain
      exact .binary op (ihLeft plain.1) (ihRight plain.2) span
  | prefixed op operand span ih => exact .prefixed op (ih plain) plain span
  | suffixed op operand span ih => exact .suffixed op (ih plain) span
  | apply head arguments span ih =>
      rw [isPlain, Bool.and_eq_true, arePlain_iff] at plain
      refine .apply plain.1 plain.2 (fun argument within => ?_) span
      exact ih argument within (plain.2 argument within)
  | index base position span ihBase ihPosition =>
      rw [isPlain, Bool.and_eq_true] at plain
      exact .index (ihBase plain.1) (ihPosition plain.2) plain.2 span
  | select selection base name span ih =>
      rw [isPlain, Bool.and_eq_true] at plain
      exact .select selection (ih plain.1) plain.2 span
  | conditional test yes no span ihTest ihYes ihNo =>
      rw [isPlain, Bool.and_eq_true, Bool.and_eq_true] at plain
      exact .conditional (ihTest plain.1.1) (ihYes plain.1.2) (ihNo plain.2) span

/-! ## Unique readability -/

/-- A text that is that of a plain expression and nothing else is read to its end. -/
theorem read_whole {expr : Expr} (plain : expr.isPlain = true) (place : Precedence) :
    Precedence.topLevel.read (expr.within place).toList = some (expr.reading, []) := by
  have upper : place.looseness ≤ Precedence.topLevel.looseness := by
    cases place <;> decide
  have stops : Stops place [] := fun inner left _ _ => extend_nil inner left
  have back := (readsBack plain).within (by decide) upper Word.ends_nil stops
  rw [List.append_nil, extend_nil] at back
  exact back

theorem reading_eq_of_within_eq {place : Precedence} {first second : Expr}
    (plainFirst : first.isPlain = true) (plainSecond : second.isPlain = true)
    (same : first.within place = second.within place) : first.reading = second.reading := by
  have readFirst := read_whole plainFirst place
  rw [same, read_whole plainSecond place] at readFirst
  injection readFirst with pair
  injection pair with readings
  exact readings.symm

/--
Printed expressions are uniquely readable: in any place two plain expressions have the same text if
and only if they have the same reading.
-/
theorem within_eq_within_iff (place : Precedence) {first second : Expr}
    (plainFirst : first.isPlain = true) (plainSecond : second.isPlain = true) :
    first.within place = second.within place ↔ first.reading = second.reading := by
  constructor
  · exact reading_eq_of_within_eq plainFirst plainSecond
  · intro same
    rw [← within_reading place first, same, within_reading]

/--
A field of the literal `-1` and components of the negated `1` are written `(-1).y` both, which the difference
to the left of the minus sign is not.
-/
theorem within_eq_within_iff_of_negative :
    let first : Expr := .binary (.arithmetic .subtract) (.var "x")
      (.select .field (.literal (.int (-1)) .nowhere) "y" .nowhere) ⟨0, 10⟩
    let second : Expr := .binary (.arithmetic .subtract) (.var "x")
      (.select .swizzle (.prefixed .negate (.literal (.int 1) .nowhere) .nowhere) "y" ⟨4, 6⟩)
      .nowhere
    let third : Expr := .select .field
      (.binary (.arithmetic .subtract) (.var "x") (.literal (.int (-1)) .nowhere) .nowhere) "y"
      .nowhere
    first.isPlain = true ∧ second.isPlain = true ∧ third.isPlain = true ∧
      first.within .topLevel = "x - (-1).y" ∧
      second.within .topLevel = first.within .topLevel ∧
      third.within .topLevel ≠ first.within .topLevel := by
  intro first second third
  have plainFirst : first.isPlain = true := by decide
  have plainSecond : second.isPlain = true := by decide
  have plainThird : third.isPlain = true := by decide
  refine ⟨plainFirst, plainSecond, plainThird, rfl, ?_, ?_⟩
  · exact (within_eq_within_iff .topLevel plainSecond plainFirst).2 rfl
  · rw [Ne, within_eq_within_iff .topLevel plainThird plainFirst]
    nofun

end Expr

end ShaderTree
