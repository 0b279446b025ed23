import ShaderTree.Proofs.Stmt.Outline

/-!
# A reader of statements

The reader of statements looks at the word that a statement starts with.  A keyword says which form the
statement has; without one it is an expression up to its semicolon, or a declaration where no expression
ends with the semicolon.  A list goes on for as long as there are lines that start neither with a
closing brace nor with a label.  An `else` is read as soon as there is one, so it goes to the nearest
choice in front of it that has none yet.

As with expressions, it does not matter how other texts than those of trees are read.
-/

namespace ShaderTree

/-- A reader of statements and declarations is given by how it reads an expression in a place. -/
structure Reader where
  readExpr : Precedence → List Char → Option (Expr × List Char)

namespace Reader

/-- The reader that reads expressions as they are printed. -/
def standard : Reader :=
  ⟨Precedence.read⟩

/-! ## Parts of statements -/

/-- Reads an expression, or none, and the character that ends its place. -/
def upTo (reader : Reader) (stop : Char) (text : List Char) : Option (Option Expr × List Char) :=
  if text.head? = some stop then
    some (none, text.tail)
  else do
    let (expr, behind) ← reader.readExpr .topLevel text
    if behind.head? = some stop then some (some expr, behind.tail) else none

/-- Reads the label of a case. -/
def label (reader : Reader) (text : List Char) : Option (Option Expr × List Char) :=
  match Keyword.ofWord? (Word.first text), Word.behind text with
  | some .caseLabel, ' ' :: behind => reader.upTo ':' behind
  | some .defaultLabel, ':' :: rest => some (none, rest)
  | _, _ => none

/-- Whether a line is none of a list of statements but stands behind it. -/
def closesList (line : List Char) : Bool :=
  line.head? = some '}' || Keyword.ofWord? (Word.first line) = some .caseLabel ||
    Keyword.ofWord? (Word.first line) = some .defaultLabel

/-- Reads an expression with its semicolon, or a declaration where there is no such expression. -/
def line (reader : Reader) (text : List Char) : Outline × List Char :=
  match reader.readExpr .topLevel text with
  | some (expr, ';' :: rest) => (.evaluate expr, rest)
  | _ => (.declare (String.ofList (text.takeWhile (· ≠ ';'))), (text.dropWhile (· ≠ ';')).tail)

/-- The statement that a keyword is with nothing but a semicolon behind it. -/
def alone? : Keyword → Option Outline
  | .breakOut => some .breakOut
  | .continueOn => some .continueOn
  | .discard => some .discard
  | .return => some (.return none)
  | _ => none

/-! ## The reader -/

mutual

/-- Reads a statement. -/
def readOutline (reader : Reader) (text : List Char) : Option (Outline × List Char) :=
  match text with
  | ';' :: rest => some (.nop, rest)
  | '\x7b' :: behind => do
      match ← reader |>.readOutlines behind with
      | (stmts, '\n' :: '\x7d' :: rest) => some (.block stmts, rest)
      | _ => none
  | '@' :: behind => reader |>.readForm true behind
  | text => reader |>.readForm false text
partial_fixpoint

/-- Reads a statement that starts with a word or with an expression, static or not. -/
def readForm (reader : Reader) (isStatic : Bool) (text : List Char) :
    Option (Outline × List Char) :=
  match Keyword.ofWord? (Word.first text), Word.behind text with
  | some keyword, ';' :: rest => (alone? keyword).map fun form => (form, rest)
  | some .return, ' ' :: behind => do
      let (value, rest) ← reader.upTo ';' behind
      some (.return value, rest)
  | some .doWhile, ' ' :: behind => do
      match ← reader |>.readOutline behind with
      | (body, ' ' :: 'w' :: 'h' :: 'i' :: 'l' :: 'e' :: ' ' :: '(' :: behind) =>
          match ← reader.upTo ')' behind with
          | (some test, ';' :: rest) => some (.doWhile body test, rest)
          | _ => none
      | _ => none
  | some .forLoop, ' ' :: '(' :: behind => do
      match ← reader |>.readOutline behind with
      | (start, ' ' :: behind) =>
          match ← reader.upTo ';' behind with
          | (test, ' ' :: behind) =>
              match ← reader.upTo ')' behind with
              | (next, ' ' :: behind) => do
                  let (body, rest) ← reader |>.readOutline behind
                  some (.forLoop start test next body, rest)
              | _ => none
          | _ => none
      | _ => none
  | some .choice, ' ' :: '(' :: behind => do
      match ← reader.upTo ')' behind with
      | (some test, ' ' :: behind) =>
          match ← reader |>.readOutline behind with
          | (yes, ' ' :: 'e' :: 'l' :: 's' :: 'e' :: ' ' :: behind) => do
              let (no, rest) ← reader |>.readOutline behind
              some (.choice isStatic test yes (some no), rest)
          | (yes, rest) => some (.choice isStatic test yes none, rest)
      | _ => none
  | some .switch, ' ' :: '(' :: behind => do
      match ← reader.upTo ')' behind with
      | (some value, ' ' :: '\x7b' :: behind) =>
          match ← reader |>.readCases behind with
          | (cases, '\n' :: '\x7d' :: rest) => some (.switch isStatic value cases, rest)
          | _ => none
      | _ => none
  | some .whileLoop, ' ' :: '(' :: behind => do
      match ← reader.upTo ')' behind with
      | (some test, ' ' :: behind) => do
          let (body, rest) ← reader |>.readOutline behind
          some (.whileLoop test body, rest)
      | _ => none
  | _, _ => some (reader.line text)
partial_fixpoint

/-- Reads the statements of a list, each on a line of its own. -/
def readOutlines (reader : Reader) (text : List Char) : Option (List Outline × List Char) :=
  match text with
  | '\n' :: behind =>
      if closesList behind then
        some ([], text)
      else do
        let (first, rest) ← reader |>.readOutline behind
        let (others, rest) ← reader |>.readOutlines rest
        some (first :: others, rest)
  | _ => some ([], text)
partial_fixpoint

/-- Reads the cases of a switch, each of them a label and a list. -/
def readCases (reader : Reader) (text : List Char) :
    Option (List (Option Expr × List Outline) × List Char) :=
  match text with
  | '\n' :: behind =>
      match reader.label behind with
      | some (label, rest) => do
          let (stmts, rest) ← reader |>.readOutlines rest
          let (others, rest) ← reader |>.readCases rest
          some ((label, stmts) :: others, rest)
      | none => some ([], text)
  | _ => some ([], text)
partial_fixpoint

end

/-! ## Words in front -/

/-- No `else` stands at the beginning of a text. -/
def Elseless (text : List Char) : Prop :=
  ∀ behind, text ≠ ' ' :: 'e' :: 'l' :: 's' :: 'e' :: ' ' :: behind

end Reader

namespace Keyword

theorem ofWord?_first (keyword : Keyword) {rest : List Char} (ends : Word.Ends rest) :
    ofWord? (Word.first (keyword.text.toList ++ rest)) = some keyword := by
  rw [Word.first_append keyword.isWord_text ends, ofWord?_text]

theorem behind_text (keyword : Keyword) {rest : List Char} (ends : Word.Ends rest) :
    Word.behind (keyword.text.toList ++ rest) = rest :=
  Word.behind_append keyword.isWord_text ends

end Keyword

namespace Reader

/-! ## Parts of statements -/

/-- Whether a character ends an expression, and no expression starts with it. -/
def isStop (char : Char) : Bool :=
  closes char && char ≠ '(' && !isSign char

theorem upTo_nil (reader : Reader) (stop : Char) (rest : List Char) :
    reader.upTo stop (stop :: rest) = some (none, rest) :=
  if_pos rfl

/-- An expression is read back up to the character behind it. -/
theorem upTo_text {expr : Expr} (plain : expr.isPlain = true) {stop : Char}
    (stopping : isStop stop = true) (rest : List Char) :
    standard.upTo stop (expr.text.toList ++ stop :: rest) = some (some expr.reading, rest) := by
  simp only [isStop, Bool.and_eq_true, decide_eq_true_eq, Bool.not_eq_true'] at stopping
  obtain ⟨⟨closing, notOpen⟩, notSign⟩ := stopping
  have notPart : Word.isPart stop = false := ends_of_closes [] closing stop rfl
  have whole : standard.readExpr .topLevel (expr.text.toList ++ stop :: rest) =
      some (expr.reading, stop :: rest) :=
    (Expr.readsBack plain).closed (by decide) closing
  rcases (Expr.starts_within plain .topLevel).ne notPart (Ne.symm notOpen) notSign with
    ⟨char, others, holds, other⟩
  have filled : (expr.text.toList ++ stop :: rest).head? ≠ some stop := by
    rw [Expr.text, holds]
    exact fun same => other (Option.some.inj same)
  rw [upTo, if_neg filled, whole]
  exact if_pos rfl

theorem upTo_optionalText {value : Option Expr} (plain : ∀ expr ∈ value, expr.isPlain = true)
    {stop : Char} (stopping : isStop stop = true) (rest : List Char) :
    standard.upTo stop ((Stmt.optionalText value).toList ++ stop :: rest) =
      some (value.map Expr.reading, rest) := by
  cases value with
  | none => exact upTo_nil standard stop rest
  | some expr => exact upTo_text (plain expr rfl) stopping rest

section Forms

variable {reader : Reader}

theorem line_of_read {text rest : List Char} {expr : Expr}
    (whole : reader.readExpr .topLevel text = some (expr, ';' :: rest)) :
    reader.line text = (.evaluate expr, rest) := by
  simp only [line, whole]

/-- A text that no expression ends with its first semicolon is that of a declaration. -/
theorem line_of_stop {text : String} {left : Expr} {behind : List Char} (single : ';' ∉ text.toList)
    {rest : List Char}
    (stops : reader.readExpr .topLevel (text.toList ++ ';' :: rest) = some (left, ' ' :: behind)) :
    reader.line (text.toList ++ ';' :: rest) = (.declare text, rest) := by
  have solid : ∀ char ∈ text.toList, decide (char ≠ ';') = true := by
    intro char within
    exact decide_eq_true fun same => single (same ▸ within)
  rw [line, stops, List.takeWhile_append_of_pos solid, List.dropWhile_append_of_pos solid]
  simp

/-! ## Statements -/

theorem readOutline_of_begins {text : List Char} (begins : Word.Begins text) :
    reader.readOutline text = reader.readForm false text := by
  obtain ⟨char, rest, rfl, part⟩ := begins
  have other {sign : Char} (notPart : Word.isPart sign = false) (behind : List Char) :
      char :: rest ≠ sign :: behind :=
    fun same => Word.ne_of_isPart part notPart (List.cons.inj same).1
  rw [readOutline]
  · exact other rfl
  · exact other rfl
  · exact other rfl

/-- A statement that starts with no keyword, no brace and no mark is an expression or a declaration. -/
theorem readOutline_of_isFree {text : List Char} (free : Word.IsFree text)
    (starts : ∀ char ∈ text.head?, char ∉ [';', '\x7b', '@']) :
    reader.readOutline text = some (reader.line text) := by
  have other {sign : Char} (listed : sign ∈ [';', '\x7b', '@']) (behind : List Char) :
      text ≠ sign :: behind := by
    rintro rfl
    exact starts sign rfl listed
  rw [readOutline, readForm, free]
  · exact other (by decide)
  · exact other (by decide)
  · exact other (by decide)

/-- A statement is read by the keyword it starts with. -/
theorem readOutline_keyword (keyword : Keyword) (rest : List Char) :
    reader.readOutline (keyword.text.toList ++ rest) =
      reader.readForm false (keyword.text.toList ++ rest) :=
  readOutline_of_begins (keyword.isWord_text.begins.append rest)

/-- A mark in front of a choice or a switch says that it is static. -/
theorem readOutline_marked (isStatic : Bool) (keyword : Keyword) (rest : List Char) :
    reader.readOutline ((Stmt.staticMark isStatic).toList ++ (keyword.text.toList ++ rest)) =
      reader.readForm isStatic (keyword.text.toList ++ rest) := by
  cases isStatic with
  | false => exact readOutline_keyword keyword rest
  | true =>
      have mark : (Stmt.staticMark true).toList ++ (keyword.text.toList ++ rest) =
          '@' :: (keyword.text.toList ++ rest) := rfl
      rw [mark, readOutline]

variable {test value : Expr} {body yes no : Outline} {inside behind last rest : List Char}

theorem readOutline_alone {keyword : Keyword} {form : Outline} (alone : alone? keyword = some form)
    (rest : List Char) :
    reader.readOutline (keyword.text.toList ++ ';' :: rest) = some (form, rest) := by
  have ends : Word.Ends (';' :: rest) := Word.ends_cons _ rfl
  rw [readOutline_keyword, readForm, Keyword.ofWord?_first _ ends, Keyword.behind_text _ ends]
  simp only [alone, Option.map_some]

theorem readOutline_return_some (readValue : reader.upTo ';' inside = some (some value, rest)) :
    reader.readOutline (Keyword.return.text.toList ++ ' ' :: inside) =
      some (.return (some value), rest) := by
  have ends : Word.Ends (' ' :: inside) := Word.ends_cons _ rfl
  rw [readOutline_keyword, readForm, Keyword.ofWord?_first _ ends, Keyword.behind_text _ ends]
  simp only [readValue, Option.bind_eq_bind, Option.bind_some]

theorem readOutline_block {stmts : List Outline}
    (readStmts : reader.readOutlines inside = some (stmts, '\n' :: '\x7d' :: rest)) :
    reader.readOutline ('\x7b' :: inside) = some (.block stmts, rest) := by
  rw [readOutline, readStmts]
  rfl

theorem readOutline_doWhile
    (readBody : reader.readOutline inside =
      some (body, ' ' :: 'w' :: 'h' :: 'i' :: 'l' :: 'e' :: ' ' :: '(' :: behind))
    (readTest : reader.upTo ')' behind = some (some test, ';' :: rest)) :
    reader.readOutline (Keyword.doWhile.text.toList ++ ' ' :: inside) =
      some (.doWhile body test, rest) := by
  have ends : Word.Ends (' ' :: inside) := Word.ends_cons _ rfl
  rw [readOutline_keyword, readForm, Keyword.ofWord?_first _ ends, Keyword.behind_text _ ends]
  simp only [readBody, readTest, Option.bind_eq_bind, Option.bind_some]

theorem readOutline_forLoop {start : Outline} {test next : Option Expr} {head : List Char}
    (readStart : reader.readOutline head = some (start, ' ' :: inside))
    (readTest : reader.upTo ';' inside = some (test, ' ' :: behind))
    (readNext : reader.upTo ')' behind = some (next, ' ' :: last))
    (readBody : reader.readOutline last = some (body, rest)) :
    reader.readOutline (Keyword.forLoop.text.toList ++ ' ' :: '(' :: head) =
      some (.forLoop start test next body, rest) := by
  have ends : Word.Ends (' ' :: '(' :: head) := Word.ends_cons _ rfl
  rw [readOutline_keyword, readForm, Keyword.ofWord?_first _ ends, Keyword.behind_text _ ends]
  simp only [readStart, readTest, readNext, readBody, Option.bind_eq_bind, Option.bind_some]

theorem readOutline_choice_some (isStatic : Bool)
    (readTest : reader.upTo ')' inside = some (some test, ' ' :: behind))
    (readYes : reader.readOutline behind = some (yes, ' ' :: 'e' :: 'l' :: 's' :: 'e' :: ' ' :: last))
    (readNo : reader.readOutline last = some (no, rest)) :
    reader.readOutline ((Stmt.staticMark isStatic).toList ++
        (Keyword.choice.text.toList ++ ' ' :: '(' :: inside)) =
      some (.choice isStatic test yes (some no), rest) := by
  have ends : Word.Ends (' ' :: '(' :: inside) := Word.ends_cons _ rfl
  rw [readOutline_marked, readForm, Keyword.ofWord?_first _ ends, Keyword.behind_text _ ends]
  simp only [readTest, readYes, readNo, Option.bind_eq_bind, Option.bind_some]

theorem readOutline_choice_none (isStatic : Bool)
    (readTest : reader.upTo ')' inside = some (some test, ' ' :: behind))
    (readYes : reader.readOutline behind = some (yes, rest)) (elseless : Elseless rest) :
    reader.readOutline ((Stmt.staticMark isStatic).toList ++
        (Keyword.choice.text.toList ++ ' ' :: '(' :: inside)) =
      some (.choice isStatic test yes none, rest) := by
  have ends : Word.Ends (' ' :: '(' :: inside) := Word.ends_cons _ rfl
  rw [readOutline_marked, readForm, Keyword.ofWord?_first _ ends, Keyword.behind_text _ ends]
  simp only [readTest, readYes, Option.bind_eq_bind, Option.bind_some]
  split
  case h_1 same => exact absurd (Prod.mk.inj same).2 (elseless _)
  case h_2 same =>
    cases same
    rfl

theorem readOutline_switch (isStatic : Bool) {cases : List (Option Expr × List Outline)}
    (readValue : reader.upTo ')' inside = some (some value, ' ' :: '\x7b' :: behind))
    (readAll : reader.readCases behind = some (cases, '\n' :: '\x7d' :: rest)) :
    reader.readOutline ((Stmt.staticMark isStatic).toList ++
        (Keyword.switch.text.toList ++ ' ' :: '(' :: inside)) =
      some (.switch isStatic value cases, rest) := by
  have ends : Word.Ends (' ' :: '(' :: inside) := Word.ends_cons _ rfl
  rw [readOutline_marked, readForm, Keyword.ofWord?_first _ ends, Keyword.behind_text _ ends]
  simp only [readValue, readAll, Option.bind_eq_bind, Option.bind_some]

theorem readOutline_whileLoop (readTest : reader.upTo ')' inside = some (some test, ' ' :: behind))
    (readBody : reader.readOutline behind = some (body, rest)) :
    reader.readOutline (Keyword.whileLoop.text.toList ++ ' ' :: '(' :: inside) =
      some (.whileLoop test body, rest) := by
  have ends : Word.Ends (' ' :: '(' :: inside) := Word.ends_cons _ rfl
  rw [readOutline_keyword, readForm, Keyword.ofWord?_first _ ends, Keyword.behind_text _ ends]
  simp only [readTest, readBody, Option.bind_eq_bind, Option.bind_some]

/-! ## Lists and cases -/

theorem readOutlines_of_closesList {line : List Char} (closing : closesList line = true) :
    reader.readOutlines ('\n' :: line) = some ([], '\n' :: line) := by
  rw [readOutlines]
  exact if_pos closing

theorem readOutlines_cons {line behind rest : List Char} {first : Outline} {others : List Outline}
    (goesOn : closesList line = false) (readFirst : reader.readOutline line = some (first, behind))
    (readOthers : reader.readOutlines behind = some (others, rest)) :
    reader.readOutlines ('\n' :: line) = some (first :: others, rest) := by
  rw [readOutlines]
  simp only [goesOn, readFirst, readOthers, Option.bind_eq_bind, Option.bind_some]
  rfl

theorem readCases_of_label_eq_none {line : List Char} (none : reader.label line = none) :
    reader.readCases ('\n' :: line) = some ([], '\n' :: line) := by
  rw [readCases, none]

theorem readCases_cons {line inside behind rest : List Char} {value : Option Expr}
    {stmts : List Outline} {others : List (Option Expr × List Outline)}
    (readLabel : reader.label line = some (value, inside))
    (readStmts : reader.readOutlines inside = some (stmts, behind))
    (readOthers : reader.readCases behind = some (others, rest)) :
    reader.readCases ('\n' :: line) = some ((value, stmts) :: others, rest) := by
  rw [readCases, readLabel]
  simp only [readStmts, readOthers, Option.bind_eq_bind, Option.bind_some]

end Forms

end Reader

end ShaderTree
