import ShaderTree.Proofs.Stmt.Reader
import ShaderTree.Proofs.Tree.ElseBranches

/-!
# Printed statements are readable

The reader undoes the printer: it reads the text of a proper tree whose branches are safe as the outline
of the tree.  What has to be known of the text behind a statement is that it starts with no `else` where
the statement is open.  A list ends where it should, since no statement starts like a label or with a
closing brace.
-/

namespace ShaderTree

open Reader

variable {view : View}

namespace Stmt

/-! ## Texts as characters -/

/-- Some simple statements are a keyword and a semicolon. -/
theorem toList_text_alone {form : Simple} {keyword : Keyword}
    (same : (form.text (m := Id) view).run = keyword.text ++ ";") (span : Span) (rest : List Char) :
    (textUnder view (.simple form span)).toList ++ rest = keyword.text.toList ++ ';' :: rest := by
  have text : textUnder view (.simple form span) = keyword.text ++ ";" := same
  rw [text, String.toList_append, List.append_assoc]
  rfl

theorem toList_text_nop (span : Span) (rest : List Char) :
    (textUnder view (.simple .nop span)).toList ++ rest = ';' :: rest := by
  have text : textUnder view (.simple .nop span) = ";" := rfl
  rw [text]
  rfl

theorem toList_text_evaluate (expr : Expr) (span : Span) (rest : List Char) :
    (textUnder view (.simple (.evaluate expr) span)).toList ++ rest =
      expr.text.toList ++ ';' :: rest := by
  simp [textUnder, text, Simple.text, String.toList_append]

theorem toList_text_return (value : Expr) (span : Span) (rest : List Char) :
    (textUnder view (.simple (.return (some value)) span)).toList ++ rest =
      Keyword.return.text.toList ++ ' ' :: (value.text.toList ++ ';' :: rest) := by
  simp [textUnder, text, Simple.text, Keyword.text, String.toList_append]

theorem toList_text_declare (handle : Handle) (span : Span) (rest : List Char) :
    (textUnder view (.simple (.declare handle) span)).toList ++ rest =
      (view handle).text.toList ++ ';' :: rest := by
  have text : textUnder view (.simple (.declare handle) span) = (view handle).text ++ ";" := rfl
  rw [text, String.toList_append, List.append_assoc]
  rfl

theorem toList_text_block (stmts : List Stmt) (span : Span) (rest : List Char) :
    (textUnder view (.block stmts span)).toList ++ rest =
      '\x7b' :: ((textOfEachUnder view stmts).toList ++ '\n' :: '\x7d' :: rest) := by
  simp [textUnder_block, String.toList_append]

theorem toList_text_doWhile (body : Stmt) (test : Expr) (span : Span) (rest : List Char) :
    (textUnder view (.doWhile body test span)).toList ++ rest =
      Keyword.doWhile.text.toList ++ ' ' :: ((body.textUnder view).toList ++
        ' ' :: 'w' :: 'h' :: 'i' :: 'l' :: 'e' :: ' ' :: '(' ::
          (test.text.toList ++ ')' :: ';' :: rest)) := by
  simp [textUnder_doWhile, Keyword.text, String.toList_append]

theorem toList_text_forLoop_some (start : Stmt) (test next : Option Expr) (body : Stmt)
    (span : Span) (rest : List Char) :
    (textUnder view (.forLoop (some start) test next body span)).toList ++ rest =
      Keyword.forLoop.text.toList ++ ' ' :: '(' :: ((start.textUnder view).toList ++
        ' ' :: ((optionalText test).toList ++ ';' :: ' ' :: ((optionalText next).toList ++
          ')' :: ' ' :: ((body.textUnder view).toList ++ rest)))) := by
  simp [textUnder_forLoop, Keyword.text, String.toList_append]

theorem toList_text_forLoop_none (test next : Option Expr) (body : Stmt) (span : Span)
    (rest : List Char) :
    (textUnder view (.forLoop none test next body span)).toList ++ rest =
      Keyword.forLoop.text.toList ++ ' ' :: '(' :: ';' :: ' ' :: ((optionalText test).toList ++
        ';' :: ' ' :: ((optionalText next).toList ++
          ')' :: ' ' :: ((body.textUnder view).toList ++ rest))) := by
  simp [textUnder_forLoop, Keyword.text, String.toList_append]

theorem toList_text_choice_some (isStatic : Bool) (test : Expr) (yes no : Stmt) (span : Span)
    (rest : List Char) :
    (textUnder view (.choice isStatic test yes (some no) span)).toList ++ rest =
      (staticMark isStatic).toList ++ (Keyword.choice.text.toList ++ ' ' :: '(' ::
        (test.text.toList ++ ')' :: ' ' :: ((yes.textUnder view).toList ++
          ' ' :: 'e' :: 'l' :: 's' :: 'e' :: ' ' :: ((no.textUnder view).toList ++ rest)))) := by
  simp [textUnder_choice_some, Keyword.text, String.toList_append]

theorem toList_text_choice_none (isStatic : Bool) (test : Expr) (yes : Stmt) (span : Span)
    (rest : List Char) :
    (textUnder view (.choice isStatic test yes none span)).toList ++ rest =
      (staticMark isStatic).toList ++ (Keyword.choice.text.toList ++ ' ' :: '(' ::
        (test.text.toList ++ ')' :: ' ' :: ((yes.textUnder view).toList ++ rest))) := by
  simp [textUnder_choice_none, Keyword.text, String.toList_append]

theorem toList_text_switch (isStatic : Bool) (value : Expr) (cases : List Case) (span : Span)
    (rest : List Char) :
    (textUnder view (.switch isStatic value cases span)).toList ++ rest =
      (staticMark isStatic).toList ++ (Keyword.switch.text.toList ++ ' ' :: '(' ::
        (value.text.toList ++ ')' :: ' ' :: '\x7b' :: ((textOfCasesUnder view cases).toList ++
          '\n' :: '\x7d' :: rest))) := by
  simp [textUnder_switch, Keyword.text, String.toList_append]

theorem toList_text_whileLoop (test : Expr) (body : Stmt) (span : Span) (rest : List Char) :
    (textUnder view (.whileLoop test body span)).toList ++ rest =
      Keyword.whileLoop.text.toList ++ ' ' :: '(' ::
        (test.text.toList ++ ')' :: ' ' :: ((body.textUnder view).toList ++ rest)) := by
  simp [textUnder_whileLoop, Keyword.text, String.toList_append]

theorem toList_textOfEach_cons (first : Stmt) (others : List Stmt) (rest : List Char) :
    (textOfEachUnder view (first :: others)).toList ++ rest =
      '\n' :: ((first.textUnder view).toList ++ ((textOfEachUnder view others).toList ++ rest)) := by
  simp [textOfEachUnder_cons, String.toList_append]

theorem toList_textOfCases_cons (label : Option Expr) (stmts : List Stmt) (others : List Case)
    (rest : List Char) :
    (textOfCasesUnder view (.mk label stmts :: others)).toList ++ rest =
      '\n' :: ((Case.labelText label).toList ++ ((textOfEachUnder view stmts).toList ++
        ((textOfCasesUnder view others).toList ++ rest))) := by
  simp [textOfCasesUnder_cons, String.toList_append]

theorem toList_labelText_none (rest : List Char) :
    (Case.labelText none).toList ++ rest = Keyword.defaultLabel.text.toList ++ ':' :: rest :=
  rfl

theorem toList_labelText_some (expr : Expr) (rest : List Char) :
    (Case.labelText (some expr)).toList ++ rest =
      Keyword.caseLabel.text.toList ++ ' ' :: (expr.text.toList ++ ':' :: rest) := by
  simp [Case.labelText, Keyword.text, String.toList_append]

end Stmt

/-! ## What stands behind a statement -/

namespace Reader

theorem elseless_cons {char : Char} (rest : List Char) (other : char ≠ ' ') :
    Elseless (char :: rest) :=
  fun _ same => other (List.cons.inj same).1

theorem elseless_space {char : Char} (rest : List Char) (other : char ≠ 'e') :
    Elseless (' ' :: char :: rest) :=
  fun _ same => other (List.cons.inj (List.cons.inj same).2).1

theorem elseless_of_isFree {text : List Char} (free : Word.IsFree text) : Elseless (' ' :: text) := by
  intro behind same
  have keyword : text = Keyword.otherwise.text.toList ++ ' ' :: behind := (List.cons.inj same).2
  rw [Word.IsFree, keyword, Keyword.ofWord?_first _ (Word.ends_cons _ rfl)] at free
  cases free

/-- The text of an expression starts with none of the signs that statements start and lists end with. -/
theorem Starts.not_mem {place : Precedence} {text : List Char} (starts : Starts place text) :
    ∀ char ∈ text.head?, char ∉ [';', '\x7b', '@', '\x7d'] := by
  rintro _ head
  rcases starts with ⟨char, rest, rfl, part | rfl | ⟨sign, -⟩⟩
  · cases head
    intro listed
    have none : ([';', '\x7b', '@', '\x7d'].any Word.isPart) = false := rfl
    exact List.any_eq_false.1 none _ listed part
  · cases head
    decide
  · cases head
    intro listed
    have none : ([';', '\x7b', '@', '\x7d'].any isSign) = false := rfl
    exact List.any_eq_false.1 none _ listed sign

theorem starts_of_begins {text : List Char} (begins : Word.Begins text) (place : Precedence) :
    Starts place text := by
  obtain ⟨char, rest, rfl, part⟩ := begins
  exact ⟨char, rest, rfl, .inl part⟩

theorem closesList_of_isFree {line : List Char} (free : Word.IsFree line)
    (starts : ∀ char ∈ line.head?, char ≠ '\x7d') : closesList line = false := by
  have brace : line.head? ≠ some '\x7d' := fun same => starts _ same rfl
  rw [closesList, free, decide_eq_false brace]
  rfl

/-- Neither an expression nor a declaration stands behind a list. -/
theorem closesList_of_starts {line : List Char} (free : Word.IsFree line)
    (starts : Starts .topLevel line) : closesList line = false := by
  refine closesList_of_isFree free fun char head same => ?_
  subst same
  exact starts.not_mem _ head (by decide)

/-- An expression or a declaration is read as one. -/
theorem readOutline_of_starts {reader : Reader} {text : List Char} (free : Word.IsFree text)
    (starts : Starts .topLevel text) :
    reader.readOutline text = some (reader.line text) := by
  refine readOutline_of_isFree free fun char head listed => starts.not_mem char head ?_
  exact List.mem_append_left ['\x7d'] listed

theorem closesList_keyword {keyword : Keyword} (notLabel : keyword ≠ .caseLabel)
    (notDefault : keyword ≠ .defaultLabel) {rest : List Char} (ends : Word.Ends rest) :
    closesList (keyword.text.toList ++ rest) = false := by
  have brace : (keyword.text.toList ++ rest).head? ≠ some '\x7d' := by
    intro same
    have starts := starts_of_begins (keyword.isWord_text.begins.append rest) .topLevel
    exact starts.not_mem _ same (by decide)
  rw [closesList, Keyword.ofWord?_first _ ends, decide_eq_false brace]
  simp [notLabel, notDefault]

end Reader

/-! ## Expressions and declarations with their semicolons -/

namespace Expr

variable {expr : Expr}

theorem IsProper.isFree_line (proper : expr.IsProper) (rest : List Char) :
    Word.IsFree (expr.text.toList ++ ';' :: rest) :=
  (proper.isFree_within .topLevel).append (Word.ends_cons rest rfl)

theorem IsProper.starts_line (proper : expr.IsProper) (rest : List Char) :
    Starts .topLevel (expr.text.toList ++ ';' :: rest) :=
  (starts_within proper.plain .topLevel).append (Nat.le_refl _) _

theorem IsProper.line_text (proper : expr.IsProper) (rest : List Char) :
    standard.line (expr.text.toList ++ ';' :: rest) = (.evaluate expr.reading, rest) :=
  line_of_read ((readsBack proper.plain).closed (by decide) rfl)

end Expr

namespace Declaration

variable {declaration : Declaration}

theorem IsProper.isFree_line (proper : declaration.IsProper) (rest : List Char) :
    Word.IsFree (declaration.text.toList ++ ';' :: rest) :=
  proper.isFree_text.append (Word.ends_cons rest rfl)

theorem IsProper.starts_line (proper : declaration.IsProper) (rest : List Char) :
    Starts .topLevel (declaration.text.toList ++ ';' :: rest) :=
  starts_of_begins ((proper.begins_text declaration.modifiers.qualifiers).append _) .topLevel

theorem IsProper.line_text (proper : declaration.IsProper) (rest : List Char) :
    standard.line (declaration.text.toList ++ ';' :: rest) = (.declare declaration.text, rest) := by
  obtain ⟨left, behind, stops⟩ := proper.read_text .topLevel (';' :: rest)
  exact line_of_stop proper.semicolon_not_mem_text stops

end Declaration

namespace Stmt

/-- The text of an expression that may be left out is followed by a character that ends it. -/
theorem isFree_optionalText {value : Option Expr} (proper : ∀ expr ∈ value, expr.IsProper)
    {stop : Char} (ending : Word.isPart stop = false) (rest : List Char) :
    Word.IsFree ((optionalText value).toList ++ stop :: rest) := by
  cases value with
  | none => exact Word.isFree_cons rest ending
  | some expr => exact ((proper expr rfl).isFree_within .topLevel).append (Word.ends_cons rest ending)

/-- No statement starts like a label or with a closing brace. -/
theorem HoldsProper.closesList_text {stmt : Stmt} (proper : stmt.HoldsProper view)
    (rest : List Char) : closesList ((stmt.textUnder view).toList ++ rest) = false := by
  have word {keyword : Keyword} (notLabel : keyword ≠ .caseLabel)
      (notDefault : keyword ≠ .defaultLabel) {char : Char} {rest : List Char}
      (ending : Word.isPart char = false) :
      closesList (keyword.text.toList ++ char :: rest) = false :=
    closesList_keyword notLabel notDefault (Word.ends_cons rest ending)
  have marked (isStatic : Bool) {keyword : Keyword} (notLabel : keyword ≠ .caseLabel)
      (notDefault : keyword ≠ .defaultLabel) {rest : List Char} :
      closesList ((staticMark isStatic).toList ++ (keyword.text.toList ++ ' ' :: rest)) = false := by
    cases isStatic with
    | false => exact word notLabel notDefault rfl
    | true => exact closesList_of_isFree (Word.isFree_cons _ rfl) (by rintro _ ⟨⟩; decide)
  have alone {form : Simple} (span : Span) {keyword : Keyword}
      (same : (form.text (m := Id) view).run = keyword.text ++ ";")
      (notLabel : keyword ≠ .caseLabel) (notDefault : keyword ≠ .defaultLabel) :
      closesList ((textUnder view (.simple form span)).toList ++ rest) = false := by
    rw [toList_text_alone same]
    exact word notLabel notDefault rfl
  cases stmt with
  | simple form span =>
      cases form with
      | breakOut => exact alone span (rfl : _ = Keyword.breakOut.text ++ ";") nofun nofun
      | continueOn => exact alone span (rfl : _ = Keyword.continueOn.text ++ ";") nofun nofun
      | discard => exact alone span (rfl : _ = Keyword.discard.text ++ ";") nofun nofun
      | nop =>
          rw [toList_text_nop]
          exact closesList_of_isFree (Word.isFree_cons rest rfl) (by rintro _ ⟨⟩; decide)
      | evaluate expr =>
          have own := proper.exprs expr List.mem_cons_self
          rw [toList_text_evaluate]
          exact closesList_of_starts (own.isFree_line rest) (own.starts_line rest)
      | «return» value =>
          cases value with
          | none => exact alone span (rfl : _ = Keyword.return.text ++ ";") nofun nofun
          | some value =>
              rw [toList_text_return]
              exact word (by decide) (by decide) rfl
      | declare handle =>
          have own := proper.declaration handle rfl
          rw [toList_text_declare]
          exact closesList_of_starts (own.isFree_line rest) (own.starts_line rest)
  | block stmts span =>
      rw [toList_text_block]
      exact closesList_of_isFree (Word.isFree_cons _ rfl) (by rintro _ ⟨⟩; decide)
  | doWhile body test span =>
      rw [toList_text_doWhile]
      exact word (by decide) (by decide) rfl
  | forLoop start test next body span =>
      cases start with
      | none =>
          rw [toList_text_forLoop_none]
          exact word (by decide) (by decide) rfl
      | some start =>
          rw [toList_text_forLoop_some]
          exact word (by decide) (by decide) rfl
  | choice isStatic test yes no span =>
      cases no with
      | none =>
          rw [toList_text_choice_none]
          exact marked isStatic (by decide) (by decide)
      | some no =>
          rw [toList_text_choice_some]
          exact marked isStatic (by decide) (by decide)
  | switch isStatic value cases span =>
      rw [toList_text_switch]
      exact marked isStatic (by decide) (by decide)
  | whileLoop test body span =>
      rw [toList_text_whileLoop]
      exact word (by decide) (by decide) rfl

/-! ## Reading back -/

/--
The text of a statement is read as its outline, whatever stands behind it, where that starts with no
`else` if the statement is open.
-/
def ReadsBack (view : View) (stmt : Stmt) : Prop :=
  ∀ rest : List Char, (stmt.isOpen = true → Elseless rest) →
    standard.readOutline ((stmt.textUnder view).toList ++ rest) = some (stmt.outline view, rest)

theorem ReadsBack.of_alone {form : Simple} (span : Span) {keyword : Keyword}
    (same : (form.text (m := Id) view).run = keyword.text ++ ";")
    (alone : alone? keyword = some (form.outline view)) :
    ReadsBack view (.simple form span) := by
  intro rest _
  rw [toList_text_alone same]
  exact readOutline_alone alone rest

/-- Every proper simple statement is read back. -/
theorem readsBack_simple (form : Simple) (span : Span)
    (proper : HoldsProper view (.simple form span)) : ReadsBack view (.simple form span) := by
  cases form with
  | breakOut => exact .of_alone span (rfl : _ = Keyword.breakOut.text ++ ";") rfl
  | continueOn => exact .of_alone span (rfl : _ = Keyword.continueOn.text ++ ";") rfl
  | discard => exact .of_alone span (rfl : _ = Keyword.discard.text ++ ";") rfl
  | nop =>
      intro rest _
      rw [toList_text_nop, readOutline]
      rfl
  | evaluate expr =>
      intro rest _
      have own := proper.exprs expr List.mem_cons_self
      rw [toList_text_evaluate, readOutline_of_starts (own.isFree_line rest) (own.starts_line rest),
        own.line_text]
      rfl
  | «return» value =>
      cases value with
      | none => exact .of_alone span (rfl : _ = Keyword.return.text ++ ";") rfl
      | some value =>
          intro rest _
          have own := proper.exprs value List.mem_cons_self
          rw [toList_text_return]
          exact readOutline_return_some (upTo_text own.plain rfl rest)
  | declare handle =>
      intro rest _
      have own := proper.declaration handle rfl
      rw [toList_text_declare, readOutline_of_starts (own.isFree_line rest) (own.starts_line rest),
        own.line_text]
      rfl

/-! ## Lists and cases -/

/-- Behind a statement of a list there is a line break. -/
theorem elseless_textOfEach (stmts : List Stmt) (line : List Char) :
    Elseless ((textOfEachUnder view stmts).toList ++ '\n' :: line) := by
  cases stmts with
  | nil => exact elseless_cons line (by decide)
  | cons first others =>
      rw [toList_textOfEach_cons]
      exact elseless_cons _ (by decide)

/-- The texts of statements that are read back are read as their outlines, up to what ends the list. -/
theorem readOutlines_textOfEach {stmts : List Stmt} (proper : ∀ stmt ∈ stmts, stmt.HoldsProper view)
    (back : ∀ stmt ∈ stmts, stmt.ReadsBack view) {line : List Char}
    (closing : closesList line = true) :
    standard.readOutlines ((textOfEachUnder view stmts).toList ++ '\n' :: line) =
      some (outlines view stmts, '\n' :: line) := by
  induction stmts with
  | nil => exact readOutlines_of_closesList closing
  | cons first others ih =>
      rw [List.forall_mem_cons] at proper back
      rw [toList_textOfEach_cons]
      exact readOutlines_cons (proper.1.closesList_text _)
        (back.1 _ fun _ => elseless_textOfEach others line) (ih proper.2 back.2)

/-- The text of a label is read as the label. -/
theorem label_labelText {value : Option Expr} (plain : ∀ expr ∈ value, expr.isPlain = true)
    (rest : List Char) :
    standard.label ((Case.labelText value).toList ++ rest) = some (value.map Expr.reading, rest) := by
  cases value with
  | none =>
      have ends : Word.Ends (':' :: rest) := Word.ends_cons _ rfl
      rw [toList_labelText_none, label, Keyword.ofWord?_first _ ends, Keyword.behind_text _ ends]
      rfl
  | some expr =>
      have ends : Word.Ends (' ' :: (expr.text.toList ++ ':' :: rest)) := Word.ends_cons _ rfl
      rw [toList_labelText_some, label, Keyword.ofWord?_first _ ends, Keyword.behind_text _ ends]
      exact upTo_text (plain expr rfl) rfl rest

theorem closesList_labelText (value : Option Expr) (rest : List Char) :
    closesList ((Case.labelText value).toList ++ rest) = true := by
  cases value with
  | none =>
      rw [toList_labelText_none, closesList, Keyword.ofWord?_first _ (Word.ends_cons _ rfl)]
      simp
  | some expr =>
      rw [toList_labelText_some, closesList, Keyword.ofWord?_first _ (Word.ends_cons _ rfl)]
      simp

/-- What stands behind the statements of a case ends their list. -/
theorem exists_textOfCases (view : View) (cases : List Case) (rest : List Char) :
    ∃ line, (textOfCasesUnder view cases).toList ++ '\n' :: '\x7d' :: rest = '\n' :: line ∧
      closesList line = true := by
  cases cases with
  | nil => exact ⟨'\x7d' :: rest, rfl, rfl⟩
  | cons first others =>
      obtain ⟨value, stmts⟩ := first
      exact ⟨_, toList_textOfCases_cons value stmts others _, closesList_labelText value _⟩

/-- The texts of cases whose statements are read back are read as labels with outlines. -/
theorem readCases_textOfCases {cases : List Case}
    (plain : ∀ value ∈ cases.filterMap Case.label, value.isPlain = true)
    (proper : ∀ stmt ∈ cases.flatMap Case.stmts, stmt.HoldsProper view)
    (back : ∀ stmt ∈ cases.flatMap Case.stmts, stmt.ReadsBack view) (rest : List Char) :
    standard.readCases ((textOfCasesUnder view cases).toList ++ '\n' :: '\x7d' :: rest) =
      some (outlinesOfCases view cases, '\n' :: '\x7d' :: rest) := by
  induction cases with
  | nil =>
      refine readCases_of_label_eq_none ?_
      have free : Word.IsFree ('\x7d' :: rest) := Word.isFree_cons rest rfl
      rw [label, free]
  | cons first others ih =>
      obtain ⟨value, stmts⟩ := first
      rw [List.flatMap_cons, List.forall_mem_append] at proper back
      have plainOwn : ∀ expr ∈ value, expr.isPlain = true := by
        intro expr held
        exact plain expr (List.mem_filterMap.2 ⟨_, List.mem_cons_self, held⟩)
      have plainOthers : ∀ value ∈ others.filterMap Case.label, value.isPlain = true := by
        intro expr held
        obtain ⟨each, listed, labelled⟩ := List.mem_filterMap.1 held
        exact plain expr (List.mem_filterMap.2 ⟨each, List.mem_cons_of_mem _ listed, labelled⟩)
      have readOthers := ih plainOthers proper.2 back.2
      obtain ⟨line, text, closing⟩ := exists_textOfCases view others rest
      rw [toList_textOfCases_cons]
      rw [text] at readOthers ⊢
      exact readCases_cons (label_labelText plainOwn _)
        (readOutlines_textOfEach proper.1 back.1 closing) readOthers

/-! ## Trees -/

/-- Every proper tree whose branches are safe is read back. -/
theorem readsBack {stmt : Stmt} (proper : stmt.IsProper view) (safe : stmt.ElseSafe) :
    stmt.ReadsBack view := by
  induction stmt using Stmt.induction with
  | simple form span => exact readsBack_simple form span proper.own
  | block stmts span ih =>
      intro rest _
      have own (stmt : Stmt) (within : stmt ∈ stmts) : stmt.IsProper view := proper.nested within
      have readStmts := readOutlines_textOfEach (fun stmt within => (own stmt within).own)
        (fun stmt within => ih stmt within (own stmt within) (elseSafe_block.1 safe stmt within))
        (rfl : closesList ('\x7d' :: rest) = true)
      rw [toList_text_block]
      exact readOutline_block readStmts
  | doWhile body test span ih =>
      intro rest _
      have plain := (proper.own.exprs test List.mem_cons_self).plain
      have readBody := ih (proper.nested List.mem_cons_self) (elseSafe_doWhile.1 safe)
      rw [toList_text_doWhile]
      exact readOutline_doWhile (readBody _ fun _ => elseless_space _ (by decide))
        (upTo_text plain rfl _)
  | forLoop start test next body span ihStart ihBody =>
      intro rest elseless
      obtain ⟨safeStart, safeBody⟩ := elseSafe_forLoop.1 safe
      have ofTest : ∀ expr ∈ test, expr.IsProper := fun expr held =>
        proper.own.exprs expr (List.mem_append_left _ (Option.mem_toList.2 held))
      have ofNext : ∀ expr ∈ next, expr.IsProper := fun expr held =>
        proper.own.exprs expr (List.mem_append_right _ (Option.mem_toList.2 held))
      have readBody := ihBody (proper.nested (List.mem_append_right _ List.mem_cons_self)) safeBody
        rest elseless
      have readTest := upTo_optionalText (fun expr held => (ofTest expr held).plain)
        (rfl : isStop ';' = true)
      have readNext := upTo_optionalText (fun expr held => (ofNext expr held).plain)
        (rfl : isStop ')' = true)
      cases start with
      | none =>
          have readStart (rest : List Char) :
              standard.readOutline (';' :: rest) = some (.nop, rest) := by
            rw [readOutline]
          rw [toList_text_forLoop_none]
          exact readOutline_forLoop (readStart _) (readTest _) (readNext _) readBody
      | some start =>
          have readStart := ihStart start rfl
            (proper.nested (List.mem_append_left _ List.mem_cons_self)) (safeStart start rfl)
          rw [toList_text_forLoop_some]
          exact readOutline_forLoop
            (readStart _ fun _ => elseless_of_isFree (isFree_optionalText ofTest rfl _))
            (readTest _) (readNext _) readBody
  | choice isStatic test yes no span ihYes ihNo =>
      intro rest elseless
      obtain ⟨closed, safeYes, safeNo⟩ := elseSafe_choice.1 safe
      have plain := (proper.own.exprs test List.mem_cons_self).plain
      have readYes := ihYes (proper.nested List.mem_cons_self) safeYes
      cases no with
      | none =>
          rw [toList_text_choice_none]
          exact readOutline_choice_none isStatic (upTo_text plain rfl _)
            (readYes rest fun _ => elseless rfl) (elseless rfl)
      | some no =>
          have readNo := ihNo no rfl (proper.nested (List.mem_cons_of_mem _ List.mem_cons_self))
            (safeNo no rfl)
          rw [toList_text_choice_some]
          refine readOutline_choice_some isStatic (upTo_text plain rfl _) (readYes _ fun isOpen => ?_)
            (readNo rest elseless)
          rw [closed rfl] at isOpen
          cases isOpen
  | switch isStatic value cases span ih =>
      intro rest _
      rw [elseSafe_switch] at safe
      have own (stmt : Stmt) (within : stmt ∈ cases.flatMap Case.stmts) : stmt.IsProper view :=
        proper.nested within
      have plain := (proper.own.exprs value List.mem_cons_self).plain
      have labels (label : Expr) (listed : label ∈ cases.filterMap Case.label) :
          label.isPlain = true :=
        (proper.own.exprs label (List.mem_cons_of_mem _ listed)).plain
      have back (stmt : Stmt) (within : stmt ∈ cases.flatMap Case.stmts) : stmt.ReadsBack view := by
        obtain ⟨each, inCases, inStmts⟩ := List.mem_flatMap.1 within
        exact ih each inCases stmt inStmts (own stmt within) (safe stmt within)
      have readAll := readCases_textOfCases labels (fun stmt within => (own stmt within).own) back rest
      rw [toList_text_switch]
      exact readOutline_switch isStatic (upTo_text plain rfl _) readAll
  | whileLoop test body span ih =>
      intro rest elseless
      have plain := (proper.own.exprs test List.mem_cons_self).plain
      have readBody := ih (proper.nested List.mem_cons_self) (elseSafe_whileLoop.1 safe)
      rw [toList_text_whileLoop]
      exact readOutline_whileLoop (upTo_text plain rfl _) (readBody rest elseless)

end Stmt

end ShaderTree
