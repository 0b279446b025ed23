import ShaderTree.Proofs.Declaration.Text
import ShaderTree.Proofs.Tree.View

/-!
# Outlines

The text of a tree does not say where its statements are written, which store its declarations live in,
or whether a loop starts with `;` or with nothing.  The outline of a tree is what is left of it without
these: every expression is reduced to its reading, and every declaration to its text.

A tree is proper if the expressions and the declarations that its statements hold are.
-/

namespace ShaderTree

/-- A statement as the text of it is read. -/
inductive Outline where
  | breakOut
  | continueOn
  | discard
  | nop
  | evaluate (expr : Expr)
  | return (value : Option Expr)
  | declare (text : String)
  | block (stmts : List Outline)
  | doWhile (body : Outline) (test : Expr)
  | forLoop (start : Outline) (test next : Option Expr) (body : Outline)
  | choice (isStatic : Bool) (test : Expr) (yes : Outline) (no : Option Outline)
  /-- The cases are given by their labels and their statements. -/
  | switch (isStatic : Bool) (value : Expr) (cases : List (Option Expr × List Outline))
  | whileLoop (test : Expr) (body : Outline)

section Outline

variable (view : View)

/-- The outline of a simple statement. -/
def Simple.outline : Simple → Outline
  | .breakOut => .breakOut
  | .continueOn => .continueOn
  | .discard => .discard
  | .nop => .nop
  | .evaluate expr => .evaluate expr.reading
  | .return value => .return (value.map Expr.reading)
  | .declare handle => .declare (view handle).text

namespace Stmt

mutual

/-- What the text of a statement says of it, where each `else` is read as its own. -/
def outline : Stmt → Outline
  | .simple form _ => form.outline view
  | .block stmts _ => .block (outlines stmts)
  | .doWhile body test _ => .doWhile body.outline test.reading
  | .forLoop (some start) test next body _ =>
      .forLoop start.outline (test.map Expr.reading) (next.map Expr.reading) body.outline
  | .forLoop none test next body _ =>
      .forLoop .nop (test.map Expr.reading) (next.map Expr.reading) body.outline
  | .choice isStatic test yes (some no) _ =>
      .choice isStatic test.reading yes.outline (some no.outline)
  | .choice isStatic test yes none _ => .choice isStatic test.reading yes.outline none
  | .switch isStatic value cases _ => .switch isStatic value.reading (outlinesOfCases cases)
  | .whileLoop test body _ => .whileLoop test.reading body.outline

/-- The outlines of the statements of a list. -/
def outlines : List Stmt → List Outline
  | [] => []
  | first :: rest => first.outline :: outlines rest

/-- The labels of cases as they are read, each with the outlines of the statements behind it. -/
def outlinesOfCases : List Case → List (Option Expr × List Outline)
  | [] => []
  | .mk label stmts :: rest => (label.map Expr.reading, outlines stmts) :: outlinesOfCases rest

end

end Stmt

end Outline

/-! ## The text of a tree -/

namespace Stmt

/-- The text of the statements of a list. -/
def textOfEachUnder (view : View) (stmts : List Stmt) : String :=
  (textOfList (m := Id) view stmts).run

/-- The text of the cases of a switch. -/
def textOfCasesUnder (view : View) (cases : List Case) : String :=
  (textOfCases (m := Id) view cases).run

variable {view : View}

theorem textUnder_block (stmts : List Stmt) (span : Span) :
    textUnder view (.block stmts span) = "\x7b" ++ textOfEachUnder view stmts ++ "\n\x7d" :=
  rfl

theorem textUnder_doWhile (body : Stmt) (test : Expr) (span : Span) :
    textUnder view (.doWhile body test span) =
      "do " ++ body.textUnder view ++ " while (" ++ test.text ++ ");" :=
  rfl

theorem textUnder_forLoop (start : Option Stmt) (test next : Option Expr) (body : Stmt)
    (span : Span) :
    textUnder view (.forLoop start test next body span) =
      "for (" ++ start.elim ";" (textUnder view) ++ " " ++ optionalText test ++ "; " ++
        optionalText next ++ ") " ++ body.textUnder view := by
  cases start with
  | none => simp [textUnder, text]
  | some start => rfl

theorem textUnder_choice_none (isStatic : Bool) (test : Expr) (yes : Stmt) (span : Span) :
    textUnder view (.choice isStatic test yes none span) =
      staticMark isStatic ++ "if (" ++ test.text ++ ") " ++ yes.textUnder view :=
  rfl

theorem textUnder_choice_some (isStatic : Bool) (test : Expr) (yes no : Stmt) (span : Span) :
    textUnder view (.choice isStatic test yes (some no) span) =
      staticMark isStatic ++ "if (" ++ test.text ++ ") " ++ yes.textUnder view ++ " else " ++
        no.textUnder view :=
  rfl

theorem textUnder_switch (isStatic : Bool) (value : Expr) (cases : List Case) (span : Span) :
    textUnder view (.switch isStatic value cases span) =
      staticMark isStatic ++ "switch (" ++ value.text ++ ") \x7b" ++ textOfCasesUnder view cases ++
        "\n\x7d" :=
  rfl

theorem textUnder_whileLoop (test : Expr) (body : Stmt) (span : Span) :
    textUnder view (.whileLoop test body span) =
      "while (" ++ test.text ++ ") " ++ body.textUnder view :=
  rfl

theorem textOfEachUnder_cons (first : Stmt) (rest : List Stmt) :
    textOfEachUnder view (first :: rest) =
      "\n" ++ first.textUnder view ++ textOfEachUnder view rest :=
  rfl

theorem textOfCasesUnder_cons (label : Option Expr) (stmts : List Stmt) (rest : List Case) :
    textOfCasesUnder view (.mk label stmts :: rest) =
      "\n" ++ Case.labelText label ++ textOfEachUnder view stmts ++ textOfCasesUnder view rest :=
  rfl

end Stmt

/-! ## The text of an outline -/

namespace Outline

mutual

/-- The text of every statement that has an outline. -/
def text : Outline → String
  | .breakOut => "break;"
  | .continueOn => "continue;"
  | .discard => "discard;"
  | .nop => ";"
  | .evaluate expr => expr.text ++ ";"
  | .return (some value) => "return " ++ value.text ++ ";"
  | .return none => "return;"
  | .declare text => text ++ ";"
  | .block stmts => "\x7b" ++ textOfEach stmts ++ "\n\x7d"
  | .doWhile body test => "do " ++ body.text ++ " while (" ++ test.text ++ ");"
  | .forLoop start test next body =>
      "for (" ++ start.text ++ " " ++ Stmt.optionalText test ++ "; " ++ Stmt.optionalText next ++
        ") " ++ body.text
  | .choice isStatic test yes (some no) =>
      Stmt.staticMark isStatic ++ "if (" ++ test.text ++ ") " ++ yes.text ++ " else " ++ no.text
  | .choice isStatic test yes none =>
      Stmt.staticMark isStatic ++ "if (" ++ test.text ++ ") " ++ yes.text
  | .switch isStatic value cases =>
      Stmt.staticMark isStatic ++ "switch (" ++ value.text ++ ") \x7b" ++ textOfCases cases ++
        "\n\x7d"
  | .whileLoop test body => "while (" ++ test.text ++ ") " ++ body.text

/-- The texts of outlines, each on a new line. -/
def textOfEach : List Outline → String
  | [] => ""
  | first :: rest => "\n" ++ first.text ++ textOfEach rest

/-- The texts of labels and of the outlines behind them. -/
def textOfCases : List (Option Expr × List Outline) → String
  | [] => ""
  | (label, stmts) :: rest =>
      "\n" ++ Case.labelText label ++ textOfEach stmts ++ textOfCases rest

end

end Outline

namespace Stmt

variable {view : View}

theorem text_reading (expr : Expr) : expr.reading.text = expr.text :=
  Expr.within_reading .topLevel expr

theorem optionalText_reading (value : Option Expr) :
    optionalText (value.map Expr.reading) = optionalText value := by
  cases value with
  | none => rfl
  | some expr => exact text_reading expr

theorem labelText_reading (value : Option Expr) :
    Case.labelText (value.map Expr.reading) = Case.labelText value := by
  cases value with
  | none => rfl
  | some expr => exact congrArg (fun text => "case " ++ text ++ ":") (text_reading expr)

theorem textOfEachUnder_eq_outlines {stmts : List Stmt}
    (same : ∀ stmt ∈ stmts, stmt.textUnder view = (stmt.outline view).text) :
    textOfEachUnder view stmts = Outline.textOfEach (outlines view stmts) := by
  induction stmts with
  | nil => rfl
  | cons first rest ih =>
      rw [List.forall_mem_cons] at same
      rw [textOfEachUnder_cons, same.1, ih same.2, outlines, Outline.textOfEach]

theorem textOfCasesUnder_eq_outlines {cases : List Case}
    (same : ∀ each ∈ cases, ∀ stmt ∈ each.stmts, stmt.textUnder view = (stmt.outline view).text) :
    textOfCasesUnder view cases = Outline.textOfCases (outlinesOfCases view cases) := by
  induction cases with
  | nil => rfl
  | cons first rest ih =>
      obtain ⟨label, stmts⟩ := first
      obtain ⟨own, others⟩ := List.forall_mem_cons.1 same
      have stmtsText : textOfEachUnder view stmts = Outline.textOfEach (outlines view stmts) :=
        textOfEachUnder_eq_outlines own
      rw [textOfCasesUnder_cons, stmtsText, ih others, outlinesOfCases, Outline.textOfCases,
        labelText_reading]

/-- A statement has the text of its outline. -/
theorem textUnder_eq_outline (stmt : Stmt) : stmt.textUnder view = (stmt.outline view).text := by
  induction stmt using Stmt.induction with
  | simple form span =>
      cases form with
      | evaluate expr => exact congrArg (· ++ ";") (text_reading expr).symm
      | «return» value =>
          cases value with
          | none => rfl
          | some value =>
              exact congrArg (fun text => "return " ++ text ++ ";") (text_reading value).symm
      | _ => rfl
  | block stmts span ih =>
      rw [textUnder_block, textOfEachUnder_eq_outlines ih, outline, Outline.text]
  | doWhile body test span ih =>
      rw [textUnder_doWhile, ih, outline, Outline.text, text_reading]
  | forLoop start test next body span ihStart ihBody =>
      cases start with
      | none =>
          rw [textUnder_forLoop, ihBody, outline, Outline.text, optionalText_reading,
            optionalText_reading]
          rfl
      | some start =>
          rw [textUnder_forLoop, Option.elim_some, ihStart start rfl, ihBody, outline, Outline.text,
            optionalText_reading, optionalText_reading]
  | choice isStatic test yes no span ihYes ihNo =>
      cases no with
      | none => rw [textUnder_choice_none, ihYes, outline, Outline.text, text_reading]
      | some no =>
          rw [textUnder_choice_some, ihYes, ihNo no rfl, outline, Outline.text, text_reading]
  | switch isStatic value cases span ih =>
      rw [textUnder_switch, textOfCasesUnder_eq_outlines ih, outline, Outline.text, text_reading]
  | whileLoop test body span ih =>
      rw [textUnder_whileLoop, ih, outline, Outline.text, text_reading]

end Stmt

/-! ## Proper trees -/

namespace Stmt

/-- The expressions that a statement holds itself, those of its declaration left out. -/
def exprs : Stmt → List Expr
  | .simple (.evaluate expr) _ => [expr]
  | .simple (.return value) _ => value.toList
  | .simple _ _ => []
  | .block _ _ => []
  | .doWhile _ test _ => [test]
  | .forLoop _ test next _ _ => test.toList ++ next.toList
  | .choice _ test _ _ _ => [test]
  | .switch _ value cases _ => value :: cases.filterMap Case.label
  | .whileLoop test _ _ => [test]

/-- What a statement holds itself is proper. -/
structure HoldsProper (view : View) (stmt : Stmt) : Prop where
  exprs : ∀ expr ∈ stmt.exprs, expr.IsProper
  declaration : ∀ handle ∈ stmt.handle?, (view handle).IsProper

/-- Every statement of a tree holds what is proper. -/
def IsProper (view : View) (stmt : Stmt) : Prop :=
  ∀ node ∈ stmt.nodes, node.HoldsProper view

theorem isProper_iff {view : View} {stmt : Stmt} :
    stmt.IsProper view ↔ stmt.HoldsProper view ∧ ∀ below ∈ stmt.nested, below.IsProper view :=
  forall_mem_nodes_iff

theorem IsProper.own {view : View} {stmt : Stmt} (proper : stmt.IsProper view) :
    stmt.HoldsProper view :=
  (isProper_iff.1 proper).1

theorem IsProper.nested {view : View} {stmt below : Stmt} (proper : stmt.IsProper view)
    (within : below ∈ stmt.nested) : below.IsProper view :=
  (isProper_iff.1 proper).2 below within

end Stmt

/-! ## Deciding what is proper -/

instance (view : View) (stmt : Stmt) : Decidable (stmt.HoldsProper view) :=
  decidable_of_iff
    ((∀ expr ∈ stmt.exprs, expr.IsProper) ∧ ∀ handle ∈ stmt.handle?, (view handle).IsProper)
    ⟨fun ⟨exprs, declaration⟩ => ⟨exprs, declaration⟩,
      fun ⟨exprs, declaration⟩ => ⟨exprs, declaration⟩⟩

instance (view : View) (stmt : Stmt) : Decidable (stmt.IsProper view) :=
  inferInstanceAs (Decidable (∀ node ∈ stmt.nodes, node.HoldsProper view))

end ShaderTree
