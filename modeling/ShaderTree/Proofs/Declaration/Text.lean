import ShaderTree.Declaration.Printer
import ShaderTree.Proofs.Expr.Keywords

/-!
# The texts of declarations

A declaration is proper if it declares something and names it, and the structure whose values it
declares, by names that are no keywords.  Its text starts with two words that only a space stands
between, as no expression does: the reader of expressions stops before the second one.  So the text of a
declaration, which ends with the first semicolon, is never taken for that of an expression.
-/

namespace ShaderTree

/-! ## Proper declarations -/

/-- A variable is named by a name, and its sizes and its initializer are plain. -/
structure Declarator.IsProper (declarator : Declarator) : Prop where
  named : Word.isName declarator.name = true
  plain : ∀ expr ∈ declarator.exprs, expr.isPlain = true

/-- A declaration declares something, and the type in front starts with no keyword. -/
structure Declaration.IsProper (declaration : Declaration) : Prop where
  filled : declaration.declarators ≠ []
  plain : declaration.baseType.element.isPlain = true
  free : ∀ name ∈ declaration.baseType.element.identifiers, Keyword.ofWord? name.toList = none
  each : ∀ declarator ∈ declaration.declarators, declarator.IsProper

instance (declarator : Declarator) : Decidable declarator.IsProper :=
  decidable_of_iff
    (Word.isName declarator.name = true ∧ ∀ expr ∈ declarator.exprs, expr.isPlain = true)
    ⟨fun ⟨named, plain⟩ => ⟨named, plain⟩, fun ⟨named, plain⟩ => ⟨named, plain⟩⟩

instance (declaration : Declaration) : Decidable declaration.IsProper :=
  decidable_of_iff
    (declaration.declarators ≠ [] ∧ declaration.baseType.element.isPlain = true ∧
      (∀ name ∈ declaration.baseType.element.identifiers, Keyword.ofWord? name.toList = none) ∧
      ∀ declarator ∈ declaration.declarators, declarator.IsProper)
    ⟨fun ⟨filled, plain, free, each⟩ => ⟨filled, plain, free, each⟩,
      fun ⟨filled, plain, free, each⟩ => ⟨filled, plain, free, each⟩⟩

/-! ## Semicolons -/

theorem not_mem_join {char : Char} {texts : List String} (each : ∀ text ∈ texts, char ∉ text.toList) :
    char ∉ (String.join texts).toList := by
  rw [String.toList_join, List.mem_flatMap]
  rintro ⟨text, listed, within⟩
  exact each text listed within

namespace Declarator

theorem semicolon_not_mem_sizeText {size : Option Expr}
    (plain : ∀ expr ∈ size, expr.isPlain = true) : ';' ∉ (sizeText size).toList := by
  cases size with
  | none => decide
  | some expr =>
      have own : ';' ∉ expr.text.toList := Expr.semicolon_not_mem_within (plain expr rfl) .topLevel
      simpa [sizeText, String.toList_append] using own

/-- There is no semicolon in the text of a proper declarator. -/
theorem IsProper.semicolon_not_mem_text {declarator : Declarator} (proper : declarator.IsProper) :
    ';' ∉ declarator.text.toList := by
  obtain ⟨named, plain⟩ := proper
  rw [exprs, List.forall_mem_append] at plain
  have name : ';' ∉ declarator.name.toList := (Word.isWord_name named).not_mem rfl
  have sizes : ';' ∉ (String.join (declarator.sizes.map sizeText)).toList := by
    refine not_mem_join (List.forall_mem_map.2 fun size listed => ?_)
    refine semicolon_not_mem_sizeText fun expr held => plain.1 expr ?_
    exact List.mem_filterMap.2 ⟨size, listed, held⟩
  rw [text, String.toList_append, String.toList_append]
  simp only [List.mem_append, not_or]
  refine ⟨⟨name, sizes⟩, ?_⟩
  cases held : declarator.value with
  | none => decide
  | some expr =>
      have listed : expr ∈ declarator.value.toList := Option.mem_toList.2 held
      have own := Expr.semicolon_not_mem_within (plain.2 expr listed) .assignment
      simpa [String.toList_append] using own

end Declarator

namespace Declaration

variable {declaration : Declaration}

theorem semicolon_not_mem_declaratorsText {declarators : List Declarator}
    (each : ∀ declarator ∈ declarators, declarator.IsProper) :
    ';' ∉ (declaratorsText declarators).toList := by
  cases declarators with
  | nil => decide
  | cons first rest =>
      rw [List.forall_mem_cons] at each
      simpa [declaratorsText, String.toList_append] using
        ⟨each.1.semicolon_not_mem_text, fun next listed =>
          (each.2 next listed).semicolon_not_mem_text⟩

/-- There is no semicolon in the text of a proper declaration. -/
theorem IsProper.semicolon_not_mem_text (proper : declaration.IsProper) :
    ';' ∉ declaration.text.toList := by
  have modifiers : ';' ∉ declaration.modifiers.text.toList := by
    refine not_mem_join (List.forall_mem_map.2 fun qualifier listed => ?_)
    cases qualifier <;> decide
  rw [text, String.toList_append, String.toList_append]
  simp only [List.mem_append, not_or]
  exact ⟨⟨modifiers, Ty.not_mem_text proper.plain rfl (by decide)⟩,
    semicolon_not_mem_declaratorsText proper.each⟩

end Declaration

/-! ## Words -/

namespace Reader

/-- A space and a word behind an expression end it. -/
theorem extend_word (place : Precedence) (left : Expr) {char : Char} (rest : List Char)
    (part : Word.isPart char = true) :
    place.extend left (' ' :: char :: rest) = some (left, ' ' :: char :: rest) := by
  have solid : isSolid char = true := decide_eq_true (Word.ne_of_isPart part rfl)
  have unknown : binaryOp? ((char :: rest).takeWhile isSolid) = none := by
    rw [List.takeWhile_cons_of_pos solid, binaryOp?, List.find?_eq_none]
    intro op listed same
    have each : (BinaryOp.all.all fun op =>
        op.text.toList.head?.all fun char => !Word.isPart char) = true := rfl
    have other := List.all_eq_true.1 each op listed
    rw [of_decide_eq_true same, List.head?_cons, Option.all_some, part] at other
    cases other
  rw [Precedence.extend, unknown]
  intro behind same
  exact Word.ne_of_isPart part rfl (List.cons.inj same).1

end Reader

namespace Qualifier

theorem isWord_text (qualifier : Qualifier) : Word.IsWord qualifier.text.toList :=
  Word.isWord_name (by cases qualifier <;> decide)

theorem ofWord?_text (qualifier : Qualifier) : Keyword.ofWord? qualifier.text.toList = none := by
  cases qualifier <;> decide

end Qualifier

theorem Ty.begins_text {ty : Ty} (plain : ty.element.isPlain = true) :
    Word.Begins ty.text.toList := by
  induction ty with
  | single element span => exact (Word.isWord_name (ElementTy.isName_text plain)).begins
  | array of count span ih =>
      rw [text, String.toList_append]
      exact (ih plain).append _

namespace Declaration

variable {declaration : Declaration}

/-- Behind the type in front of a proper declaration there are a space and a name. -/
theorem IsProper.exists_declaratorsText (proper : declaration.IsProper) :
    ∃ rest, (declaratorsText declaration.declarators).toList = ' ' :: rest ∧ Word.Begins rest := by
  obtain ⟨first, others, same⟩ := List.exists_cons_of_ne_nil proper.filled
  have named := (proper.each first (same ▸ List.mem_cons_self)).named
  have text : (declaratorsText declaration.declarators).toList =
      ' ' :: (first.text ++ String.join (others.map fun next => ", " ++ next.text)).toList := by
    rw [same, declaratorsText, String.append_assoc, String.toList_append]
    rfl
  refine ⟨_, text, ?_⟩
  rw [Declarator.text, String.toList_append, String.toList_append, String.toList_append]
  exact (((Word.isWord_name named).begins.append _).append _).append _

/-- What stands behind some of the qualifiers of a declaration starts with a word. -/
theorem IsProper.begins_text (proper : declaration.IsProper) (qualifiers : List Qualifier) :
    Word.Begins { declaration with modifiers := ⟨qualifiers⟩ }.text.toList := by
  rw [text, String.toList_append, String.toList_append]
  cases qualifiers with
  | nil => exact (Ty.begins_text proper.plain).append _
  | cons qualifier others =>
      rw [Modifiers.text, List.map_cons, String.join_cons, String.toList_append,
        String.toList_append]
      exact (((qualifier.isWord_text.begins.append _).append _).append _).append _

/--
The text of a proper declaration starts with a qualifier or a type, which is no keyword, and goes on
with a word behind a space.
-/
theorem IsProper.exists_words (proper : declaration.IsProper) :
    ∃ first behind : List Char,
      declaration.text.toList = first ++ ' ' :: behind ∧
        Word.Begins first ∧ Word.IsFree first ∧ Word.Begins behind ∧
        ∀ place : Precedence, ∃ left, ∀ rest, Word.Ends rest →
          place.read (first ++ rest) = place.extend left rest := by
  obtain ⟨⟨qualifiers⟩, baseType, declarators, span⟩ := declaration
  cases qualifiers with
  | nil =>
      obtain ⟨behind, text, begins⟩ := proper.exists_declaratorsText
      refine ⟨baseType.text.toList, behind, ?_, Ty.begins_text proper.plain,
        Ty.isFree_text proper.plain proper.free, begins, fun place => ⟨baseType.spelling, ?_⟩⟩
      · rw [← text, ← String.toList_append]
        rfl
      · exact fun rest ends => Ty.read_text proper.plain place ends
  | cons qualifier qualifiers =>
      refine ⟨qualifier.text.toList, _, ?_, qualifier.isWord_text.begins,
        Word.isFree_of_isWord qualifier.isWord_text qualifier.ofWord?_text,
        proper.begins_text qualifiers, fun place => ⟨Reader.ofWord qualifier.text.toList, ?_⟩⟩
      · simp [Declaration.text, Modifiers.text, String.toList_append]
      · exact fun rest ends => Reader.read_word qualifier.isWord_text ends place

/-- The reader of expressions stops within the text of a proper declaration. -/
theorem IsProper.read_text (proper : declaration.IsProper) (place : Precedence) (rest : List Char) :
    ∃ left behind,
      place.read (declaration.text.toList ++ rest) = some (left, ' ' :: behind) := by
  obtain ⟨first, _, text, -, -, ⟨char, behind, rfl, part⟩, readFirst⟩ := proper.exists_words
  obtain ⟨left, reads⟩ := readFirst place
  refine ⟨left, char :: (behind ++ rest), ?_⟩
  rw [text, List.append_assoc, List.cons_append, List.cons_append, reads _ (Word.ends_cons _ rfl)]
  exact Reader.extend_word place left (behind ++ rest) part

/-- The text of a proper declaration starts with no keyword. -/
theorem IsProper.isFree_text (proper : declaration.IsProper) :
    Word.IsFree declaration.text.toList := by
  obtain ⟨first, behind, text, -, free, -⟩ := proper.exists_words
  rw [text]
  exact free.append (Word.ends_cons _ rfl)

end Declaration

end ShaderTree
