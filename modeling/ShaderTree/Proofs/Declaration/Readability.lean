import ShaderTree.Proofs.Stmt.Reader

/-!
# Printed declarations are readable

The text of a declaration falls into its parts from left to right.  The qualifiers and the type in front
hold no space and have one behind them, and no type is spelled as a qualifier.  A name ends where its
word does.  Brackets, commas and equality signs stand within sizes and initializers as well, and there
the reader of expressions says where a part ends.  So the reader of declarations undoes the printer, and
two plain declarations with the same text have the same outline.
-/

namespace ShaderTree

/-! ## Outlines -/

/-- What the text of a declarator says. -/
structure Declarator.Outline where
  name : String
  /-- The readings of the sizes, outermost first; an unsized dimension has none. -/
  sizes : List (Option Expr)
  /-- The reading of the initializer. -/
  value : Option Expr

/-- What the text of a declaration says. -/
structure Declaration.Outline where
  qualifiers : List Qualifier
  /-- The spelling of the type in front. -/
  baseType : String
  declarators : List Declarator.Outline

/-- A declarator without its span and its whole type, and with readings for expressions. -/
def Declarator.outline (declarator : Declarator) : Declarator.Outline :=
  ⟨declarator.name, declarator.sizes.map (·.map Expr.reading), declarator.value.map Expr.reading⟩

/-- A declaration without its span, with the outlines of its declarators. -/
def Declaration.outline (declaration : Declaration) : Declaration.Outline :=
  ⟨declaration.modifiers.qualifiers, declaration.baseType.text,
    declaration.declarators.map Declarator.outline⟩

/-- A declaration names things by names, and the type in front is not called as a qualifier. -/
structure Declaration.IsPlain (declaration : Declaration) : Prop where
  plain : declaration.baseType.element.isPlain = true
  free : ∀ name ∈ declaration.baseType.element.identifiers, ∀ qualifier : Qualifier,
    name ≠ qualifier.text
  each : ∀ declarator ∈ declaration.declarators, declarator.IsProper

/-! ## Spellings of qualifiers -/

namespace Qualifier

/-- All qualifiers. -/
def all : List Qualifier :=
  [.const, .input, .output, .uniform, .flat, .noPerspective, .highPrecision, .mediumPrecision,
    .lowPrecision]

/-- The qualifier of a spelling. -/
def ofSpelling? (word : List Char) : Option Qualifier :=
  all.find? fun qualifier => qualifier.text.toList = word

theorem ofSpelling?_text (qualifier : Qualifier) :
    ofSpelling? qualifier.text.toList = some qualifier := by
  cases qualifier <;> decide

theorem ofSpelling?_eq_none {word : List Char}
    (other : ∀ qualifier : Qualifier, qualifier.text.toList ≠ word) : ofSpelling? word = none := by
  rw [ofSpelling?, List.find?_eq_none]
  intro qualifier _ same
  exact other qualifier (of_decide_eq_true same)

end Qualifier

/-! ## The reader -/

namespace Reader

/-- Reads dimensions for as long as there is a bracket. -/
def readSizes (reader : Reader) (text : List Char) : Option (List (Option Expr) × List Char) :=
  match text with
  | '[' :: inside => do
      let (size, rest) ← reader.upTo ']' inside
      let (others, rest) ← reader |>.readSizes rest
      some (size :: others, rest)
  | _ => some ([], text)
partial_fixpoint

/-- Reads an initializer, if there is one. -/
def readValue (reader : Reader) (text : List Char) : Option (Option Expr × List Char) :=
  match text with
  | ' ' :: '=' :: ' ' :: behind => do
      let (value, rest) ← reader.readExpr .assignment behind
      some (some value, rest)
  | text => some (none, text)

/-- Reads a declarator. -/
def readDeclarator (reader : Reader) (text : List Char) :
    Option (Declarator.Outline × List Char) := do
  let (sizes, rest) ← reader.readSizes (Word.behind text)
  let (value, rest) ← reader.readValue rest
  some (⟨String.ofList (Word.first text), sizes, value⟩, rest)

/-- Reads declarators, of which there is at least one, to the end of a text. -/
def readDeclarators (reader : Reader) (text : List Char) : Option (List Declarator.Outline) := do
  match ← reader.readDeclarator text with
  | (first, ',' :: ' ' :: behind) => do
      let others ← reader |>.readDeclarators behind
      some (first :: others)
  | (last, _) => some [last]
partial_fixpoint

/-- Reads a declaration, of which a text consists. -/
def readDeclaration (reader : Reader) (text : List Char) : Option Declaration.Outline :=
  match Qualifier.ofSpelling? (text.takeWhile isSolid), text.dropWhile isSolid with
  | some qualifier, behind => do
      let outline ← reader |>.readDeclaration behind.tail
      some { outline with qualifiers := qualifier :: outline.qualifiers }
  | none, [] => some ⟨[], String.ofList (text.takeWhile isSolid), []⟩
  | none, behind => do
      let declarators ← reader.readDeclarators behind.tail
      some ⟨[], String.ofList (text.takeWhile isSolid), declarators⟩
partial_fixpoint

/-! ## Declarators -/

theorem toList_sizeText (size : Option Expr) (rest : List Char) :
    (Declarator.sizeText size).toList ++ rest =
      '[' :: ((Stmt.optionalText size).toList ++ ']' :: rest) := by
  cases size <;> simp [Declarator.sizeText, Stmt.optionalText, String.toList_append]

theorem readSizes_text {sizes : List (Option Expr)}
    (plain : ∀ expr ∈ sizes.filterMap id, expr.isPlain = true) {rest : List Char}
    (ends : ∀ behind, rest ≠ '[' :: behind) :
    standard.readSizes ((String.join (sizes.map Declarator.sizeText)).toList ++ rest) =
      some (sizes.map (·.map Expr.reading), rest) := by
  induction sizes with
  | nil =>
      have text : (String.join ([].map Declarator.sizeText)).toList ++ rest = rest := rfl
      rw [text, readSizes]
      · rfl
      · exact ends
  | cons size others ih =>
      have own : ∀ expr ∈ size, expr.isPlain = true := fun expr held =>
        plain expr (List.mem_filterMap.2 ⟨size, List.mem_cons_self, held⟩)
      have behind : ∀ expr ∈ others.filterMap id, expr.isPlain = true := fun expr listed =>
        plain expr ((List.sublist_cons_self size others).filterMap id |>.subset listed)
      rw [List.map_cons, String.join_cons, String.toList_append, List.append_assoc,
        toList_sizeText, readSizes, upTo_optionalText own rfl]
      simp only [Option.bind_eq_bind, Option.bind_some, ih behind]
      rfl

/-- The initializer of a declarator. -/
def valueText : Option Expr → String
  | some value => " = " ++ value.within .assignment
  | none => ""

/-- Behind a declarator a text ends or goes on with a comma. -/
def Parts (text : List Char) : Prop :=
  ∀ char ∈ text.head?, char = ','

theorem readValue_text {value : Option Expr} (plain : ∀ expr ∈ value, expr.isPlain = true)
    {rest : List Char} (parts : Parts rest) :
    standard.readValue ((valueText value).toList ++ rest) = some (value.map Expr.reading, rest) := by
  cases value with
  | none =>
      have text : (valueText none).toList ++ rest = rest := rfl
      rw [text, readValue]
      · rfl
      · rintro behind rfl
        cases parts ' ' rfl
  | some value =>
      have text : (valueText (some value)).toList ++ rest =
          ' ' :: '=' :: ' ' :: ((value.within .assignment).toList ++ rest) := by
        simp [valueText, String.toList_append]
      have read : Precedence.assignment.read ((value.within .assignment).toList ++ rest) =
          some (value.reading, rest) := by
        have back := Expr.readsBack (plain value rfl)
        cases rest with
        | nil =>
            rw [back.within (by decide) (Nat.le_refl _) Word.ends_nil
              fun inner left _ _ => extend_nil inner left]
            exact extend_nil ..
        | cons char rest =>
            cases parts char rfl
            exact back.closed (by decide) rfl
      rw [text, readValue]
      simp only [standard, read, Option.bind_eq_bind, Option.bind_some, Option.map_some]

theorem toList_text_declarator (declarator : Declarator) (rest : List Char) :
    declarator.text.toList ++ rest =
      declarator.name.toList ++
        ((String.join (declarator.sizes.map Declarator.sizeText)).toList ++
          ((valueText declarator.value).toList ++ rest)) := by
  have text : declarator.text = declarator.name ++
      String.join (declarator.sizes.map Declarator.sizeText) ++ valueText declarator.value := by
    rw [Declarator.text]
    cases declarator.value <;> rfl
  rw [text, String.toList_append, String.toList_append, List.append_assoc, List.append_assoc]

/-- Neither a name nor a dimension goes on behind the dimensions of a declarator. -/
theorem ends_valueText {value : Option Expr} {rest : List Char} (parts : Parts rest) :
    ∀ char ∈ ((valueText value).toList ++ rest).head?, char = ' ' ∨ char = ',' := by
  intro char first
  cases value with
  | none => exact .inr (parts char first)
  | some value =>
      rw [valueText, String.toList_append, List.append_assoc] at first
      exact .inl (Option.some.inj first).symm

/-- A name ends before the dimensions behind it. -/
theorem ends_sizes {sizes : List (Option Expr)} {rest : List Char} (ends : Word.Ends rest) :
    Word.Ends ((String.join (sizes.map Declarator.sizeText)).toList ++ rest) := by
  cases sizes with
  | nil => exact ends
  | cons size others =>
      rw [List.map_cons, String.join_cons, String.toList_append, List.append_assoc,
        toList_sizeText]
      exact Word.ends_cons _ rfl

/-- A declarator is read back up to the comma behind it or to the end of the text. -/
theorem readDeclarator_text {declarator : Declarator} (proper : declarator.IsProper)
    {rest : List Char} (parts : Parts rest) :
    standard.readDeclarator (declarator.text.toList ++ rest) = some (declarator.outline, rest) := by
  obtain ⟨named, plain⟩ := proper
  rw [Declarator.exprs, List.forall_mem_append] at plain
  have word := Word.isWord_name named
  have stops := @ends_valueText declarator.value _ parts
  have endsSizes : ∀ behind, (valueText declarator.value).toList ++ rest ≠ '[' :: behind := by
    intro behind same
    rw [same] at stops
    exact absurd (stops '[' rfl) (by decide)
  have ends : Word.Ends ((String.join (declarator.sizes.map Declarator.sizeText)).toList ++
      ((valueText declarator.value).toList ++ rest)) := by
    refine ends_sizes fun char first => ?_
    rcases stops char first with rfl | rfl <;> rfl
  rw [toList_text_declarator, readDeclarator, Word.first_append word ends,
    Word.behind_append word ends, String.ofList_toList]
  simp only [readSizes_text plain.1 endsSizes, Option.bind_eq_bind, Option.bind_some,
    readValue_text (fun expr held => plain.2 expr (Option.mem_toList.2 held)) parts]
  rfl

/-- The declarators behind the first one, each behind a comma. -/
def othersText (others : List Declarator) : List Char :=
  (String.join (others.map fun next => ", " ++ next.text)).toList

theorem othersText_cons (next : Declarator) (others : List Declarator) :
    othersText (next :: others) = ',' :: ' ' :: (next.text.toList ++ othersText others) := by
  simp [othersText, String.toList_append]

theorem parts_othersText (others : List Declarator) : Parts (othersText others) := by
  cases others with
  | nil => rintro _ ⟨⟩
  | cons next others =>
      rw [othersText_cons]
      rintro _ ⟨⟩
      rfl

theorem readDeclarators_text {first : Declarator} {others : List Declarator}
    (each : ∀ declarator ∈ first :: others, declarator.IsProper) :
    standard.readDeclarators (first.text.toList ++ othersText others) =
      some ((first :: others).map Declarator.outline) := by
  induction others generalizing first with
  | nil =>
      rw [readDeclarators,
        readDeclarator_text (each first List.mem_cons_self) (parts_othersText [])]
      rfl
  | cons next others ih =>
      rw [List.forall_mem_cons] at each
      rw [readDeclarators, readDeclarator_text each.1 (parts_othersText _), othersText_cons]
      simp only [ih each.2, Option.bind_eq_bind, Option.bind_some]
      rfl

/-- A text without spaces is solid throughout. -/
theorem isSolid_of_notMem {text : List Char} (none : ' ' ∉ text) :
    ∀ char ∈ text, isSolid char = true := by
  rintro char within
  refine decide_eq_true ?_
  rintro rfl
  exact none within

end Reader

open Reader

/-! ## Qualifiers and types -/

/-- A type is spelled as no qualifier. -/
theorem Ty.ofSpelling?_text {ty : Ty}
    (free : ∀ name ∈ ty.element.identifiers, ∀ qualifier : Qualifier, name ≠ qualifier.text) :
    Qualifier.ofSpelling? ty.text.toList = none := by
  refine Qualifier.ofSpelling?_eq_none fun qualifier same => ?_
  cases ty with
  | single element span =>
      have scalar (component : Scalar) : ¬ component.text.toList <+: qualifier.text.toList := by
        cases component <;> cases qualifier <;> decide
      exact ElementTy.text_ne scalar (by cases qualifier <;> decide)
        (by cases qualifier <;> decide) (fun name within => free name within qualifier)
        (String.toList_inj.1 same.symm)
  | array of count span =>
      -- A bracket ends the spelling of an array type, and no word holds one.
      have bracket : ']' ∈ (Ty.array of count span).text.toList := by
        cases count <;> simp [text, dimensionText, String.toList_append]
      rw [← same] at bracket
      exact qualifier.isWord_text.not_mem rfl bracket

namespace Declaration

/-- A qualifier is cut off the text of a declaration at the space behind it. -/
theorem readDeclaration_qualifier (reader : Reader) (qualifier : Qualifier) (rest : List Char) :
    reader.readDeclaration (qualifier.text.toList ++ ' ' :: rest) =
      (reader.readDeclaration rest).map fun outline =>
        { outline with qualifiers := qualifier :: outline.qualifiers } := by
  have solid := isSolid_of_notMem (qualifier.isWord_text.not_mem rfl)
  have ends : ∀ char ∈ (' ' :: rest).head?, isSolid char = false := by
    rintro _ ⟨⟩
    rfl
  rw [readDeclaration, Word.takeWhile_append_of_ends solid ends,
    Word.dropWhile_append_of_ends solid ends, Qualifier.ofSpelling?_text, Option.map_eq_bind]
  rfl

theorem readDeclaration_modifiers (reader : Reader) (modifiers : Modifiers) (rest : String) :
    reader.readDeclaration (modifiers.text ++ rest).toList =
      (reader.readDeclaration rest.toList).map fun outline =>
        { outline with qualifiers := modifiers.qualifiers ++ outline.qualifiers } := by
  obtain ⟨qualifiers⟩ := modifiers
  induction qualifiers with
  | nil => simp [Modifiers.text]
  | cons qualifier others ih =>
      have text : (Modifiers.text ⟨qualifier :: others⟩ ++ rest).toList =
          qualifier.text.toList ++ ' ' :: (Modifiers.text ⟨others⟩ ++ rest).toList := by
        simp [Modifiers.text, String.toList_append]
      rw [text, readDeclaration_qualifier, ih, Option.map_map]
      rfl

/-- The type in front is cut off at the space behind it or at the end of the text. -/
theorem readDeclaration_type {baseType : Ty} {declarators : List Declarator}
    (plain : baseType.element.isPlain = true)
    (free : ∀ name ∈ baseType.element.identifiers, ∀ qualifier : Qualifier, name ≠ qualifier.text)
    (each : ∀ declarator ∈ declarators, declarator.IsProper) :
    standard.readDeclaration (baseType.text ++ declaratorsText declarators).toList =
      some ⟨[], baseType.text, declarators.map Declarator.outline⟩ := by
  have solid := isSolid_of_notMem (@Ty.not_mem_text baseType plain ' ' rfl (by decide))
  rw [String.toList_append]
  cases declarators with
  | nil =>
      have ends : ∀ char ∈ (declaratorsText []).toList.head?, isSolid char = false := nofun
      rw [readDeclaration, Word.takeWhile_append_of_ends solid ends,
        Word.dropWhile_append_of_ends solid ends, Ty.ofSpelling?_text free, String.ofList_toList]
      rfl
  | cons first others =>
      have text : (declaratorsText (first :: others)).toList =
          ' ' :: (first.text.toList ++ othersText others) := by
        simp [declaratorsText, othersText, String.toList_append]
      have ends : ∀ char ∈ (' ' :: (first.text.toList ++ othersText others)).head?,
          isSolid char = false := by
        rintro _ ⟨⟩
        rfl
      rw [text, readDeclaration, Word.takeWhile_append_of_ends solid ends,
        Word.dropWhile_append_of_ends solid ends, Ty.ofSpelling?_text free, String.ofList_toList]
      simp only [List.tail_cons, readDeclarators_text each, Option.bind_eq_bind, Option.bind_some]

/-- The text of a plain declaration is read as its outline. -/
theorem readDeclaration_text {declaration : Declaration} (proper : declaration.IsPlain) :
    standard.readDeclaration declaration.text.toList = some declaration.outline := by
  have typed := readDeclaration_type proper.plain proper.free proper.each
  rw [text, String.append_assoc, readDeclaration_modifiers, typed, Option.map_some,
    List.append_nil]
  rfl

end Declaration

/-! ## The text of an outline -/

/-- The text of the declarators with an outline. -/
def Declarator.Outline.text (outline : Declarator.Outline) : String :=
  outline.name ++ String.join (outline.sizes.map sizeText) ++ valueText outline.value

theorem Declarator.text_outline (declarator : Declarator) :
    declarator.outline.text = declarator.text := by
  obtain ⟨name, ty, sizes, value, span⟩ := declarator
  have size : sizeText ∘ Option.map Expr.reading = sizeText := by
    funext size
    cases size with
    | none => rfl
    | some size => simp [sizeText, Expr.text]
  rw [outline, Outline.text, Declarator.text, List.map_map, size]
  cases value with
  | none => rfl
  | some value => simp [valueText]

namespace Declaration

/-- The text of the declarations with an outline. -/
def Outline.text (outline : Declaration.Outline) : String :=
  Modifiers.text ⟨outline.qualifiers⟩ ++ outline.baseType ++
    match outline.declarators with
    | [] => ""
    | first :: rest => " " ++ first.text ++ String.join (rest.map fun next => ", " ++ next.text)

theorem text_outline (declaration : Declaration) : declaration.outline.text = declaration.text := by
  obtain ⟨⟨qualifiers⟩, baseType, declarators, span⟩ := declaration
  cases declarators with
  | nil => rfl
  | cons first others =>
      have each : (fun next : Declarator.Outline => ", " ++ next.text) ∘ Declarator.outline =
          fun next => ", " ++ next.text := by
        funext next
        exact congrArg (", " ++ ·) next.text_outline
      simp only [outline, Outline.text, text, declaratorsText, List.map_cons, List.map_map, each,
        Declarator.text_outline]

/--
Printed declarations are uniquely readable: two plain declarations have the same text if and only if
they have the same qualifiers, types of the same spelling, and declarators of the same names, with
dimensions and initializers of the same readings.
-/
theorem text_eq_iff_outline_eq {first second : Declaration} (plainFirst : first.IsPlain)
    (plainSecond : second.IsPlain) : first.text = second.text ↔ first.outline = second.outline := by
  constructor
  · intro same
    have readFirst := readDeclaration_text plainFirst
    rw [same, readDeclaration_text plainSecond] at readFirst
    exact (Option.some.inj readFirst).symm
  · intro same
    rw [← text_outline first, same, text_outline]

/--
Two declarations for `const Light a[f(x, 2)][] = -1, b` differ in spans, in what is known of `f`, and in
whether the initializer is a negative literal.
-/
theorem text_eq_iff_outline_eq_of_arrays :
    let light : Ty := .single (.struct "Light") .nowhere
    let arguments : List Expr := [.var "x", .literal (.int 2) .nowhere]
    let declared (isPure : Bool) (value : Expr) (span : Span) : Declaration :=
      ⟨⟨[.const]⟩, light,
        [⟨"a", .array light none span, [some (.apply (.function "f" isPure) arguments span), none],
            some value, span⟩,
          ⟨"b", light, [], none, .nowhere⟩], span⟩
    let first := declared true (.literal (.int (-1)) .nowhere) ⟨3, 4⟩
    let second :=
      declared false (.prefixed .negate (.literal (.int 1) .nowhere) .nowhere) .nowhere
    first.IsPlain ∧ second.IsPlain ∧
      first.text = "const Light a[f(x, 2)][] = -1, b" ∧
      second.text = "const Light a[f(x, 2)][] = -1, b" := by
  intro light arguments declared first second
  have free : ∀ name ∈ light.element.identifiers, ∀ qualifier : Qualifier,
      name ≠ qualifier.text := by
    intro name within qualifier
    rw [List.mem_singleton.1 within]
    cases qualifier <;> decide
  have plainFirst : first.IsPlain := ⟨by decide, free, by decide⟩
  have plainSecond : second.IsPlain := ⟨by decide, free, by decide⟩
  have same : first.text = second.text := (text_eq_iff_outline_eq plainFirst plainSecond).2 rfl
  have text : first.text = "const Light a[f(x, 2)][] = -1, b" := rfl
  exact ⟨plainFirst, plainSecond, text, same.symm.trans text⟩

end Declaration

end ShaderTree
