import Mathlib.Data.List.TakeWhile
import ShaderTree.Proofs.Text.Words
import ShaderTree.Ty

/-!
# Printed types are readable

The spelling of a type is a word, which says what the elements are, and brackets behind it, one pair
for each dimension.  Since no bracket stands in a word and only digits stand between brackets, the parts
are told apart.  The word falls into parts as well: no digit stands in the name of a scalar type, and an
`x` ends the first of two counts.  A structure could still be called as a type of the language is; if
none is, two types with the same spelling are the same type, wherever they are written.
-/

namespace ShaderTree

/-! ## Spellings -/

/-- Whether the name of a structure can name something. -/
def ElementTy.isPlain : ElementTy → Bool
  | .struct name => Word.isName name
  | _ => true

theorem Scalar.isName_append (component : Scalar) {rest : String}
    (parts : ∀ char ∈ rest.toList, Word.isPart char = true) :
    Word.isName (component.text ++ rest) = true := by
  cases component <;> exact Word.isName_append (by decide) parts (by decide) (by decide)

/-- The spelling of a type without dimensions is a name. -/
theorem ElementTy.isName_text {element : ElementTy} (plain : element.isPlain = true) :
    Word.isName element.text = true := by
  cases element with
  | void => decide
  | scalar component => cases component <;> decide
  | vector component count => exact component.isName_append (Word.isWord_toString count).parts
  | matrix component columns rows =>
      rw [text, String.append_assoc, String.append_assoc]
      refine component.isName_append ?_
      have cross : ∀ char ∈ "x".toList, Word.isPart char = true := List.all_eq_true.1 rfl
      simp only [String.toList_append, List.forall_mem_append]
      exact ⟨(Word.isWord_toString columns).parts, cross, (Word.isWord_toString rows).parts⟩
  | sampler2D => decide
  | struct name => exact plain

/-! ## The parts of a type -/

namespace Ty

/-- The dimensions of a type, from the innermost outward. -/
def dimensions : Ty → List (Option Nat)
  | .single _ _ => []
  | .array of count _ => of.dimensions ++ [count]

/-- The dimensions of a type as they are written one after the other. -/
def dimensionsText (dimensions : List (Option Nat)) : String :=
  String.join (dimensions.map dimensionText)

/-- The type written nowhere, and so are the types of its elements. -/
def unplaced : Ty → Ty
  | .single element _ => .single element .nowhere
  | .array of count _ => .array of.unplaced count .nowhere

/-- The dimensions stand behind the spelling of a single element, the innermost one first. -/
theorem text_eq_append (ty : Ty) : ty.text = ty.element.text ++ dimensionsText ty.dimensions := by
  induction ty with
  | single own span => simp [text, element, dimensions, dimensionsText]
  | array of count span ih =>
      simp [text, element, dimensions, dimensionsText, ih, String.append_assoc]

/-- A type is made up of its single elements and its dimensions, and of the places where they are. -/
theorem unplaced_eq_iff {first second : Ty} :
    first.unplaced = second.unplaced ↔
      first.element = second.element ∧ first.dimensions = second.dimensions := by
  induction first generalizing second with
  | single element span => cases second <;> simp [unplaced, Ty.element, dimensions]
  | array of count span ih =>
      cases second with
      | single element span => simp [unplaced, dimensions]
      | array of' count' span' =>
          simp [unplaced, element, dimensions, ih, and_assoc]

/-! ## Dimensions -/

/-- What stands between the brackets of a dimension. -/
def countText : Option Nat → List Char
  | some count => (toString count).toList
  | none => []

theorem toList_dimensionsText_cons (count : Option Nat) (rest : List (Option Nat)) :
    (dimensionsText (count :: rest)).toList =
      '[' :: (countText count ++ ']' :: (dimensionsText rest).toList) := by
  cases count <;> simp [dimensionsText, dimensionText, countText, String.toList_append]

theorem isPart_of_mem_countText {count : Option Nat} :
    ∀ char ∈ countText count, Word.isPart char = true := by
  cases count with
  | none => exact List.forall_mem_nil _
  | some count => exact (Word.isWord_toString count).parts

theorem countText_inj {first second : Option Nat} (same : countText first = countText second) :
    first = second := by
  cases first with
  | none =>
      cases second with
      | none => rfl
      | some count => exact absurd same.symm (Word.isWord_toString count).filled
  | some count =>
      cases second with
      | none => exact absurd same (Word.isWord_toString count).filled
      | some count' =>
          have value := congrArg Word.value same
          rw [countText, countText, Word.value_toString, Word.value_toString] at value
          rw [value]

/-- No word goes on where dimensions stand. -/
theorem ends_dimensionsText (dimensions : List (Option Nat)) :
    Word.Ends (dimensionsText dimensions).toList := by
  cases dimensions with
  | nil => exact Word.ends_nil
  | cons count rest =>
      rw [toList_dimensionsText_cons]
      exact Word.ends_cons _ rfl

/-- Dimensions that are written alike are the same. -/
theorem dimensionsText_inj {first second : List (Option Nat)}
    (same : (dimensionsText first).toList = (dimensionsText second).toList) : first = second := by
  induction first generalizing second with
  | nil =>
      cases second with
      | nil => rfl
      | cons count rest =>
          rw [toList_dimensionsText_cons] at same
          cases same
  | cons count rest ih =>
      cases second with
      | nil =>
          rw [toList_dimensionsText_cons] at same
          cases same
      | cons count' rest' =>
          rw [toList_dimensionsText_cons, toList_dimensionsText_cons, List.cons.injEq] at same
          -- The count is what stands in front of the closing bracket, if anything does.
          have stops (rest : List Char) : Word.Ends (']' :: rest) := Word.ends_cons rest rfl
          obtain ⟨counts, behind⟩ := Word.append_inj_of_ends isPart_of_mem_countText
            isPart_of_mem_countText (stops _) (stops _) same.2
          rw [countText_inj counts, ih (List.cons.inj behind).2]

end Ty

/-! ## Single elements -/

/-- All types of single components. -/
def Scalar.all : List Scalar :=
  [.bool, .int, .uint, .short, .ushort, .float, .half]

/-- The scalar type of a spelling. -/
def Scalar.ofSpelling? (word : List Char) : Option Scalar :=
  all.find? fun scalar => scalar.text.toList = word

theorem Scalar.ofSpelling?_text (scalar : Scalar) :
    ofSpelling? scalar.text.toList = some scalar := by
  cases scalar <;> decide

namespace ElementTy

/-- The types of the language itself, whose counts are bytes. -/
def IsBuiltIn : ElementTy → Prop
  | .void | .scalar _ | .sampler2D => True
  | .vector _ count => count < 256
  | .matrix _ columns rows => columns < 256 ∧ rows < 256
  | .struct _ => False

/-- A type of the language itself, or a structure that is called by a word and as none of them. -/
inductive IsApart : ElementTy → Prop where
  | builtIn {element : ElementTy} (builtIn : element.IsBuiltIn) : IsApart element
  | struct {name : String} (word : Word.IsWord name.toList)
      (apart : ∀ element : ElementTy, element.IsBuiltIn → element.text ≠ name) :
      IsApart (.struct name)

/-- The type of components whose counts are written behind the name of their type. -/
def ofCounts (component : Scalar) (counts : List Char) : ElementTy :=
  if counts = [] then
    .scalar component
  else
    match counts.dropWhile Char.isDigit with
    | [] => .vector component (Word.value counts)
    | _ :: rows =>
        .matrix component (Word.value (counts.takeWhile Char.isDigit)) (Word.value rows)

/-- The type that a word spells if it spells one of the language itself. -/
def ofSpelling (word : List Char) : ElementTy :=
  let counts := word.dropWhile fun char => !char.isDigit
  match Scalar.ofSpelling? (word.takeWhile fun char => !char.isDigit) with
  | some component => ofCounts component counts
  | none => if counts = [] then .void else .sampler2D

/-- The counts start with the first digit. -/
theorem ofSpelling_append (component : Scalar) {counts : List Char}
    (digit : ∀ char ∈ counts.head?, char.isDigit = true) :
    ofSpelling (component.text.toList ++ counts) = ofCounts component counts := by
  have letters : ∀ char ∈ component.text.toList, (!char.isDigit) = true := by
    cases component <;> exact List.all_eq_true.1 rfl
  have ends : ∀ char ∈ counts.head?, (!char.isDigit) = false := by
    intro char first
    rw [digit char first, Bool.not_true]
  unfold ofSpelling
  rw [Word.takeWhile_append_of_ends letters ends, Word.dropWhile_append_of_ends letters ends,
    Scalar.ofSpelling?_text]

theorem isDigit_of_mem_toString {number : Nat} :
    ∀ char ∈ (toString number).toList, char.isDigit = true :=
  List.all_eq_true.1 (Word.isNumeral_toString number)

theorem isDigit_head?_toString_append (number : Nat) (rest : List Char) :
    ∀ char ∈ ((toString number).toList ++ rest).head?, char.isDigit = true := by
  obtain ⟨char, others, same, -⟩ := (Word.isWord_toString number).exists_cons
  have digit := isDigit_of_mem_toString char (same ▸ List.mem_cons_self)
  rw [same]
  rintro _ ⟨⟩
  exact digit

/-- A type of the language itself is the one that its spelling spells. -/
theorem ofSpelling_text {element : ElementTy} (builtIn : element.IsBuiltIn) :
    ofSpelling element.text.toList = element := by
  cases element with
  | void => decide
  | scalar component =>
      have spelled := @ofSpelling_append component [] nofun
      rw [List.append_nil] at spelled
      exact spelled
  | vector component count =>
      have filled := (Word.isWord_toString count).filled
      have digit := isDigit_head?_toString_append count []
      have whole : (toString count).toList.dropWhile Char.isDigit = [] :=
        List.dropWhile_eq_nil_iff.2 isDigit_of_mem_toString
      rw [List.append_nil] at digit
      rw [text, String.toList_append, ofSpelling_append component digit, ofCounts, if_neg filled,
        whole]
      exact congrArg (vector component) (Word.value_toString count)
  | matrix component columns rows =>
      have spelling : (matrix component columns rows).text.toList =
          component.text.toList ++ ((toString columns).toList ++ 'x' :: (toString rows).toList) := by
        simp [text, String.toList_append]
      -- The first count ends where a character stands that is no digit.
      have cross : ∀ char ∈ ('x' :: (toString rows).toList).head?, char.isDigit = false := by
        rintro _ ⟨⟩
        rfl
      have filled : (toString columns).toList ++ 'x' :: (toString rows).toList ≠ [] := by simp
      rw [spelling, ofSpelling_append component (isDigit_head?_toString_append columns _), ofCounts,
        if_neg filled, Word.takeWhile_append_of_ends isDigit_of_mem_toString cross,
        Word.dropWhile_append_of_ends isDigit_of_mem_toString cross]
      simp only [Word.value_toString]
  | sampler2D => decide
  | struct name => exact builtIn.elim

/-- A name is free if the type that it may spell is spelled otherwise. -/
theorem text_ne_of_ofSpelling {name : String} (other : (ofSpelling name.toList).text ≠ name)
    (element : ElementTy) (builtIn : element.IsBuiltIn) : element.text ≠ name := by
  rintro rfl
  rw [ofSpelling_text builtIn] at other
  exact other rfl

theorem IsApart.isWord_text {element : ElementTy} (apart : element.IsApart) :
    Word.IsWord element.text.toList := by
  cases apart with
  | builtIn builtIn =>
      refine Word.isWord_name (isName_text ?_)
      cases element with
      | struct name => exact builtIn.elim
      | _ => rfl
  | struct word apart => exact word

/-- Single elements that are told apart by their spellings. -/
theorem IsApart.eq_of_text_eq {first second : ElementTy} (apart : first.IsApart)
    (apart' : second.IsApart) (same : first.text = second.text) : first = second := by
  cases apart with
  | builtIn builtIn =>
      cases apart' with
      | builtIn builtIn' => rw [← ofSpelling_text builtIn, same, ofSpelling_text builtIn']
      | struct word other => exact absurd same (other first builtIn)
  | @struct name word other =>
      cases apart' with
      | builtIn builtIn' => exact absurd same.symm (other second builtIn')
      | @struct name' word' other' =>
          have names : name = name' := same
          rw [names]

end ElementTy

/-! ## Types -/

namespace Ty

/-- Brackets end the word that single elements are spelled as. -/
theorem parts_of_text_eq {first second : Ty} (word : Word.IsWord first.element.text.toList)
    (word' : Word.IsWord second.element.text.toList) (same : first.text = second.text) :
    first.element.text = second.element.text ∧ first.dimensions = second.dimensions := by
  have texts : first.element.text.toList ++ (dimensionsText first.dimensions).toList =
      second.element.text.toList ++ (dimensionsText second.dimensions).toList := by
    rw [← String.toList_append, ← String.toList_append, ← text_eq_append, same, text_eq_append]
  obtain ⟨words, behind⟩ := Word.append_inj_of_ends word.parts word'.parts
    (ends_dimensionsText _) (ends_dimensionsText _) texts
  exact ⟨String.toList_inj.1 words, dimensionsText_inj behind⟩

/--
A type is spelled as its single elements with its dimensions behind them, from the innermost outward.
Where the single elements are told apart by their spellings, two types with one spelling are the same
type, but for the places where they are written.
-/
theorem text_eq_iff_unplaced_eq :
    (∀ ty : Ty, ty.text = ty.element.text ++ String.join (ty.dimensions.map dimensionText)) ∧
      ∀ first second : Ty, first.element.IsApart → second.element.IsApart →
        (first.text = second.text ↔ first.unplaced = second.unplaced) := by
  refine ⟨text_eq_append, fun first second apart apart' => ⟨fun same => ?_, fun same => ?_⟩⟩
  · obtain ⟨elements, dimensions⟩ := parts_of_text_eq apart.isWord_text apart'.isWord_text same
    exact unplaced_eq_iff.2 ⟨apart.eq_of_text_eq apart' elements, dimensions⟩
  · obtain ⟨elements, dimensions⟩ := unplaced_eq_iff.1 same
    rw [text_eq_append, elements, dimensions, ← text_eq_append]

/-- Structures `Light` in an array of arrays, of which one is written somewhere, and `float2x3`. -/
theorem text_eq_iff_unplaced_eq_of_arrays :
    let light (span : Span) : Ty :=
      .array (.array (.single (.struct "Light") span) (some 3) .nowhere) none span
    let matrix : Ty := .single (.matrix .float 2 3) .nowhere
    (light .nowhere).element.IsApart ∧ matrix.element.IsApart ∧
      (light .nowhere).text = "Light" ++ String.join ["[3]", "[]"] ∧
      (light ⟨4, 5⟩).text = (light .nowhere).text ∧ (light .nowhere).text ≠ matrix.text := by
  intro light matrix
  have apart : (light .nowhere).element.IsApart :=
    .struct (Word.isWord_name (by decide)) (ElementTy.text_ne_of_ofSpelling (by decide))
  have apart' : matrix.element.IsApart := .builtIn ⟨by decide, by decide⟩
  obtain ⟨spelled, same⟩ := text_eq_iff_unplaced_eq
  refine ⟨apart, apart', spelled (light .nowhere), (same _ _ apart apart).2 rfl, ?_⟩
  rw [Ne, same _ _ apart apart']
  nofun

end Ty

end ShaderTree
