/-!
# Words

A word is a run of letters, digits and underscores.  Names and the numerals of natural numbers are
words, and so are the two truth values.  In a text each word is followed by something else, so that a
reader knows where it ends; and since no name starts with a digit, the reader also knows which kind of
word it has before it.
-/

namespace ShaderTree

namespace Word

/-- Whether a character is a letter; every character that is not ASCII counts as one. -/
def isLetter (char : Char) : Bool :=
  char.isAlpha || 128 ≤ char.val

/-- Whether a name may start with a character. -/
def isInitial (char : Char) : Bool :=
  isLetter char || char = '_'

/-- Whether a word may hold a character. -/
def isPart (char : Char) : Bool :=
  isInitial char || char.isDigit

/-- The word at the beginning of a text. -/
def first (text : List Char) : List Char :=
  text.takeWhile isPart

/-- What stands behind the word at the beginning of a text. -/
def behind (text : List Char) : List Char :=
  text.dropWhile isPart

/-- No word goes on at the beginning of a text. -/
def Ends (text : List Char) : Prop :=
  ∀ char ∈ text.head?, isPart char = false

/-- Whether a word is the numeral of a natural number. -/
def isNumeral (word : List Char) : Bool :=
  word.all Char.isDigit

/-- The number of which a word is the numeral. -/
def value (word : List Char) : Nat :=
  Nat.ofDigitChars 10 word 0

/-- Whether a text can name something: a word that starts with no digit and is no truth value. -/
def isName (name : String) : Bool :=
  name.toList.head?.any isInitial && name.toList.all isPart && name ≠ "true" && name ≠ "false"

/-! ## Characters -/

theorem isPart_of_isDigit {char : Char} (digit : char.isDigit = true) : isPart char = true := by
  rw [isPart, digit, Bool.or_true]

theorem ne_of_isPart {char other : Char} (part : isPart char = true)
    (otherwise : isPart other = false) : char ≠ other := by
  rintro rfl
  rw [part] at otherwise
  cases otherwise

theorem le_toNat_of_isAlpha {char : Char} (alpha : char.isAlpha = true) :
    65 ≤ char.val.toNat := by
  have either : (char.isUpper || char.isLower) = true := alpha
  rw [Bool.or_eq_true] at either
  rcases either with upper | lower
  · have bounds : 'A'.val ≤ char.val ∧ char.val ≤ 'Z'.val := of_decide_eq_true upper
    exact UInt32.le_iff_toNat_le.1 bounds.1
  · have bounds : (decide ('a'.val ≤ char.val) && decide (char.val ≤ 'z'.val)) = true := lower
    rw [Bool.and_eq_true] at bounds
    have least : 97 ≤ char.val.toNat := UInt32.le_iff_toNat_le.1 (of_decide_eq_true bounds.1)
    omega

/-- Digits lie before all letters and the underscore. -/
theorem isDigit_of_isInitial {char : Char} (initial : isInitial char = true) :
    char.isDigit = false := by
  rw [Bool.eq_false_iff]
  intro digit
  have digits : char.val.toNat ≤ 57 := (Char.isDigit_iff_toNat.1 digit).2
  simp only [isInitial, isLetter, Bool.or_eq_true, decide_eq_true_eq,
    UInt32.le_iff_toNat_le] at initial
  rcases initial with (alpha | other) | same
  · have letters : 65 ≤ char.val.toNat := le_toNat_of_isAlpha alpha
    omega
  · have beyond : 128 ≤ char.val.toNat := other
    omega
  · have underscore : char.val.toNat = 95 := congrArg (fun char => char.val.toNat) same
    omega

/-! ## Cutting texts -/

section Cutting

variable {keeps : Char → Bool} {front rest : List Char}

/-- What is taken off a text ends where the first character stands that is not to be taken. -/
theorem takeWhile_append_of_ends (all : ∀ char ∈ front, keeps char = true)
    (ends : ∀ char ∈ rest.head?, keeps char = false) : (front ++ rest).takeWhile keeps = front := by
  rw [List.takeWhile_append_of_pos all]
  cases rest with
  | nil => exact List.append_nil _
  | cons char rest =>
      rw [List.takeWhile_cons_of_neg (Bool.eq_false_iff.1 (ends char rfl)), List.append_nil]

theorem dropWhile_append_of_ends (all : ∀ char ∈ front, keeps char = true)
    (ends : ∀ char ∈ rest.head?, keeps char = false) : (front ++ rest).dropWhile keeps = rest := by
  rw [List.dropWhile_append_of_pos all]
  cases rest with
  | nil => rfl
  | cons char rest => exact List.dropWhile_cons_of_neg (Bool.eq_false_iff.1 (ends char rfl))

/-- Where a text is cut is a matter of the text. -/
theorem append_inj_of_ends {front' rest' : List Char} (all : ∀ char ∈ front, keeps char = true)
    (all' : ∀ char ∈ front', keeps char = true) (ends : ∀ char ∈ rest.head?, keeps char = false)
    (ends' : ∀ char ∈ rest'.head?, keeps char = false) (same : front ++ rest = front' ++ rest') :
    front = front' ∧ rest = rest' := by
  have taken := takeWhile_append_of_ends all ends
  have dropped := dropWhile_append_of_ends all ends
  rw [same, takeWhile_append_of_ends all' ends'] at taken
  rw [same, dropWhile_append_of_ends all' ends'] at dropped
  exact ⟨taken.symm, dropped.symm⟩

end Cutting

/-! ## Words -/

/-- A text is a word if it holds something, and nothing but characters of words. -/
structure IsWord (text : List Char) : Prop where
  filled : text ≠ []
  parts : ∀ char ∈ text, isPart char = true

/-- A word starts with a character of words. -/
theorem IsWord.exists_cons {text : List Char} (word : IsWord text) :
    ∃ char rest, text = char :: rest ∧ isPart char = true := by
  obtain ⟨char, rest, rfl⟩ := List.exists_cons_of_ne_nil word.filled
  exact ⟨char, rest, rfl, word.parts char List.mem_cons_self⟩

theorem ends_nil : Ends [] := by
  rintro _ ⟨⟩

theorem ends_cons {char : Char} (rest : List Char) (other : isPart char = false) :
    Ends (char :: rest) := by
  rintro _ ⟨⟩
  exact other

section Reading

variable {word rest : List Char}

theorem first_append (isWord : IsWord word) (ends : Ends rest) : first (word ++ rest) = word :=
  takeWhile_append_of_ends isWord.parts ends

theorem behind_append (isWord : IsWord word) (ends : Ends rest) : behind (word ++ rest) = rest :=
  dropWhile_append_of_ends isWord.parts ends

end Reading

theorem isWord_truthValue (value : Bool) : IsWord (toString value).toList := by
  cases value with
  | false => exact ⟨List.cons_ne_nil 'f' ['a', 'l', 's', 'e'], List.all_eq_true.1 rfl⟩
  | true => exact ⟨List.cons_ne_nil 't' ['r', 'u', 'e'], List.all_eq_true.1 rfl⟩

/-! ## Names -/

section Name

variable {name : String}

theorem isName_iff :
    isName name = true ↔
      (∃ char rest, name.toList = char :: rest ∧ isInitial char = true) ∧
        (∀ char ∈ name.toList, isPart char = true) ∧ name ≠ "true" ∧ name ≠ "false" := by
  simp only [isName, Bool.and_eq_true, List.all_eq_true, decide_eq_true_eq, and_assoc]
  refine and_congr_left fun _ => ?_
  cases name.toList with
  | nil => simp
  | cons char rest => simp

theorem isWord_name (named : isName name = true) : IsWord name.toList := by
  obtain ⟨⟨char, rest, holds, -⟩, parts, -⟩ := isName_iff.1 named
  constructor
  · rw [holds]
    exact List.cons_ne_nil char rest
  · exact parts

/-- A name is no numeral. -/
theorem isNumeral_name (named : isName name = true) : isNumeral name.toList = false := by
  obtain ⟨⟨char, rest, holds, initial⟩, -⟩ := isName_iff.1 named
  rw [holds, isNumeral, List.all_cons, isDigit_of_isInitial initial, Bool.false_and]

/-- A name stays a name with more of a word behind it, unless a truth value starts with it. -/
theorem isName_append {rest : String} (named : isName name = true)
    (parts : ∀ char ∈ rest.toList, isPart char = true)
    (notTrue : ¬ name.toList <+: "true".toList) (notFalse : ¬ name.toList <+: "false".toList) :
    isName (name ++ rest) = true := by
  have ne {other : String} (absent : ¬ name.toList <+: other.toList) : name ++ rest ≠ other := by
    intro same
    rw [← same, String.toList_append] at absent
    exact absent (List.prefix_append ..)
  obtain ⟨⟨char, others, holds, initial⟩, own, -⟩ := isName_iff.1 named
  refine isName_iff.2 ⟨⟨char, others ++ rest.toList, ?_, initial⟩, ?_, ne notTrue, ne notFalse⟩
  · rw [String.toList_append, holds, List.cons_append]
  · rw [String.toList_append, List.forall_mem_append]
    exact ⟨own, parts⟩

end Name

/-! ## Numerals -/

theorem isNumeral_toString (number : Nat) : isNumeral (toString number).toList = true := by
  rw [Nat.toString_eq_repr, Nat.toList_repr, isNumeral, List.all_eq_true]
  intro char within
  exact Nat.isDigit_of_mem_toDigits (by decide) (by decide) within

theorem isWord_toString (number : Nat) : IsWord (toString number).toList := by
  constructor
  · rw [Nat.toString_eq_repr, Nat.toList_repr]
    exact Nat.toDigits_ne_nil
  · intro char within
    exact isPart_of_isDigit (List.all_eq_true.1 (isNumeral_toString number) char within)

/-- A number is the value of its numeral. -/
@[simp] theorem value_toString (number : Nat) : value (toString number).toList = number := by
  rw [Nat.toString_eq_repr, Nat.toList_repr, value, Nat.ofDigitChars_ten_toDigits]

end Word

end ShaderTree
