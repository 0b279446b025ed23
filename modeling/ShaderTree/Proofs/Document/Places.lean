import Mathlib.Data.Prod.Lex
import Mathlib.Order.Monotone.Basic
import ShaderTree.Proofs.Document.Lines

/-!
# Places

Whoever reads a text stands at line one and column one, goes to the start of the next line behind a newline
and one column further behind any other character.  The place that a document gives to an offset is the
one where this walk stands at the last position that the offset is not in front of.  So places grow with
offsets, and no two positions share one.
-/

namespace ShaderTree

namespace Place

/-- The place of the start of a text. -/
def first : Place := ⟨1, 1⟩

/-- The place behind a character. -/
def next (place : Place) (char : Char) : Place :=
  if char = '\n' then ⟨place.line + 1, 1⟩ else ⟨place.line, place.column + 1⟩

/-- The place behind a text. -/
def along (place : Place) (text : String) : Place :=
  text.toList.foldl next place

theorem along_append (place : Place) (front back : String) :
    place.along (front ++ back) = (place.along front).along back := by
  rw [along, String.toList_append, List.foldl_append]
  rfl

theorem along_cons (place : Place) (char : Char) (rest : String) :
    place.along (String.singleton char ++ rest) = (place.next char).along rest := by
  rw [along, String.toList_append, String.toList_singleton]
  rfl

/-! ## Order -/

/-- Places are ordered by their lines, and on one line by their columns. -/
instance : LinearOrder Place :=
  LinearOrder.lift' (fun place => toLex (place.line, place.column)) (by
    rintro ⟨line, column⟩ ⟨line', column'⟩ same
    obtain ⟨rfl, rfl⟩ := Prod.mk.inj (toLex.injective same)
    rfl)

theorem lt_iff {place later : Place} :
    place < later ↔
      place.line < later.line ∨ place.line = later.line ∧ place.column < later.column :=
  Prod.Lex.toLex_lt_toLex

theorem lt_next (place : Place) (char : Char) : place < place.next char := by
  rw [lt_iff, next]
  split
  · exact .inl (Nat.lt_succ_self _)
  · exact .inr ⟨rfl, Nat.lt_succ_self _⟩

theorem le_along (place : Place) (text : String) : place ≤ place.along text := by
  induction text using textInduction generalizing place with
  | empty => exact le_refl _
  | cons char rest ih =>
      rw [along_cons]
      exact (lt_next place char).le.trans (ih _)

theorem lt_along (place : Place) {text : String} (filled : text ≠ "") : place < place.along text := by
  induction text using textInduction with
  | empty => exact absurd rfl filled
  | cons char rest =>
      rw [along_cons]
      exact (lt_next place char).trans_le (le_along _ _)

/-! ## Lines -/

/-- Each newline starts a line. -/
theorem line_along (place : Place) (text : String) :
    (place.along text).line = place.line + text.toList.count '\n' := by
  induction text using textInduction generalizing place with
  | empty => rfl
  | cons char rest ih =>
      rw [along_cons, ih, next, String.toList_append, String.toList_singleton, List.count_append,
        List.count_singleton]
      split
      case isTrue same =>
        rw [if_pos (beq_iff_eq.2 same), Nat.add_assoc]
      case isFalse other =>
        rw [if_neg (by simpa using other), Nat.zero_add]

/-- Only the column changes along a text without newlines. -/
theorem along_of_notMem (place : Place) {text : String} (none : '\n' ∉ text.toList) :
    place.along text = ⟨place.line, place.column + text.length⟩ := by
  induction text using textInduction generalizing place with
  | empty => rfl
  | cons char rest ih =>
      rw [String.toList_append, String.toList_singleton, List.cons_append, List.nil_append,
        List.mem_cons, not_or] at none
      rw [along_cons, next, if_neg (Ne.symm none.1), ih _ none.2, String.length_append,
        String.length_singleton, Nat.add_assoc]

/-- The column behind whole lines is one, and each character behind them adds one. -/
theorem along_lines {whole line : String} (stops : Document.StopsAtLineStart whole)
    (none : '\n' ∉ line.toList) :
    first.along (whole ++ line) =
      ⟨(Document.bytes (whole ++ line)).count Document.newline + 1, line.length + 1⟩ := by
  have column : (first.along whole).column = 1 := by
    rcases stops with rfl | ⟨before, rfl⟩
    · rfl
    · rw [along_append]
      rfl
  rw [along_append, along_of_notMem _ none, column, line_along, Document.count_bytes,
    String.toList_append, List.count_append, List.count_eq_zero_of_not_mem none]
  simp only [first, Nat.add_comm, Nat.zero_add]

end Place

namespace Document

variable {front back : String}

/-! ## The place of a position -/

/-- The offset between two parts of a text stands for the position between them. -/
theorem posOf_splits {content : String} (parts : content = front ++ back) :
    ((ofString content).posOf front.utf8ByteSize).Splits front back := by
  obtain ⟨pos, -, splits⟩ := exists_pos? parts
  have same := @posOf_byteIdx (ofString content) pos
  rw [byteIdx_of_splits splits] at same
  rwa [same]

/-- The place of an offset is where the walk along the text stands at its position. -/
theorem placeOf_of_splits {content : String} {offset : Nat}
    (splits : ((ofString content).posOf offset).Splits front back) :
    (ofString content).placeOf offset = Place.first.along front := by
  obtain ⟨whole, line, rfl, stops, none⟩ := exists_lastLine front
  obtain rfl : content = whole ++ line ++ back := splits.eq_append
  have start := posOf_splits (@String.append_assoc whole line back)
  rw [placeOf, byteIdx_of_splits splits, lineOf_append, startOfLine, Nat.add_sub_cancel,
    Array.getD_eq_getD_getElem?, lineStarts_getElem?_count stops none, Option.getD_some,
    extract_of_splits start splits, Place.along_lines stops none]

theorem placeOf_congr {document : Document} {offset other : Nat}
    (same : document.posOf offset = document.posOf other) :
    document.placeOf offset = document.placeOf other := by
  rw [placeOf, placeOf, same]

/-- A later position has a later place. -/
theorem placeOf_lt {content : String} {offset later : Nat}
    (order : (ofString content).posOf offset < (ofString content).posOf later) :
    (ofString content).placeOf offset < (ofString content).placeOf later := by
  have splits := ((ofString content).posOf offset).splits
  have splits' := ((ofString content).posOf later).splits
  obtain ⟨between, filled, front, -⟩ := (splits.lt_iff_exists_eq_append splits').1 order
  rw [placeOf_of_splits splits, placeOf_of_splits splits', front, Place.along_append]
  exact Place.lt_along _ filled

theorem placeOf_mono (content : String) : Monotone (ofString content).placeOf := by
  intro offset later le
  rcases Std.le_iff_lt_or_eq.1 (@posOf_mono (ofString content) _ _ le) with less | same
  · exact (placeOf_lt less).le
  · exact (placeOf_congr same).le

theorem placeOf_strictMonoOn (content : String) :
    StrictMonoOn (ofString content).placeOf (boundaries content) := by
  intro offset valid later valid' less
  refine placeOf_lt ?_
  rw [String.Pos.lt_iff, String.Pos.Raw.lt_iff, byteIdx_posOf valid, byteIdx_posOf valid']
  exact less

/-! ## Finding a place step by step -/

/--
The place of an offset, if each step of finding it can be carried out: there is a line, its start is in
the table and is a position that the offset's own is not in front of, and both numbers fit a word.
-/
def placeOf? (document : Document) (offset : Nat) : Option Place := do
  let pos := document.posOf offset
  let line := document.lineOf pos.offset.byteIdx
  guard (0 < line)
  let start ← document.lineStarts[line - 1]?
  let lineStart ← document.content.pos? ⟨start⟩
  guard (lineStart ≤ pos)
  let place : Place := ⟨line, (document.content.extract lineStart pos).length + 1⟩
  guard (place.line < UInt32.size ∧ place.column < UInt32.size)
  return place

theorem length_le_utf8ByteSize (text : String) : text.length ≤ text.utf8ByteSize := by
  induction text using textInduction with
  | empty => exact Nat.le_refl _
  | cons char rest ih =>
      rw [String.length_append, String.length_singleton, String.utf8ByteSize_append,
        String.utf8ByteSize_singleton]
      exact Nat.add_le_add char.utf8Size_pos ih

/-- In a text of less than a word's size each step of finding a place can be carried out. -/
theorem placeOf?_eq_some {content : String} (small : content.utf8ByteSize < UInt32.size - 1)
    (offset : Nat) :
    (ofString content).placeOf? offset = some ((ofString content).placeOf offset) := by
  obtain ⟨whole, line, back, splits, stops, none⟩ := exists_splits ((ofString content).posOf offset)
  rw [placeOf_of_splits splits, Place.along_lines stops none]
  obtain rfl : content = whole ++ line ++ back := splits.eq_append
  have parts : (ofString (whole ++ line ++ back)).content = whole ++ (line ++ back) :=
    String.append_assoc
  obtain ⟨lineStart, found, start⟩ := exists_pos? parts
  have before : lineStart ≤ (ofString (whole ++ line ++ back)).posOf offset :=
    (start.le_iff_exists_eq_append splits).2 ⟨line, rfl, rfl⟩
  have lines : (bytes (whole ++ line)).count newline + 1 < UInt32.size := by
    have count := List.count_le_length (a := newline) (l := bytes (whole ++ line))
    rw [length_bytes] at count
    rw [String.utf8ByteSize_append] at small
    omega
  have columns : line.length + 1 < UInt32.size := by
    have count := length_le_utf8ByteSize line
    rw [String.utf8ByteSize_append, String.utf8ByteSize_append] at small
    omega
  simp only [placeOf?, guard, byteIdx_of_splits splits, lineOf_append, Nat.zero_lt_succ,
    Nat.add_sub_cancel, lineStarts_getElem?_count stops none, found, before,
    extract_of_splits start splits, lines, columns, and_self, if_true, Option.pure_def,
    Option.bind_eq_bind, Option.bind_some]

/-! ## The places of all offsets -/

/--
What the place of the position at a boundary is: its line is one more than the newlines among the bytes
in front of the boundary, and its column one more than the characters since the last of them.
-/
structure IsPlaceAt (content : String) (boundary : Nat) (place : Place) : Prop where
  line : place.line = ((bytes content).take boundary).count newline + 1
  column : ∃ whole line back, content = whole ++ line ++ back ∧
    (whole ++ line).utf8ByteSize = boundary ∧ StopsAtLineStart whole ∧ '\n' ∉ line.toList ∧
      place.column = line.length + 1

theorem isPlaceAt_placeOf (content : String) (offset : Nat) :
    IsPlaceAt content ((ofString content).posOf offset).offset.byteIdx
      ((ofString content).placeOf offset) := by
  obtain ⟨whole, line, back, splits, stops, none⟩ := exists_splits ((ofString content).posOf offset)
  obtain rfl : content = whole ++ line ++ back := splits.eq_append
  rw [placeOf_of_splits splits, Place.along_lines stops none, byteIdx_of_splits splits]
  exact ⟨by rw [take_bytes], whole, line, back, rfl, rfl, stops, none, rfl⟩

/--
In a text of less than a word's size the start of every line fits a word, and the place of every offset
can be found.  It is the place of the last boundary that is neither behind the offset nor behind the end.
Places grow with offsets, no two boundaries share one, all offsets within a character have the place of
its start, and all offsets past the end have the place of the end.
-/
theorem placeOf_exact {content : String} (small : content.utf8ByteSize < UInt32.size - 1) :
    (∀ start ∈ (ofString content).lineStarts, start < UInt32.size) ∧
    (∀ offset, ∃ boundary,
      IsGreatest (boundariesUpTo content (min offset content.utf8ByteSize)) boundary ∧
      (ofString content).placeOf? offset = some ((ofString content).placeOf offset) ∧
      IsPlaceAt content boundary ((ofString content).placeOf offset)) ∧
    Monotone (ofString content).placeOf ∧
    Set.InjOn (ofString content).placeOf (boundaries content) ∧
    (∀ front char back offset, content = front ++ String.singleton char ++ back →
      front.utf8ByteSize ≤ offset → offset < front.utf8ByteSize + char.utf8Size →
      (ofString content).placeOf offset = (ofString content).placeOf front.utf8ByteSize) ∧
    (∀ offset, content.utf8ByteSize ≤ offset →
      (ofString content).placeOf offset = (ofString content).placeOf content.utf8ByteSize) := by
  refine ⟨fun start listed => ?_, fun offset => ?_, placeOf_mono content,
    (placeOf_strictMonoOn content).injOn, fun front char back offset parts lower upper => ?_,
    fun offset past => ?_⟩
  · have bound := le_of_mem_lineStarts listed
    omega
  · exact ⟨_, isGreatest_posOf (ofString content) offset, placeOf?_eq_some small offset,
      isPlaceAt_placeOf content offset⟩
  · exact placeOf_congr (posOf_within (posOf_splits (parts.trans String.append_assoc)) lower upper)
  · exact placeOf_congr (posOf_of_size_le past)

/-- An offset within the first character, and one past the end. -/
theorem placeOf_exact_of_accent :
    "é\nx".utf8ByteSize < UInt32.size - 1 ∧
      (ofString "é\nx").placeOf 1 = (ofString "é\nx").placeOf 0 ∧
      (ofString "é\nx").placeOf 9 = (ofString "é\nx").placeOf 4 ∧
      (ofString "é\nx").placeOf? 9 = some ⟨2, 2⟩ := by
  have small : "é\nx".utf8ByteSize < UInt32.size - 1 := by decide
  obtain ⟨-, each, -, -, within, past⟩ := placeOf_exact small
  obtain ⟨-, -, found, -⟩ := each 9
  have last := past 9 (by decide)
  have place : (ofString "é\nx").placeOf 4 = ⟨2, 2⟩ :=
    placeOf_of_splits (posOf_splits (@String.append_empty "é\nx").symm)
  exact ⟨small, within "" 'é' "\nx" 1 (by decide) (by decide) (by decide), last,
    found.trans (congrArg some (last.trans place))⟩

end Document

end ShaderTree
