import Mathlib.Order.Bounds.Basic
import ShaderTree.Document

/-!
# Positions

A position of a text lies between two of its characters, before the first one or behind the last one.  It
splits the text into what stands before it and what stands behind it, and its byte offset is the size of
the former.  Every offset of a document stands for the last position at or before it, so all offsets
within a character stand for the start of the character, and all offsets past the end for the end.
-/

namespace ShaderTree

/-- Induction on the characters of a text. -/
@[elab_as_elim]
theorem textInduction {motive : String → Prop} (empty : motive "")
    (cons : ∀ char rest, motive rest → motive (String.singleton char ++ rest)) (text : String) :
    motive text := by
  obtain ⟨chars, rfl⟩ := text.exists_eq_ofList
  induction chars with
  | nil => exact empty
  | cons char rest ih =>
      rw [String.ofList_cons]
      exact cons char _ ih

namespace Document

variable {content front back : String}

/-! ## Look-ups -/

theorem pos?_eq_some_iff {offset : String.Pos.Raw} {pos : content.Pos} :
    content.pos? offset = some pos ↔ pos.offset = offset := by
  unfold String.pos? String.Slice.pos?
  split
  case isTrue valid =>
    rw [Option.map_some, Option.some.injEq, String.Pos.ext_iff]
    exact eq_comm
  case isFalse invalid =>
    refine iff_of_false nofun ?_
    rintro rfl
    refine invalid (String.Pos.Raw.isValidForSlice_eq_true_iff.2 ?_)
    exact String.Pos.Raw.isValidForSlice_toSlice_iff.2 pos.isValid

/-- An offset is that of a position if and only if it is found. -/
theorem isValid_iff {offset : String.Pos.Raw} :
    offset.IsValid content ↔ ∃ pos, content.pos? offset = some pos := by
  constructor
  · intro valid
    exact ⟨⟨offset, valid⟩, pos?_eq_some_iff.2 rfl⟩
  · rintro ⟨pos, found⟩
    exact pos?_eq_some_iff.1 found ▸ pos.isValid

theorem isValid_size (parts : content = front ++ back) :
    (⟨front.utf8ByteSize⟩ : String.Pos.Raw).IsValid content :=
  String.Pos.Raw.isValid_iff_exists_append.2 ⟨front, back, parts, rfl⟩

theorem byteIdx_of_splits {pos : content.Pos} (splits : pos.Splits front back) :
    pos.offset.byteIdx = front.utf8ByteSize := by
  rw [splits.offset_eq_rawEndPos, String.byteIdx_rawEndPos]

theorem splits_of_byteIdx {pos : content.Pos} (parts : content = front ++ back)
    (offset : pos.offset.byteIdx = front.utf8ByteSize) : pos.Splits front back :=
  ⟨parts, String.Pos.Raw.ext (by rw [offset, String.byteIdx_rawEndPos])⟩

/-- Between the parts of a text there is a position. -/
theorem exists_pos? (parts : content = front ++ back) :
    ∃ pos, content.pos? ⟨front.utf8ByteSize⟩ = some pos ∧ pos.Splits front back := by
  obtain ⟨pos, found⟩ := isValid_iff.1 (isValid_size parts)
  refine ⟨pos, found, splits_of_byteIdx parts ?_⟩
  rw [pos?_eq_some_iff.1 found]

/-- The bytes between two positions are those of what stands between them. -/
theorem toByteArray_between (before between after : String) :
    (before ++ between ++ after).toByteArray.extract before.utf8ByteSize
      (before ++ between).utf8ByteSize = between.toByteArray := by
  rw [String.toByteArray_append, ← String.size_toByteArray, ← String.size_toByteArray,
    ByteArray.extract_append_size_left, String.toByteArray_append,
    ByteArray.extract_append_eq_right rfl ByteArray.size_append]

theorem extract_of_splits {before between after : String} {start stop : content.Pos}
    (first : start.Splits before (between ++ after)) (last : stop.Splits (before ++ between) after) :
    content.extract start stop = between := by
  rw [← String.toByteArray_inj, String.toByteArray_extract, byteIdx_of_splits first,
    byteIdx_of_splits last, last.eq_append, toByteArray_between]

/-- A part that does not stop before a character holds the whole character. -/
theorem utf8Size_le_of_append {char : Char} {between after : String}
    (same : String.singleton char ++ back = between ++ after) (filled : between ≠ "") :
    char.utf8Size ≤ between.utf8ByteSize := by
  induction between using textInduction with
  | empty => exact absurd rfl filled
  | cons first others =>
      have chars := congrArg String.toList same
      simp only [String.toList_append, String.toList_singleton, List.cons_append,
        List.nil_append] at chars
      rw [String.utf8ByteSize_append, String.utf8ByteSize_singleton, (List.cons.inj chars).1]
      exact Nat.le_add_right ..

/-! ## The position of an offset -/

/-- The offsets of the positions of a text. -/
def boundaries (content : String) : Set Nat :=
  {boundary | (⟨boundary⟩ : String.Pos.Raw).IsValid content}

/-- The offsets of the positions of a text that are not behind an offset. -/
def boundariesUpTo (content : String) (offset : Nat) : Set Nat :=
  {boundary | boundary ∈ boundaries content ∧ boundary ≤ offset}

theorem isGreatest_posAtOrBefore (content : String) (offset : Nat) :
    IsGreatest (boundariesUpTo content offset)
      (posAtOrBefore content offset).offset.byteIdx := by
  induction offset with
  | zero =>
      refine ⟨⟨content.startPos.isValid, Nat.le_refl _⟩, ?_⟩
      rintro boundary ⟨-, none⟩
      exact none
  | succ offset ih =>
      rw [posAtOrBefore]
      split
      case h_1 pos found =>
        have same : pos.offset.byteIdx = offset + 1 := by rw [pos?_eq_some_iff.1 found]
        refine ⟨⟨pos.isValid, Nat.le_of_eq same⟩, ?_⟩
        rintro boundary ⟨-, before⟩
        rwa [same]
      case h_2 missing =>
        refine ⟨⟨ih.1.1, Nat.le_succ_of_le ih.1.2⟩, ?_⟩
        rintro boundary ⟨valid, before⟩
        rcases Nat.lt_or_eq_of_le before with less | rfl
        · exact ih.2 ⟨valid, Nat.le_of_lt_succ less⟩
        · obtain ⟨pos, found⟩ := isValid_iff.1 valid
          rw [missing] at found
          cases found

variable {document : Document} {offset : Nat}

/-- An offset stands for the last position that is neither behind it nor behind the end. -/
theorem isGreatest_posOf (document : Document) (offset : Nat) :
    IsGreatest (boundariesUpTo document.content (min offset document.byteSize))
      (document.posOf offset).offset.byteIdx :=
  isGreatest_posAtOrBefore document.content (min offset document.byteSize)

theorem byteIdx_posOf_le (document : Document) (offset : Nat) :
    (document.posOf offset).offset.byteIdx ≤ offset :=
  Nat.le_trans (isGreatest_posOf document offset).1.2 (Nat.min_le_left ..)

/-- A position that is not behind an offset is not behind the one that the offset stands for. -/
theorem le_posOf {pos : document.content.Pos} (before : pos.offset.byteIdx ≤ offset) :
    pos ≤ document.posOf offset :=
  (isGreatest_posOf document offset).2 ⟨pos.isValid, Nat.le_min.2 ⟨before, pos.isValid.le_utf8ByteSize⟩⟩

theorem posOf_mono {later : Nat} (le : offset ≤ later) :
    document.posOf offset ≤ document.posOf later :=
  le_posOf (Nat.le_trans (byteIdx_posOf_le document offset) le)

/-- The offset of a position stands for the position. -/
theorem posOf_byteIdx (pos : document.content.Pos) :
    document.posOf pos.offset.byteIdx = pos :=
  Std.le_antisymm (byteIdx_posOf_le document _) (le_posOf (Nat.le_refl _))

/-- The position of a boundary lies at the boundary. -/
theorem byteIdx_posOf (valid : offset ∈ boundaries document.content) :
    (document.posOf offset).offset.byteIdx = offset := by
  rw [posOf_byteIdx ⟨⟨offset⟩, valid⟩]

/-- Offsets past the end stand for the end. -/
theorem posOf_of_size_le (past : document.byteSize ≤ offset) :
    document.posOf offset = document.posOf document.byteSize := by
  rw [posOf, posOf, Nat.min_eq_right past, Nat.min_self]

/-- The offsets within a character stand for its start. -/
theorem posOf_within {char : Char} {pos : document.content.Pos}
    (splits : pos.Splits front (String.singleton char ++ back))
    (lower : front.utf8ByteSize ≤ offset) (upper : offset < front.utf8ByteSize + char.utf8Size) :
    document.posOf offset = pos := by
  have start := byteIdx_of_splits splits
  refine Std.le_antisymm (Std.not_lt.1 fun behind => ?_) (le_posOf (start ▸ lower))
  -- A later position lies behind the whole character.
  obtain ⟨between, filled, before, after⟩ :=
    (splits.lt_iff_exists_eq_append (document.posOf offset).splits).1 behind
  have size : (document.posOf offset).offset.byteIdx =
      front.utf8ByteSize + between.utf8ByteSize := by
    rw [byteIdx_of_splits (document.posOf offset).splits, before, String.utf8ByteSize_append]
  have whole := utf8Size_le_of_append after filled
  have le := byteIdx_posOf_le document offset
  omega

end Document

end ShaderTree
