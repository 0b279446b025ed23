import Mathlib.Data.List.Induction
import ShaderTree.Proofs.Document.Positions

/-!
# Lines

A newline is one byte, and no other character has that byte among its own.  So the table of a document
can be read off the bytes of its text, and the newlines of a part of the text can be counted in its
bytes.  The search of the table finds the line of a position as one more than the newlines in front of
it, and the entry of that line is the offset just past the last of them.
-/

namespace ShaderTree

namespace Document

variable {front back : String} {offset : Nat}

/-! ## Bytes -/

/-- The byte of a newline. -/
def newline : UInt8 := 10

/-- The bytes of a text, in order. -/
def bytes (text : String) : List UInt8 :=
  text.toByteArray.data.toList

theorem length_bytes (text : String) : (bytes text).length = text.utf8ByteSize := by
  rw [bytes, Array.length_toList, ← String.size_toByteArray]
  rfl

theorem bytes_append (front back : String) : bytes (front ++ back) = bytes front ++ bytes back := by
  simp only [bytes, String.toByteArray_append, ByteArray.data_append, Array.toList_append]

theorem bytes_singleton (char : Char) :
    bytes (String.singleton char) = String.utf8EncodeChar char := by
  rw [bytes, String.toByteArray_singleton, List.utf8Encode_singleton, List.data_toByteArray]

/-- The bytes of the front of a text are its first bytes. -/
theorem take_bytes (front back : String) :
    (bytes (front ++ back)).take front.utf8ByteSize = bytes front := by
  rw [bytes_append, ← length_bytes, List.take_left]

theorem newline_mem_utf8EncodeChar {char : Char} :
    newline ∈ String.utf8EncodeChar char ↔ char = '\n' := by
  have same : char = '\n' ↔ char.val.toNat = 10 := by
    rw [← Char.toNat_inj]
    rfl
  rw [same, newline]
  fun_cases String.utf8EncodeChar char
  all_goals
    simp only [List.mem_cons, List.not_mem_nil, or_false, ← UInt8.toNat_inj, UInt8.toNat_ofNat',
      UInt8.reduceToNat]
  all_goals omega

theorem count_newline_utf8EncodeChar (char : Char) :
    (String.utf8EncodeChar char).count newline = [char].count '\n' := by
  by_cases same : char = '\n'
  · subst same
    rfl
  · rw [List.count_eq_zero_of_not_mem (newline_mem_utf8EncodeChar.not.2 same), List.count_singleton,
      if_neg (by simpa using same)]

/-- The newlines of a text can be counted in its bytes. -/
theorem count_bytes (text : String) : (bytes text).count newline = text.toList.count '\n' := by
  induction text using textInduction with
  | empty => rfl
  | cons char rest ih =>
      rw [bytes_append, bytes_singleton, List.count_append, ih, count_newline_utf8EncodeChar,
        String.toList_append, String.toList_singleton, List.count_append]

/-! ## The table of lines -/

/-- The offsets just past each newline of the bytes, the first of which stands at `offset`. -/
def startsAfterBytes (offset : Nat) (bytes : List UInt8) : List Nat :=
  ((bytes.zipIdx offset).filter fun entry => entry.1 == newline).map fun entry => entry.2 + 1

theorem startsAfterBytes_append (offset : Nat) (front back : List UInt8) :
    startsAfterBytes offset (front ++ back) =
      startsAfterBytes offset front ++ startsAfterBytes (offset + front.length) back := by
  simp only [startsAfterBytes, List.zipIdx_append, List.filter_append, List.map_append]

theorem bounds_of_mem_startsAfterBytes {start : Nat} {bytes : List UInt8}
    (listed : start ∈ startsAfterBytes offset bytes) :
    offset < start ∧ start ≤ offset + bytes.length := by
  obtain ⟨⟨byte, index⟩, kept, rfl⟩ := List.mem_map.1 listed
  obtain ⟨lower, upper, -⟩ := List.mem_zipIdx (List.mem_filter.1 kept).1
  exact ⟨Nat.lt_succ_of_le lower, upper⟩

theorem length_startsAfterBytes (offset : Nat) (bytes : List UInt8) :
    (startsAfterBytes offset bytes).length = bytes.count newline := by
  rw [startsAfterBytes, List.length_map, ← List.countP_eq_length_filter]
  conv_rhs => rw [← List.zipIdx_map_fst offset bytes, List.count, List.countP_map]
  rfl

theorem startsAfterBytes_of_notMem {bytes : List UInt8} (none : newline ∉ bytes) :
    startsAfterBytes offset bytes = [] := by
  rw [← List.length_eq_zero_iff, length_startsAfterBytes, List.count_eq_zero_of_not_mem none]

/-- The table of a document can be read off the bytes of its text. -/
theorem startsAfterNewlines_eq (offset : Nat) (text : String) :
    startsAfterNewlines offset text.toList = startsAfterBytes offset (bytes text) := by
  induction text using textInduction generalizing offset with
  | empty => rfl
  | cons char rest ih =>
      rw [bytes_append, startsAfterBytes_append, bytes_singleton, String.length_utf8EncodeChar, ← ih,
        String.toList_append, String.toList_singleton, List.cons_append, List.nil_append,
        startsAfterNewlines]
      split
      case isTrue same =>
        subst same
        rfl
      case isFalse other =>
        rw [startsAfterBytes_of_notMem (newline_mem_utf8EncodeChar.not.2 other), List.nil_append]

/-- The table of a document is cut by each position into the starts up to it and those behind it. -/
theorem lineStarts_append (front back : String) :
    (ofString (front ++ back)).lineStarts =
      (0 :: startsAfterBytes 0 (bytes front) ++
        startsAfterBytes front.utf8ByteSize (bytes back)).toArray := by
  rw [ofString, startsAfterNewlines_eq, bytes_append, startsAfterBytes_append, length_bytes,
    Nat.zero_add, List.cons_append]

/-- A line starts no later than at the end of the text. -/
theorem le_of_mem_starts {start : Nat} {text : String}
    (listed : start ∈ 0 :: startsAfterBytes 0 (bytes text)) : start ≤ text.utf8ByteSize := by
  rcases List.mem_cons.1 listed with rfl | later
  · exact Nat.zero_le _
  · have bound := (bounds_of_mem_startsAfterBytes later).2
    rwa [length_bytes, Nat.zero_add] at bound

theorem le_of_mem_lineStarts {content : String} {start : Nat}
    (listed : start ∈ (ofString content).lineStarts) : start ≤ content.utf8ByteSize := by
  rw [ofString, startsAfterNewlines_eq, List.mem_toArray] at listed
  exact le_of_mem_starts listed

/-! ## The search -/

/-- A table whose entries exceed a bound from one place on is searched for that place. -/
theorem countAtMost_eq {table : Array Nat} {bound low high : Nat} {below above : List Nat}
    (parts : table = (below ++ above).toArray)
    (lower : ∀ entry ∈ below, entry ≤ bound) (upper : ∀ entry ∈ above, bound < entry)
    (first : low ≤ below.length) (last : below.length ≤ high) (fits : high ≤ table.size) :
    countAtMost table bound low high = below.length := by
  have size : table.size = below.length + above.length := by
    rw [parts, List.size_toArray, List.length_append]
  fun_induction countAtMost table bound low high with
  | case1 low high less middle entry found within ih =>
      -- An entry up to the bound is none of those that exceed it.
      refine ih ?_ last fits
      by_contra beyond
      rw [parts, List.getElem?_toArray, List.getElem?_append_right (by omega)] at found
      exact Nat.not_lt.2 within (upper entry (List.mem_of_getElem? found))
  | case2 low high less middle entry found beyond ih =>
      -- An entry that exceeds the bound is none of those up to it.
      refine ih first ?_ (by omega)
      by_contra within
      rw [parts, List.getElem?_toArray, List.getElem?_append_left (by omega)] at found
      exact beyond (lower entry (List.mem_of_getElem? found))
  | case3 low high less middle missing ih =>
      rw [Array.getElem?_eq_none_iff] at missing
      omega
  | case4 low high done =>
      omega

/-- The line of a position is one more than the newlines in front of it. -/
theorem lineOf_append (front back : String) :
    (ofString (front ++ back)).lineOf front.utf8ByteSize = (bytes front).count newline + 1 := by
  have table := lineStarts_append front back
  rw [lineOf, countAtMost_eq table ?_ ?_ (Nat.zero_le _) ?_ (Nat.le_refl _), List.length_cons,
    length_startsAfterBytes]
  · intro entry listed
    exact le_of_mem_starts listed
  · intro entry listed
    exact (bounds_of_mem_startsAfterBytes listed).1
  · rw [table, List.size_toArray, List.length_append]
    exact Nat.le_add_right ..

/-! ## The start of a line -/

/-- A text that is empty or ends with a newline, so that a line starts behind it. -/
def StopsAtLineStart (text : String) : Prop :=
  text = "" ∨ ∃ before, text = before ++ "\n"

/-- Every text consists of a part that stops where a line starts and of a part without newlines. -/
theorem exists_lastLine (text : String) :
    ∃ whole line, text = whole ++ line ∧ StopsAtLineStart whole ∧ '\n' ∉ line.toList := by
  obtain ⟨chars, rfl⟩ := text.exists_eq_ofList
  induction chars using List.reverseRecOn with
  | nil => exact ⟨"", "", rfl, .inl rfl, List.not_mem_nil⟩
  | append_singleton chars char ih =>
      obtain ⟨whole, line, parts, stops, none⟩ := ih
      rw [String.ofList_append, ← String.singleton_eq_ofList]
      by_cases same : char = '\n'
      · subst same
        exact ⟨_, "", (String.append_empty).symm, .inr ⟨_, rfl⟩, List.not_mem_nil⟩
      · refine ⟨whole, line ++ String.singleton char, ?_, stops, ?_⟩
        · rw [parts, String.append_assoc]
        · rw [String.toList_append, String.toList_singleton, List.mem_append, List.mem_singleton]
          rintro (earlier | rfl)
          · exact none earlier
          · exact same rfl

/-- In front of every position stand whole lines and a part of the line that the position is on. -/
theorem exists_splits {content : String} (pos : content.Pos) :
    ∃ whole line back,
      pos.Splits (whole ++ line) back ∧ StopsAtLineStart whole ∧ '\n' ∉ line.toList := by
  obtain ⟨whole, line, parts, stops, none⟩ := exists_lastLine (content.sliceTo pos).copy
  exact ⟨whole, line, _, parts ▸ pos.splits, stops, none⟩

theorem bytes_newline : bytes "\n" = [newline] := by
  decide

theorem startsAfterBytes_newline (offset : Nat) : startsAfterBytes offset [newline] = [offset + 1] :=
  rfl

/-- The last start in a text that stops where a line starts is the end of the text. -/
theorem starts_getElem?_count {whole : String} (stops : StopsAtLineStart whole) :
    (0 :: startsAfterBytes 0 (bytes whole))[(bytes whole).count newline]? =
      some whole.utf8ByteSize := by
  rcases stops with rfl | ⟨before, rfl⟩
  · rfl
  · rw [bytes_append, bytes_newline, List.count_append, List.count_singleton_self,
      List.getElem?_cons_succ, startsAfterBytes_append, ← length_startsAfterBytes 0,
      startsAfterBytes_newline, List.getElem?_concat_length, length_bytes, Nat.zero_add,
      String.utf8ByteSize_append]
    rfl

/-- The line of a position starts where the text in front of it last does. -/
theorem lineStarts_getElem?_count {whole line : String} (stops : StopsAtLineStart whole)
    (none : '\n' ∉ line.toList) (back : String) :
    (ofString (whole ++ line ++ back)).lineStarts[(bytes (whole ++ line)).count newline]? =
      some whole.utf8ByteSize := by
  have bare : (bytes line).count newline = 0 := by
    rw [count_bytes, List.count_eq_zero_of_not_mem none]
  rw [bytes_append, List.count_append, bare, Nat.add_zero, String.append_assoc, lineStarts_append,
    List.getElem?_toArray, List.getElem?_append_left, starts_getElem?_count stops]
  rw [List.length_cons, length_startsAfterBytes]
  exact Nat.lt_succ_self _

end Document

end ShaderTree
