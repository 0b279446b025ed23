import ShaderTree.Proofs.Document.Covers
import ShaderTree.Proofs.Document.Places

/-!
# Excerpts

An excerpt is what stands between the two ends of a span, so there is one if and only if both ends lie
between characters.  Walking along it leads from the place of the one end to that of the other, and the
excerpts of two spans that touch make up the excerpt of the span that covers both.
-/

namespace ShaderTree

namespace Span

theorem offset_le_stop {span : Span} {stop : UInt32} (ends : span.stop = .ok stop) :
    span.offset ≤ stop := by
  rw [stop_eq_ok_iff] at ends
  rw [UInt32.le_iff_toNat_le]
  omega

/-- Two spans that touch are covered from the start of the first to the end of the second. -/
theorem exists_join {span next : Span} {nextStop : UInt32} (touches : span.stop = .ok next.offset)
    (ends : next.stop = .ok nextStop) :
    ∃ joined, span.join next = .ok joined ∧ joined.offset = span.offset ∧
      joined.stop = .ok nextStop := by
  obtain ⟨joined, found, start, last⟩ :=
    exists_join_of_fits (exists_stop_iff.1 ⟨_, touches⟩) (exists_stop_iff.1 ⟨_, ends⟩)
  rw [stop_eq_ok_iff_last, Span.last] at touches ends
  refine ⟨joined, found, UInt32.toNat_inj.1 ?_, stop_eq_ok_iff_last.2 ?_⟩
  · omega
  · rw [last, Span.last, Span.last]
    omega

end Span

namespace Document

variable {document : Document} {span : Span} {stop : UInt32}

theorem excerpt?_eq (ends : span.stop = .ok stop) :
    document.excerpt? span = .ok (do
      let first ← document.content.pos? ⟨span.offset.toNat⟩
      let last ← document.content.pos? ⟨stop.toNat⟩
      some (document.content.extract first last)) := by
  rw [excerpt?, ends]
  rfl

/-- What stands between the ends of a span is its excerpt. -/
theorem excerpt?_of_parts (ends : span.stop = .ok stop) {before text after : String}
    (parts : document.content = before ++ text ++ after)
    (start : before.utf8ByteSize = span.offset.toNat)
    (last : (before ++ text).utf8ByteSize = stop.toNat) :
    document.excerpt? span = .ok (some text) := by
  obtain ⟨pos, found, splits⟩ := exists_pos? (parts.trans String.append_assoc)
  obtain ⟨pos', found', splits'⟩ := exists_pos? parts
  rw [excerpt?_eq ends, ← start, ← last, found, found']
  simp only [Option.bind_eq_bind, Option.bind_some, extract_of_splits splits splits']

/-- Only ends between characters have an excerpt between them. -/
theorem mem_boundaries_of_excerpt? (ends : span.stop = .ok stop) {text : String}
    (found : document.excerpt? span = .ok (some text)) :
    span.offset.toNat ∈ boundaries document.content ∧
      stop.toNat ∈ boundaries document.content := by
  rw [excerpt?_eq ends, Except.ok.injEq, Option.bind_eq_bind, Option.bind_eq_some_iff] at found
  obtain ⟨pos, start, found⟩ := found
  obtain ⟨pos', last, -⟩ := Option.bind_eq_some_iff.1 found
  exact ⟨isValid_iff.2 ⟨pos, start⟩, isValid_iff.2 ⟨pos', last⟩⟩

/-- Two boundaries cut a text into what is in front of both, between them and behind both. -/
theorem exists_parts {content : String} {offset last : Nat} (valid : offset ∈ boundaries content)
    (valid' : last ∈ boundaries content) (le : offset ≤ last) :
    ∃ before between after, content = before ++ between ++ after ∧
      before.utf8ByteSize = offset ∧ (before ++ between).utf8ByteSize = last := by
  have splits := String.Pos.splits (⟨⟨offset⟩, valid⟩ : content.Pos)
  have splits' := String.Pos.splits (⟨⟨last⟩, valid'⟩ : content.Pos)
  obtain ⟨between, front, -⟩ := (splits.le_iff_exists_eq_append splits').1 le
  rw [front] at splits'
  exact ⟨_, between, _, splits'.eq_append, (byteIdx_of_splits splits).symm,
    (byteIdx_of_splits splits').symm⟩

/-- An excerpt stands between what is in front of the span and what is behind it. -/
theorem excerpt?_eq_some_iff (ends : span.stop = .ok stop) {text : String} :
    document.excerpt? span = .ok (some text) ↔
      ∃ before after, document.content = before ++ text ++ after ∧
        before.utf8ByteSize = span.offset.toNat ∧ (before ++ text).utf8ByteSize = stop.toNat := by
  constructor
  · intro found
    obtain ⟨first, second⟩ := mem_boundaries_of_excerpt? ends found
    obtain ⟨before, between, after, parts, start, last⟩ :=
      exists_parts first second (Span.offset_le_stop ends)
    have same := found.symm.trans (excerpt?_of_parts ends parts start last)
    obtain rfl := Option.some.inj (Except.ok.inj same)
    exact ⟨before, after, parts, start, last⟩
  · rintro ⟨before, after, parts, start, last⟩
    exact excerpt?_of_parts ends parts start last

/-- There is an excerpt if and only if both ends of the span lie between characters. -/
theorem exists_excerpt?_iff (ends : span.stop = .ok stop) :
    (∃ text, document.excerpt? span = .ok (some text)) ↔
      span.offset.toNat ∈ boundaries document.content ∧
        stop.toNat ∈ boundaries document.content := by
  constructor
  · rintro ⟨text, found⟩
    exact mem_boundaries_of_excerpt? ends found
  · rintro ⟨first, second⟩
    obtain ⟨before, between, after, parts, start, last⟩ :=
      exists_parts first second (Span.offset_le_stop ends)
    exact ⟨between, excerpt?_of_parts ends parts start last⟩

/-! ## Excerpts of a text -/

/-- The bytes of an excerpt are those from the start of the span to its end. -/
theorem toByteArray_excerpt? (ends : span.stop = .ok stop) {text : String}
    (found : document.excerpt? span = .ok (some text)) :
    text.toByteArray =
      document.content.toByteArray.extract span.offset.toNat stop.toNat := by
  obtain ⟨before, after, parts, start, last⟩ := (excerpt?_eq_some_iff ends).1 found
  rw [parts, ← start, ← last, toByteArray_between]

/-- Walking along an excerpt leads from the place of its start to the place of its end. -/
theorem along_excerpt? {content text : String} (ends : span.stop = .ok stop)
    (found : (ofString content).excerpt? span = .ok (some text)) :
    ((ofString content).placeOf span.offset.toNat).along text =
      (ofString content).placeOf stop.toNat := by
  obtain ⟨before, after, parts, start, last⟩ := (excerpt?_eq_some_iff ends).1 found
  change content = before ++ text ++ after at parts
  have splits := posOf_splits (parts.trans String.append_assoc)
  rw [← start, ← last, placeOf_of_splits splits, placeOf_of_splits (posOf_splits parts),
    Place.along_append]

/-- The excerpts of two spans that touch make up the excerpt of the span that covers both. -/
theorem excerpt?_join {next : Span} {nextStop : UInt32} {text nextText : String}
    (touches : span.stop = .ok next.offset) (ends : next.stop = .ok nextStop)
    (found : document.excerpt? span = .ok (some text))
    (found' : document.excerpt? next = .ok (some nextText)) :
    ∃ joined, span.join next = .ok joined ∧
      document.excerpt? joined = .ok (some (text ++ nextText)) := by
  obtain ⟨joined, covers, offset, stops⟩ := Span.exists_join touches ends
  obtain ⟨before, after, parts, start, last⟩ := (excerpt?_eq_some_iff touches).1 found
  obtain ⟨before', after', parts', start', last'⟩ := (excerpt?_eq_some_iff ends).1 found'
  -- What is in front of the second span is what is in front of the first one, and its excerpt.
  obtain ⟨pos, -, splits⟩ := exists_pos? parts
  have splits' : pos.Splits before' (nextText ++ after') :=
    splits_of_byteIdx (parts'.trans String.append_assoc)
      (by rw [byteIdx_of_splits splits, last, start'])
  obtain ⟨rfl, -⟩ := splits'.eq splits
  rw [@String.append_assoc before] at parts' last'
  exact ⟨joined, covers, (excerpt?_eq_some_iff stops).2 ⟨before, after', parts', offset ▸ start, last'⟩⟩

/--
A span that stops somewhere has an excerpt if and only if both of its ends lie between characters.  The
excerpt has the bytes from the one end to the other, walking along it leads from the place of the one to
the place of the other, and with the excerpt of a span that starts where this one stops it makes up the
excerpt of the span that covers both.
-/
theorem excerpt?_exact {content : String} (ends : span.stop = .ok stop) :
    ∃ found, (ofString content).excerpt? span = .ok found ∧
      (found.isSome ↔ span.offset.toNat ∈ boundaries content ∧ stop.toNat ∈ boundaries content) ∧
      ∀ text, found = some text →
        text.toByteArray = content.toByteArray.extract span.offset.toNat stop.toNat ∧
        ((ofString content).placeOf span.offset.toNat).along text =
          (ofString content).placeOf stop.toNat ∧
        ∀ next nextStop nextText, next.offset = stop → next.stop = .ok nextStop →
          (ofString content).excerpt? next = .ok (some nextText) →
          ∃ joined, span.join next = .ok joined ∧
            (ofString content).excerpt? joined = .ok (some (text ++ nextText)) := by
  obtain ⟨found, total⟩ : ∃ found, (ofString content).excerpt? span = .ok found :=
    ⟨_, excerpt?_eq ends⟩
  have between := @exists_excerpt?_iff (ofString content) _ _ ends
  simp only [total, Except.ok.injEq] at between
  refine ⟨found, total, Option.isSome_iff_exists.trans between, ?_⟩
  rintro text rfl
  have bytes := toByteArray_excerpt? ends total
  refine ⟨bytes, along_excerpt? ends total, ?_⟩
  rintro next nextStop nextText rfl nextEnds found'
  exact excerpt?_join ends nextEnds total found'

/-- The spans of `é` and of the newline and `x` behind it. -/
theorem excerpt?_exact_of_accent :
    (⟨0, 2⟩ : Span).stop = .ok 2 ∧
      (ofString "é\nx").excerpt? ⟨0, 2⟩ = .ok (some "é") ∧
      ∃ joined, (⟨0, 2⟩ : Span).join ⟨2, 2⟩ = .ok joined ∧
        (ofString "é\nx").excerpt? joined = .ok (some "é\nx") := by
  have ends : (⟨0, 2⟩ : Span).stop = .ok 2 := by decide
  have nextEnds : (⟨2, 2⟩ : Span).stop = .ok 4 := by decide
  have first : (ofString "é\nx").excerpt? ⟨0, 2⟩ = .ok (some "é") :=
    (excerpt?_eq_some_iff ends).2 ⟨"", "\nx", by decide⟩
  have second : (ofString "é\nx").excerpt? ⟨2, 2⟩ = .ok (some "\nx") :=
    (excerpt?_eq_some_iff nextEnds).2 ⟨"é", "", by decide⟩
  obtain ⟨found, total, -, each⟩ := @excerpt?_exact _ _ "é\nx" ends
  obtain rfl := Except.ok.inj (total.symm.trans first)
  obtain ⟨-, -, joins⟩ := each "é" rfl
  exact ⟨ends, first, joins ⟨2, 2⟩ 4 "\nx" rfl nextEnds second⟩

end Document

end ShaderTree
