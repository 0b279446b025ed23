import Mathlib.Order.Bounds.Basic
import ShaderTree.Span

/-!
# Covering spans

The join of two spans goes from the first offset to the last end, so spans that are put together two at
a time come to a span from the least offset of all of them to the greatest end.  Nothing else about the
spans matters: not their order, not how often one of them is there, and not which two are put together
first.  The sum of an offset and a length is all that can leave the word, and it does so in a join if
and only if it does in one of the spans.
-/

namespace ShaderTree

namespace Span

/-! ## Ends -/

/-- The offset one past the last byte covered, be it one that the word can hold or not. -/
def last (span : Span) : Nat :=
  span.offset.toNat + span.length.toNat

/-- One span lies within another one if it starts no earlier and ends no later. -/
structure Within (inner outer : Span) : Prop where
  start : outer.offset ≤ inner.offset
  last : inner.last ≤ outer.last

/-- Spans from one offset to one end are one span. -/
theorem eq_of_last_eq {first second : Span} (start : first.offset.toNat = second.offset.toNat)
    (same : first.last = second.last) : first = second := by
  have length : first.length.toNat = second.length.toNat := by
    unfold last at same
    omega
  cases first
  cases second
  exact congrArg₂ Span.mk (UInt32.toNat_inj.1 start) (UInt32.toNat_inj.1 length)

theorem stop_eq_ok_iff_last {span : Span} {stop : UInt32} :
    span.stop = .ok stop ↔ span.last = stop.toNat :=
  stop_eq_ok_iff

/-- Where a span stops can be named if it fits the word. -/
theorem exists_stop_iff {span : Span} :
    (∃ stop, span.stop = .ok stop) ↔ span.last < UInt32.size := by
  simp only [stop_eq_ok_iff_last]
  constructor
  · rintro ⟨stop, same⟩
    exact same ▸ stop.toNat_lt
  · intro fits
    exact ⟨.ofNat span.last, (UInt32.toNat_ofNat_of_lt fits).symm⟩

theorem stop_of_overflow {span : Span} (overflows : UInt32.size ≤ span.last) :
    span.stop = .error .sumOverflow :=
  stop_eq_error_iff.2 ⟨rfl, overflows⟩

/-! ## Joins -/

section Join

variable {first second joined : Span}

/--
The join of two spans that stop somewhere.  The least offset is in front of the greatest end, so that
the length is the true difference of the two.
-/
theorem exists_join_of_fits (fits : first.last < UInt32.size) (fits' : second.last < UInt32.size) :
    ∃ joined, first.join second = .ok joined ∧
      joined.offset.toNat = min first.offset.toNat second.offset.toNat ∧
      joined.last = max first.last second.last := by
  obtain ⟨stop, ends⟩ := exists_stop_iff.2 fits
  obtain ⟨stop', ends'⟩ := exists_stop_iff.2 fits'
  have same := stop_eq_ok_iff_last.1 ends
  have same' := stop_eq_ok_iff_last.1 ends'
  have start := UInt32.toNat_min first.offset second.offset
  have finish := UInt32.toNat_max stop stop'
  -- No span ends in front of its offset, so the difference is not taken the wrong way round.
  have inOrder : min first.offset second.offset ≤ max stop stop' := by
    rw [UInt32.le_iff_toNat_le, start, finish, ← same, ← same']
    unfold last
    omega
  refine ⟨⟨min first.offset second.offset, max stop stop' - min first.offset second.offset⟩,
    ?_, start, ?_⟩
  · rw [join, ends, ends']
    rfl
  · rw [last, UInt32.toNat_sub_of_le _ _ inOrder, same, same', ← finish]
    exact Nat.add_sub_cancel' (UInt32.le_iff_toNat_le.1 inOrder)

/-- A join fails for an end outside the word, and for no other reason. -/
theorem join_eq_error_iff {fault : Fault} :
    first.join second = .error fault ↔
      fault = .sumOverflow ∧ (UInt32.size ≤ first.last ∨ UInt32.size ≤ second.last) := by
  by_cases fits : first.last < UInt32.size
  · by_cases fits' : second.last < UInt32.size
    · obtain ⟨joined, found, -⟩ := exists_join_of_fits fits fits'
      simp [found, Nat.not_le.2 fits, Nat.not_le.2 fits']
    · obtain ⟨stop, ends⟩ := exists_stop_iff.2 fits
      have overflows := Nat.not_lt.1 fits'
      have failed : first.join second = .error .sumOverflow := by
        rw [join, ends, stop_of_overflow overflows]
        rfl
      simp [failed, overflows, eq_comm]
  · have overflows := Nat.not_lt.1 fits
    have failed : first.join second = .error .sumOverflow := by
      rw [join, stop_of_overflow overflows]
      rfl
    simp [failed, overflows, eq_comm]

/-- The join of two spans goes from the first offset to the last end, which fits the word. -/
theorem of_join_eq_ok (found : first.join second = .ok joined) :
    joined.offset.toNat = min first.offset.toNat second.offset.toNat ∧
      joined.last = max first.last second.last ∧ joined.last < UInt32.size := by
  have fits : ¬ (UInt32.size ≤ first.last ∨ UInt32.size ≤ second.last) := by
    intro overflows
    rw [join_eq_error_iff.2 ⟨rfl, overflows⟩] at found
    cases found
  rw [not_or, Nat.not_le, Nat.not_le] at fits
  obtain ⟨own, same, start, finish⟩ := exists_join_of_fits fits.1 fits.2
  obtain rfl := Except.ok.inj (found.symm.trans same)
  exact ⟨start, finish, by omega⟩

end Join

/-! ## The least offset and the greatest end -/

/-- The offsets of spans. -/
def offsets (spans : List Span) : Set Nat :=
  {offset | ∃ span ∈ spans, span.offset.toNat = offset}

/-- The ends of spans. -/
def ends (spans : List Span) : Set Nat :=
  {last | ∃ span ∈ spans, span.last = last}

/-- What a measure comes to on spans of two lists, it comes to on spans of the one or the other. -/
theorem values_append (measure : Span → Nat) (spans others : List Span) :
    {value | ∃ span ∈ spans ++ others, measure span = value} =
      {value | ∃ span ∈ spans, measure span = value} ∪
        {value | ∃ span ∈ others, measure span = value} := by
  ext value
  simp [or_and_right, exists_or]

/-- A span covers spans if it goes from the least of their offsets to the greatest of their ends. -/
structure Covers (joined : Span) (spans : List Span) : Prop where
  start : IsLeast (offsets spans) joined.offset.toNat
  last : IsGreatest (ends spans) joined.last

namespace Covers

variable {joined other : Span} {spans others : List Span}

theorem singleton (span : Span) : span.Covers [span] where
  start := by simp [offsets]
  last := by simp [ends]

/-- What covers spans and what covers others are joined to what covers all of them. -/
theorem append {covering : Span} (first : joined.Covers spans) (second : other.Covers others)
    (found : joined.join other = .ok covering) : covering.Covers (spans ++ others) := by
  obtain ⟨start, last, -⟩ := of_join_eq_ok found
  have allOffsets : offsets (spans ++ others) = offsets spans ∪ offsets others :=
    values_append (fun span => span.offset.toNat) spans others
  have allEnds : ends (spans ++ others) = ends spans ∪ ends others :=
    values_append Span.last spans others
  constructor
  · rw [start, allOffsets]
    exact first.start.union second.start
  · rw [last, allEnds]
    exact first.last.union second.last

/-- Only which spans there are matters to what covers them. -/
theorem congr (covers : joined.Covers spans) (same : ∀ span, span ∈ others ↔ span ∈ spans) :
    joined.Covers others := by
  have offsets : offsets others = offsets spans := by simp only [Span.offsets, same]
  have ends : ends others = ends spans := by simp only [Span.ends, same]
  exact ⟨offsets ▸ covers.start, ends ▸ covers.last⟩

/-- One span covers spans. -/
theorem unique (first : joined.Covers spans) (second : other.Covers spans) : joined = other :=
  eq_of_last_eq (first.start.unique second.start) (first.last.unique second.last)

theorem within (covers : joined.Covers spans) {span : Span} (listed : span ∈ spans) :
    span.Within joined where
  start := UInt32.le_iff_toNat_le.2 (covers.start.2 ⟨span, listed, rfl⟩)
  last := covers.last.2 ⟨span, listed, rfl⟩

/-- What covers spans lies within every span that all of them lie within. -/
theorem within_of_forall (covers : joined.Covers spans) {outer : Span}
    (each : ∀ span ∈ spans, span.Within outer) : joined.Within outer := by
  obtain ⟨earliest, listed, start⟩ := covers.start.1
  obtain ⟨latest, listed', last⟩ := covers.last.1
  constructor
  · rw [← UInt32.toNat_inj.1 start]
    exact (each earliest listed).start
  · rw [← last]
    exact (each latest listed').last

end Covers

end Span

/-! ## Groupings -/

/-- A way to put spans together two at a time. -/
inductive Grouping where
  | one (span : Span)
  | both (left right : Grouping)

namespace Grouping

/-- The spans of a grouping, from left to right. -/
def spans : Grouping → List Span
  | one span => [span]
  | both left right => left.spans ++ right.spans

/-- What the spans of a grouping come to. -/
def joined : Grouping → Except Fault Span
  | one span => .ok span
  | both left right => do (← left.joined).join (← right.joined)

variable {tree other : Grouping} {span : Span} {fault : Fault}

theorem joined_both_eq_ok_iff {left right : Grouping} :
    (both left right).joined = .ok span ↔
      ∃ first second, left.joined = .ok first ∧ right.joined = .ok second ∧
        first.join second = .ok span := by
  rw [joined]
  cases left.joined <;> cases right.joined <;> simp [bind, Except.bind]

/-- What the spans of a grouping come to covers them. -/
theorem covers_of_joined (found : tree.joined = .ok span) : span.Covers tree.spans := by
  induction tree generalizing span with
  | one own =>
      obtain rfl := Except.ok.inj found
      exact .singleton own
  | both left right ihLeft ihRight =>
      obtain ⟨first, second, foundFirst, foundSecond, joins⟩ := joined_both_eq_ok_iff.1 found
      exact (ihLeft foundFirst).append (ihRight foundSecond) joins

theorem joined_both_eq_error_iff {left right : Grouping} :
    (both left right).joined = .error fault ↔
      left.joined = .error fault ∨
        (∃ first, left.joined = .ok first ∧ right.joined = .error fault) ∨
          ∃ first second, left.joined = .ok first ∧ right.joined = .ok second ∧
            first.join second = .error fault := by
  rw [joined]
  cases left.joined <;> cases right.joined <;> simp [bind, Except.bind]

/-- Putting spans together fails for a span whose end is outside the word. -/
theorem overflow_of_joined (failed : tree.joined = .error fault) :
    fault = .sumOverflow ∧ ∃ span ∈ tree.spans, UInt32.size ≤ span.last := by
  induction tree with
  | one own => cases failed
  | both left right ihLeft ihRight =>
      simp only [spans, List.mem_append, or_and_right, exists_or]
      rcases joined_both_eq_error_iff.1 failed with
        failed | ⟨-, -, failed⟩ | ⟨first, second, foundFirst, foundSecond, failed⟩
      · exact (ihLeft failed).imp_right .inl
      · exact (ihRight failed).imp_right .inr
      · obtain ⟨cause, overflows⟩ := Span.join_eq_error_iff.1 failed
        -- The end that does not fit is the end of one of the spans on its side.
        obtain ⟨latest, listed, last⟩ := (covers_of_joined foundFirst).last.1
        obtain ⟨latest', listed', last'⟩ := (covers_of_joined foundSecond).last.1
        rw [← last, ← last'] at overflows
        exact ⟨cause, overflows.imp (⟨latest, listed, ·⟩) (⟨latest', listed', ·⟩)⟩

/-- Of two or more spans, what they come to stops somewhere. -/
theorem last_lt_of_joined (several : 2 ≤ tree.spans.length) (found : tree.joined = .ok span) :
    span.last < UInt32.size := by
  cases tree with
  | one own => exact absurd several (Nat.not_le.2 Nat.one_lt_two)
  | both left right =>
      obtain ⟨first, second, -, -, joins⟩ := joined_both_eq_ok_iff.1 found
      exact (Span.of_join_eq_ok joins).2.2

/-- Two or more spans cannot be put together if and only if one of them ends outside the word. -/
theorem joined_eq_error_iff (several : 2 ≤ tree.spans.length) :
    tree.joined = .error fault ↔
      fault = .sumOverflow ∧ ∃ span ∈ tree.spans, UInt32.size ≤ span.last := by
  refine ⟨overflow_of_joined, ?_⟩
  rintro ⟨rfl, outside, listed, overflows⟩
  cases found : tree.joined with
  | error cause => rw [(overflow_of_joined found).1]
  | ok span =>
      -- What the spans come to stops somewhere, and none of them ends behind it.
      have within := ((covers_of_joined found).within listed).last
      exact absurd (last_lt_of_joined several found) (by omega)

/-- What two or more spans come to depends on nothing but which spans there are. -/
theorem joined_congr (several : 2 ≤ tree.spans.length) (several' : 2 ≤ other.spans.length)
    (same : ∀ span, span ∈ tree.spans ↔ span ∈ other.spans) : tree.joined = other.joined := by
  cases found : other.joined with
  | error fault =>
      rw [joined_eq_error_iff several]
      simp only [same]
      exact (joined_eq_error_iff several').1 found
  | ok span =>
      cases own : tree.joined with
      | error fault =>
          rw [joined_eq_error_iff several] at own
          simp only [same] at own
          rw [(joined_eq_error_iff several').2 own] at found
          cases found
      | ok joined =>
          rw [(covers_of_joined own).unique ((covers_of_joined found).congr same)]

/-! ## Spans from left to right -/

/-- A grouping with further spans put to it one by one. -/
def followedBy (tree : Grouping) : List Span → Grouping
  | [] => tree
  | next :: rest => (both tree (one next)).followedBy rest

theorem spans_followedBy (tree : Grouping) (rest : List Span) :
    (tree.followedBy rest).spans = tree.spans ++ rest := by
  induction rest generalizing tree with
  | nil => exact (List.append_nil _).symm
  | cons next rest ih => rw [followedBy, ih, spans, spans, List.append_assoc, List.singleton_append]

theorem joined_followedBy (tree : Grouping) (rest : List Span) :
    (tree.followedBy rest).joined = tree.joined >>= rest.foldlM Span.join := by
  induction rest generalizing tree with
  | nil => exact (bind_pure tree.joined).symm
  | cons next rest ih =>
      rw [followedBy, ih, joined, joined]
      simp only [List.foldlM_cons, bind_assoc]
      rfl

/-- Spans are covered from left to right by one of the ways to put them together. -/
theorem exists_joined_eq_cover {spans : List Span} (filled : spans ≠ []) :
    ∃ tree : Grouping, tree.spans = spans ∧ tree.joined = Span.cover spans := by
  obtain ⟨first, rest, rfl⟩ := List.exists_cons_of_ne_nil filled
  exact ⟨(one first).followedBy rest, spans_followedBy _ rest, joined_followedBy _ rest⟩

end Grouping

namespace Span

/--
Two or more spans have a cover unless one of them ends outside the word.  It stops somewhere, goes from
the least offset to the greatest end, and lies within every span that all of them lie within.  In every
order and with every grouping, and however often each of them is there, the spans come to the same.
-/
theorem cover_least_in_any_order {spans : List Span} (several : 2 ≤ spans.length) :
    (∀ fault, cover spans = .error fault ↔
        fault = .sumOverflow ∧
          ∃ span ∈ spans, UInt32.size ≤ span.offset.toNat + span.length.toNat) ∧
      (∀ joined, cover spans = .ok joined →
        (∃ stop, joined.stop = .ok stop ∧ IsGreatest (ends spans) stop.toNat) ∧
          IsLeast (offsets spans) joined.offset.toNat ∧
          (∀ span ∈ spans, span.Within joined) ∧
          ∀ outer, (∀ span ∈ spans, span.Within outer) → joined.Within outer) ∧
      (∀ others : List Span, 2 ≤ others.length → (∀ span, span ∈ others ↔ span ∈ spans) →
        cover others = cover spans) ∧
      ∀ tree : Grouping, 2 ≤ tree.spans.length → (∀ span, span ∈ tree.spans ↔ span ∈ spans) →
        tree.joined = cover spans := by
  have filled {spans : List Span} (several : 2 ≤ spans.length) : spans ≠ [] := by
    rintro rfl
    exact absurd several (by decide)
  obtain ⟨tree, rfl, found⟩ := Grouping.exists_joined_eq_cover (filled several)
  rw [← found]
  refine ⟨fun fault => Grouping.joined_eq_error_iff several, fun joined own => ?_,
    fun others more same => ?_, fun other more same => Grouping.joined_congr more several same⟩
  · have covers := Grouping.covers_of_joined own
    obtain ⟨stop, stops⟩ := exists_stop_iff.2 (Grouping.last_lt_of_joined several own)
    refine ⟨⟨stop, stops, ?_⟩, covers.start, fun span => covers.within, fun outer =>
      covers.within_of_forall⟩
    rw [← stop_eq_ok_iff_last.1 stops]
    exact covers.last
  · obtain ⟨other, rfl, foundOther⟩ := Grouping.exists_joined_eq_cover (filled more)
    rw [← foundOther]
    exact Grouping.joined_congr more several same

/--
A span in front of another one and an empty span in between have one cover, whichever two are joined
first; a byte behind the last one that can be named has none with any span.
-/
theorem cover_least_in_any_order_of_nested :
    let front : Span := ⟨4, 5⟩
    let back : Span := ⟨11, 5⟩
    let empty : Span := ⟨8, 0⟩
    let tree : Grouping := .both (.one empty) (.both (.one back) (.both (.one empty) (.one front)))
    2 ≤ [front, back, empty].length ∧ cover [front, back, empty] = .ok ⟨4, 12⟩ ∧
      tree.joined = cover [front, back, empty] ∧
      cover [⟨4294967295, 1⟩, front] = .error .sumOverflow := by
  intro front back empty tree
  have several : 2 ≤ [front, back, empty].length := by decide
  have same : ∀ span, span ∈ tree.spans ↔ span ∈ [front, back, empty] := by
    simp only [tree, Grouping.spans, List.mem_append, List.mem_cons, List.not_mem_nil, or_false]
    tauto
  have anyOrder := (cover_least_in_any_order several).2.2.2 tree (by decide) same
  have outside : ∃ span ∈ [(⟨4294967295, 1⟩ : Span), front],
      UInt32.size ≤ span.offset.toNat + span.length.toNat :=
    ⟨⟨4294967295, 1⟩, List.mem_cons_self, by decide⟩
  exact ⟨several, by decide, anyOrder,
    ((cover_least_in_any_order (by decide)).1 .sumOverflow).2 ⟨rfl, outside⟩⟩

end Span

end ShaderTree
