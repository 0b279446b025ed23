import ShaderTree.Fault

/-!
# Spans

A span says where in a document a node was written: a byte offset and a byte length, each a word of
32 bits.  Where a span stops is a checked sum, so a span may be stored whose end cannot be named.
-/

namespace ShaderTree

/-- A run of bytes of a document. -/
structure Span where
  offset : UInt32
  length : UInt32
deriving DecidableEq, Repr, Inhabited

namespace Span

/-- The span of nodes that were written nowhere. -/
def nowhere : Span := ⟨0, 0⟩

/-- The offset one past the last byte covered. -/
def stop (span : Span) : Except Fault UInt32 :=
  if span.offset.toNat + span.length.toNat < UInt32.size then
    .ok (span.offset + span.length)
  else
    .error .sumOverflow

/-- A span that stops somewhere stops at the sum of its offset and its length. -/
theorem stop_eq_ok_iff {span : Span} {last : UInt32} :
    span.stop = .ok last ↔ span.offset.toNat + span.length.toNat = last.toNat := by
  have bound := last.toNat_lt
  unfold stop
  split
  case isTrue fits =>
    rw [Except.ok.injEq, ← UInt32.toNat_inj, UInt32.toNat_add, Nat.mod_eq_of_lt fits]
  case isFalse overflows =>
    simp only [reduceCtorEq, false_iff]
    simp only [UInt32.size] at overflows
    omega

/-- The only fault of a span's end is a sum outside the word. -/
theorem stop_eq_error_iff {span : Span} {fault : Fault} :
    span.stop = .error fault ↔
      fault = .sumOverflow ∧ UInt32.size ≤ span.offset.toNat + span.length.toNat := by
  unfold stop
  split
  case isTrue fits =>
    simp only [reduceCtorEq, false_iff]
    omega
  case isFalse overflows =>
    rw [Except.error.injEq, eq_comm]
    constructor
    · intro same
      exact ⟨same, by omega⟩
    · rintro ⟨same, -⟩
      exact same

/-- The smallest span that covers both. -/
def join (first second : Span) : Except Fault Span := do
  let start := min first.offset second.offset
  let stop := max (← first.stop) (← second.stop)
  return ⟨start, stop - start⟩

/-- The smallest span that covers every span of the list, found from left to right. -/
def cover : List Span → Except Fault Span
  | [] => .ok nowhere
  | first :: rest => rest.foldlM join first

end Span

end ShaderTree
