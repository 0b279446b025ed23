import ShaderTree.Store.Key

/-!
# Keys in the order of their slots

Up to its capacity a key format has one key for each slot, and the keys come in the order of the slots.
There are no further keys: the last slot is stored as the greatest number of the width.  A format that
looks at the slot number first refuses all other slots, but one that cuts the number to the width gives
them the keys of slots that it has cut off before.
-/

namespace ShaderTree

variable {format : KeyFormat}

/-- The slot at the capacity is stored as the greatest number of the width. -/
theorem KeyFormat.capacity_add_offset (format : KeyFormat) :
    format.capacity + format.offset + 1 = format.range := by
  obtain ⟨width, encoding⟩ := format
  cases width <;> cases encoding <;> decide

namespace Key

/-! ## Order -/

/-- Keys compare as their slots do. -/
theorem compare_eq_compare_slot (first second : Key format) :
    compare first second = compare first.slot second.slot := by
  change compare first.raw second.raw = compare first.slot second.slot
  rw [← first.slot_add_offset, ← second.slot_add_offset]
  simp only [Nat.compare_eq_ite_lt, Nat.add_lt_add_iff_right]

theorem lt_iff {first second : Key format} : first < second ↔ first.slot < second.slot := by
  change first.raw < second.raw ↔ first.slot < second.slot
  rw [← first.slot_add_offset, ← second.slot_add_offset]
  exact Nat.add_lt_add_iff_right

/-! ## Slots above the capacity -/

variable {slot : Nat}

theorem ofSlot_of_above (checks : format.encoding ≠ .niche) (above : format.capacity < slot) :
    ofSlot format slot = .error .slotAboveMax := by
  unfold ofSlot
  split
  case h_1 | h_2 => exact if_neg (Nat.not_le.2 above)
  case h_3 cuts => exact absurd cuts checks

/-- A slot and the one that lies as far behind it as the width has numbers are cut to one number. -/
theorem ofSlot_add_range (cuts : format.encoding = .niche)
    (fits : slot + format.range + 1 < Nat.pow 2 64) :
    ofSlot format (slot + format.range) = ofSlot format slot := by
  have fits' : slot + 1 < Nat.pow 2 64 := by omega
  unfold ofSlot
  rw [cuts]
  dsimp only
  rw [if_pos fits, if_pos fits', Nat.add_right_comm, Nat.add_mod_right]

/-- Slots up to the capacity are told apart by their keys, which come in the same order. -/
theorem order_of_ofSlot {other : Nat} {first second : Key format} (fits : slot ≤ format.capacity)
    (fits' : other ≤ format.capacity) (made : ofSlot format slot = .ok first)
    (made' : ofSlot format other = .ok second) :
    (first < second ↔ slot < other) ∧ compare first second = compare slot other ∧
      (first = second ↔ slot = other) := by
  obtain ⟨own, same, rfl⟩ := exists_ofSlot fits
  obtain ⟨own', same', rfl⟩ := exists_ofSlot fits'
  obtain rfl := Except.ok.inj (made.symm.trans same)
  obtain rfl := Except.ok.inj (made'.symm.trans same')
  exact ⟨lt_iff, compare_eq_compare_slot first second, slot_inj.symm⟩

/--
A key format encodes the slots up to its capacity, of which the last one is stored as the greatest
number of the width.  Each of them has a key that names it, their keys are in their order, and there are
no other keys.  Any other slot is refused unless the format cuts it, and then it may get the key of one
that lies in front of it.
-/
theorem ofSlot_embeds_slots (format : KeyFormat) :
    format.capacity + format.offset + 1 = Nat.pow 2 format.width.bits ∧
      (∀ slot ≤ format.capacity, ∃ key, ofSlot format slot = .ok key ∧ key.slot = slot) ∧
      (∀ slot other first second, slot ≤ format.capacity → other ≤ format.capacity →
        ofSlot format slot = .ok first → ofSlot format other = .ok second →
          (first < second ↔ slot < other) ∧ compare first second = compare slot other ∧
            (first = second ↔ slot = other)) ∧
      (∀ key : Key format, key.slot ≤ format.capacity ∧ ofSlot format key.slot = .ok key) ∧
      (format.encoding ≠ .niche → ∀ slot, format.capacity < slot →
        ofSlot format slot = .error .slotAboveMax) ∧
      (format.encoding = .niche → ∀ slot, slot + format.range + 1 < Nat.pow 2 64 →
        ofSlot format (slot + format.range) = ofSlot format slot) :=
  ⟨format.capacity_add_offset, fun _ => exists_ofSlot, fun _ _ _ _ => order_of_ofSlot,
    fun key => ⟨key.slot_le_capacity, ofSlot_slot key⟩, fun checks _ => ofSlot_of_above checks,
    fun cuts _ => ofSlot_add_range cuts⟩

/-- Of one byte, slot 254 has the last key; slot 256 is refused or has the key of the first slot. -/
theorem ofSlot_embeds_slots_of_bytes :
    let checked : KeyFormat := ⟨.w8, .nonZero⟩
    let cut : KeyFormat := ⟨.w8, .niche⟩
    checked.capacity = 254 ∧ (∃ key, ofSlot checked 254 = .ok key ∧ key.slot = 254) ∧
      ofSlot checked 256 = .error .slotAboveMax ∧
      cut.capacity = 254 ∧ (∃ key, ofSlot cut 254 = .ok key ∧ key.slot = 254) ∧
      ofSlot cut 256 = ofSlot cut 0 := by
  intro checked cut
  obtain ⟨-, keys, -, -, refuses, -⟩ := ofSlot_embeds_slots checked
  obtain ⟨-, keys', -, -, -, repeats⟩ := ofSlot_embeds_slots cut
  exact ⟨rfl, keys 254 (by decide), refuses (by decide) 256 (by decide), rfl,
    keys' 254 (by decide), repeats rfl 0 (by decide)⟩

end Key

end ShaderTree
