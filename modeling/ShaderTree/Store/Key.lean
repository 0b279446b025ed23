import ShaderTree.Fault

/-!
# Keys

A key is the number by which a tree names a slot of a store.  A key format says how wide that number
is and how a slot is encoded in it.  Formats that keep zero free store the slot number plus one, so
that zero can stand for the absence of a key; of these, one kind checks the slot number first and the
other one cuts it to the width of the key and looks at what is left.
-/

namespace ShaderTree

/-- The width of a key, in bits. -/
inductive Width where
  | w8
  | w16
  | w32
  | w64
deriving DecidableEq, Repr

/-- The number of bits. -/
def Width.bits : Width → Nat
  | .w8 => 8
  | .w16 => 16
  | .w32 => 32
  | .w64 => 64

/-- How a slot number is encoded in a key. -/
inductive Encoding where
  /-- The key is the slot number. -/
  | plain
  /-- The key is the slot number plus one, and a slot number without room is refused. -/
  | nonZero
  /-- The key is the slot number plus one, cut to the width of the key. -/
  | niche
deriving DecidableEq, Repr

/-- The width and the encoding of a kind of key. -/
structure KeyFormat where
  width : Width
  encoding : Encoding
deriving DecidableEq, Repr

namespace KeyFormat

/-- The number of different numbers of the width. -/
def range (format : KeyFormat) : Nat :=
  Nat.pow 2 format.width.bits

/-- The number of slots that a store with such keys may have. -/
def capacity (format : KeyFormat) : Nat :=
  match format.encoding with
  | .plain => format.range - 1
  | .nonZero | .niche => format.range - 2

/-- The distance from a slot number to the number stored for it. -/
def offset (format : KeyFormat) : Nat :=
  match format.encoding with
  | .plain => 0
  | .nonZero | .niche => 1

end KeyFormat

/-- A key: a number of the format's width, which is not zero where the format keeps zero free. -/
structure Key (format : KeyFormat) where
  raw : Nat
  raw_lt : raw < format.range
  offset_le : format.offset ≤ raw
deriving DecidableEq, Repr

namespace Key

variable {format : KeyFormat}

/-- The slot that a key names. -/
def slot (key : Key format) : Nat :=
  key.raw - format.offset

/-- The key that stores the given number, if a key of the format may. -/
def ofRaw? (format : KeyFormat) (raw : Nat) : Option (Key format) :=
  if bounds : raw < format.range ∧ format.offset ≤ raw then
    some ⟨raw, bounds.1, bounds.2⟩
  else
    none

/-- The key stored as the given number, where one that no key may be is an overflow. -/
def ofRaw (format : KeyFormat) (raw : Nat) : Except Fault (Key format) :=
  match ofRaw? format raw with
  | some key => .ok key
  | none => .error .keyOverflow

/--
The key of a slot.  Plain and nonzero keys refuse a slot number above the capacity.  A niche key
does not look: the sum of the slot number and one is checked in 64 bits, and its low bits are kept.
-/
def ofSlot (format : KeyFormat) (slot : Nat) : Except Fault (Key format) :=
  match format.encoding with
  | .plain | .nonZero =>
      if slot ≤ format.capacity then
        ofRaw format (slot + format.offset)
      else
        .error .slotAboveMax
  | .niche =>
      if slot + 1 < Nat.pow 2 64 then
        ofRaw format ((slot + 1) % format.range)
      else
        .error .sumOverflow

/-- The number stored is the slot number moved by the format's offset. -/
theorem slot_add_offset (key : Key format) : key.slot + format.offset = key.raw :=
  Nat.sub_add_cancel key.offset_le

/-- Keys of one slot are one key. -/
theorem slot_inj {first second : Key format} : first.slot = second.slot ↔ first = second := by
  constructor
  · intro same
    have raw : first.raw = second.raw := by
      rw [← first.slot_add_offset, ← second.slot_add_offset, same]
    cases first
    cases second
    simp_all
  · rintro rfl
    rfl

/-- Every key names a slot that a store with such keys may be about to fill, and no later one. -/
theorem slot_le_capacity (key : Key format) : key.slot ≤ format.capacity := by
  have bound := key.raw_lt
  have sum := key.slot_add_offset
  unfold KeyFormat.capacity
  unfold KeyFormat.offset at sum
  split <;> simp_all <;> omega

/-- A slot within the capacity is stored as a number of the width. -/
theorem slot_add_offset_lt_range {slot : Nat} (fits : slot ≤ format.capacity) :
    slot + format.offset < format.range := by
  obtain ⟨width, encoding⟩ := format
  cases width <;> cases encoding <;>
    simp_all [KeyFormat.capacity, KeyFormat.offset, KeyFormat.range, Width.bits] <;> omega

/-- Up to the capacity, every slot has a key. -/
theorem exists_ofSlot {slot : Nat} (fits : slot ≤ format.capacity) :
    ∃ key, ofSlot format slot = .ok key ∧ key.slot = slot := by
  have below := slot_add_offset_lt_range fits
  have raw : ofRaw format (slot + format.offset) =
      .ok ⟨slot + format.offset, below, Nat.le_add_left ..⟩ := by
    simp [ofRaw, ofRaw?, below]
  refine ⟨⟨slot + format.offset, below, Nat.le_add_left ..⟩, ?_, Nat.add_sub_cancel ..⟩
  have word : format.range ≤ Nat.pow 2 64 := by
    obtain ⟨width, encoding⟩ := format
    cases width <;> simp [KeyFormat.range, Width.bits]
  obtain ⟨width, encoding⟩ := format
  cases encoding with
  | plain => exact (if_pos fits).trans raw
  | nonZero => exact (if_pos fits).trans raw
  | niche =>
      have one : slot + 1 < KeyFormat.range ⟨width, .niche⟩ := below
      refine (if_pos (Nat.lt_of_lt_of_le one word)).trans ?_
      rw [Nat.mod_eq_of_lt one]
      exact raw

/-- A key is the key of its slot. -/
theorem ofSlot_slot (key : Key format) : ofSlot format key.slot = .ok key := by
  obtain ⟨other, found, same⟩ := exists_ofSlot key.slot_le_capacity
  rw [found, slot_inj.1 same]

/-- Keys compare as the numbers stored. -/
instance : Ord (Key format) where
  compare first second := compare first.raw second.raw

instance : LT (Key format) where
  lt first second := first.raw < second.raw

/-- The number stored, inside the name of its kind of key where the kind has one. -/
def text (key : Key format) : String :=
  match format.encoding with
  | .plain | .nonZero => toString key.raw
  | .niche => "Niche" ++ toString format.width.bits ++ "(" ++ toString key.raw ++ ")"

/-- The key as a handle to a value of the named type. -/
def handleText (key : Key format) (valueType : String) : String :=
  "Idx::<" ++ valueType ++ ">(" ++ toString key.slot ++ ")"

end Key

end ShaderTree
