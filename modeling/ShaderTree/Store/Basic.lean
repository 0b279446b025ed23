import ShaderTree.Store.Key

/-!
# Stores

A store is a sequence of slots that only grows.  A value is put into the next slot and keeps its key
for good, so any number of nodes may hold one key and all of them see the value as it was last
written.  Reading or writing through a key of a slot that is not there changes nothing, and neither does
putting a value into a store that has no key left for it.
-/

namespace ShaderTree

/-- Append-only storage whose slots are named by keys of one format. -/
structure Store (format : KeyFormat) (α : Type) where
  slots : Array α
deriving Repr

namespace Store

variable {format : KeyFormat} {α β : Type}

/-- The store without slots. -/
def empty : Store format α := ⟨#[]⟩

instance : EmptyCollection (Store format α) := ⟨empty⟩

instance : Inhabited (Store format α) := ⟨empty⟩

/-- The number of slots. -/
def size (store : Store format α) : Nat :=
  store.slots.size

/-- Whether there is no slot. -/
def isEmpty (store : Store format α) : Bool :=
  store.slots.isEmpty

/-- The value of the slot that a key names, if there is such a slot. -/
def get? (store : Store format α) (key : Key format) : Option α :=
  store.slots[key.slot]?

/-- The fault of using a key whose slot is not there. -/
def outOfBounds (store : Store format α) (key : Key format) : Fault :=
  .outOfBounds store.size key.slot

/-- The value of the slot that a key names, which has to be there. -/
def fetch (store : Store format α) (key : Key format) : Except Fault α :=
  match store.get? key with
  | some value => .ok value
  | none => .error (store.outOfBounds key)

/-- The keys of all slots, oldest first. -/
def keys (store : Store format α) : Except Fault (List (Key format)) :=
  (List.range store.size).mapM (Key.ofSlot format)

/-- The keys and values of all slots, oldest first. -/
def entries (store : Store format α) : Except Fault (List (Key format × α)) := do
  return (← store.keys).zip store.slots.toList

/-! ## Operations -/

/-- Work on a store, which a fault may end.  What was done to the store before the fault stays done. -/
abbrev Operation (format : KeyFormat) (α : Type) :=
  ExceptT Fault (StateM (Store format α))

/-- What an operation answers or the fault that it ends in, and the store that it leaves behind. -/
def perform (store : Store format α) (operation : Operation format α β) :
    Except Fault β × Store format α :=
  (operation.run.run store).run

/-- Performs an operation within work that a fault ends as a whole, which leaves nothing to look at. -/
def complete (store : Store format α) (operation : Operation format α β) :
    Except Fault (β × Store format α) :=
  match store.perform operation with
  | (.ok answer, left) => .ok (answer, left)
  | (.error fault, _) => .error fault

/-- Puts a value into the next slot and names the slot, unless the format has no key left for it. -/
def insert? (value : α) : Operation format α (Option (Key format)) := do
  let store ← get
  if format.capacity ≤ store.size then
    return none
  else
    let key ← Key.ofSlot format store.size
    set (⟨store.slots.push value⟩ : Store format α)
    return some key

/-- Puts a value into the next slot and names the slot. -/
def insert (value : α) : Operation format α (Key format) := do
  match ← insert? value with
  | some key => return key
  | none => throw .storeFull

/-- Puts a copy of the value that a key names into the next slot. -/
def duplicate (key : Key format) : Operation format α (Key format) := do
  let store ← get
  insert (← store.fetch key)

/-- Rewrites the value of the slot that a key names, and tells whether there is such a slot. -/
def modify? (key : Key format) (change : α → α) : Operation format α Bool := do
  let store ← get
  if key.slot < store.size then
    set (⟨store.slots.modify key.slot change⟩ : Store format α)
    return true
  else
    return false

/-- Rewrites the value of the slot that a key names, which has to be there. -/
def modify (key : Key format) (change : α → α) : Operation format α Unit := do
  if ← modify? key change then
    return ()
  else
    let store ← get
    throw (store.outOfBounds key)

/-! ## What each operation does to the slots -/

/-- A key names a slot of a store if and only if its slot number is below the size. -/
theorem get?_isSome_iff (store : Store format α) (key : Key format) :
    (store.get? key).isSome ↔ key.slot < store.size := by
  simp [get?, size]

/-- A key whose slot is there names a value. -/
theorem exists_get?_of_lt {store : Store format α} {key : Key format}
    (found : key.slot < store.size) : ∃ value, store.get? key = some value :=
  Option.isSome_iff_exists.1 ((get?_isSome_iff store key).2 found)

/-- Fetching answers what a look-up finds. -/
theorem fetch_eq_ok_iff {store : Store format α} {key : Key format} {value : α} :
    store.fetch key = .ok value ↔ store.get? key = some value := by
  unfold fetch
  cases store.get? key <;> simp

/-- An operation goes on where the one before it came to its end, and else stops where that stopped. -/
theorem perform_bind {γ : Type} (store : Store format α) (first : Operation format α β)
    (next : β → Operation format α γ) :
    store.perform (first >>= next) =
      match store.perform first with
      | (.ok answer, left) => left.perform (next answer)
      | (.error fault, left) => (.error fault, left) := by
  rw [perform, ExceptT.run_bind, StateT.run_bind]
  rcases ran : store.perform first with ⟨outcome, left⟩
  have same : first.run.run store = (outcome, left) := ran
  rw [same]
  cases outcome <;> rfl

theorem complete_eq_ok_iff {store left : Store format α} {operation : Operation format α β}
    {answer : β} :
    store.complete operation = .ok (answer, left) ↔
      store.perform operation = (.ok answer, left) := by
  rw [complete]
  rcases store.perform operation with ⟨outcome, other⟩
  cases outcome <;> simp

/-- A store without room is left as it was. -/
theorem perform_insert?_of_full {store : Store format α} (full : format.capacity ≤ store.size)
    (value : α) : store.perform (insert? value) = (.ok none, store) := by
  change store.perform (ite ..) = _
  rw [if_pos full]
  rfl

/-- A store with room takes a value into the slot behind its last one. -/
theorem perform_insert?_of_room {store : Store format α} (room : store.size < format.capacity)
    (value : α) :
    ∃ key, key.slot = store.size ∧
      store.perform (insert? value) = (.ok (some key), ⟨store.slots.push value⟩) := by
  obtain ⟨key, made, slot⟩ := Key.exists_ofSlot (Nat.le_of_lt room)
  refine ⟨key, slot, ?_⟩
  change store.perform (ite ..) = _
  rw [if_neg (Nat.not_le.2 room), made]
  rfl

theorem perform_insert_of_full {store : Store format α} (full : format.capacity ≤ store.size)
    (value : α) : store.perform (insert value) = (.error .storeFull, store) := by
  rw [insert, perform_bind, perform_insert?_of_full full]
  rfl

theorem perform_insert_of_room {store : Store format α} (room : store.size < format.capacity)
    (value : α) :
    ∃ key, key.slot = store.size ∧
      store.perform (insert value) = (.ok key, ⟨store.slots.push value⟩) := by
  obtain ⟨key, slot, inserted⟩ := perform_insert?_of_room room value
  refine ⟨key, slot, ?_⟩
  rw [insert, perform_bind, inserted]
  rfl

/-- A copy is put in as the value itself would be. -/
theorem perform_duplicate {store : Store format α} {key : Key format} {value : α}
    (found : store.get? key = some value) :
    store.perform (duplicate key) = store.perform (insert value) := by
  change store.perform (liftM (store.fetch key) >>= insert) = _
  rw [fetch_eq_ok_iff.2 found]
  rfl

/-- A key whose slot is not there cannot be copied from, and the store is left as it was. -/
theorem perform_duplicate_of_outside {store : Store format α} {key : Key format}
    (missing : store.get? key = none) :
    store.perform (duplicate key) = (.error (store.outOfBounds key), store) := by
  change store.perform (liftM (store.fetch key) >>= insert) = _
  rw [fetch, missing]
  rfl

theorem perform_modify? (store : Store format α) (key : Key format) (change : α → α) :
    store.perform (modify? key change) =
      if key.slot < store.size then
        (.ok true, ⟨store.slots.modify key.slot change⟩)
      else
        (.ok false, store) := by
  change store.perform (ite ..) = _
  split <;> rfl

/-- A key whose slot is there rewrites the value of that slot, and else the store is left as it was. -/
theorem perform_modify (store : Store format α) (key : Key format) (change : α → α) :
    store.perform (modify key change) =
      if key.slot < store.size then
        (.ok (), ⟨store.slots.modify key.slot change⟩)
      else
        (.error (store.outOfBounds key), store) := by
  rw [modify, perform_bind, perform_modify?]
  by_cases found : key.slot < store.size
  · rw [if_pos found, if_pos found]
    rfl
  · rw [if_neg found, if_neg found]
    rfl

/-- A value is put into the slot behind the last one. -/
theorem perform_insert_eq_ok_iff {store next : Store format α} {value : α} {key : Key format} :
    store.perform (insert value) = (.ok key, next) ↔
      store.size < format.capacity ∧ key.slot = store.size ∧
        next.slots = store.slots.push value := by
  by_cases room : store.size < format.capacity
  · obtain ⟨own, slot, inserted⟩ := perform_insert_of_room room value
    have fresh : own = key ↔ key.slot = store.size := by
      rw [← slot, Key.slot_inj, eq_comm]
    have grown : (⟨store.slots.push value⟩ : Store format α) = next ↔
        next.slots = store.slots.push value := by
      cases next
      simp [eq_comm]
    rw [inserted, Prod.mk.injEq, Except.ok.injEq, fresh, grown, and_iff_right room]
  · rw [perform_insert_of_full (Nat.not_lt.1 room)]
    simp [room]

/-- A store with room takes a value, for which there is a key. -/
theorem exists_insert {store : Store format α} (room : store.size < format.capacity) (value : α) :
    ∃ key next, store.perform (insert value) = (.ok key, next) ∧ key.slot = store.size ∧
      next.size = store.size + 1 := by
  obtain ⟨key, slot, inserted⟩ := perform_insert_of_room room value
  exact ⟨key, _, inserted, slot, Array.size_push _⟩

/-- A key reads the value put in if it is the new key, and else what it read before. -/
theorem get?_of_insert {store next : Store format α} {value : α} {key : Key format}
    (inserted : store.perform (insert value) = (.ok key, next)) (other : Key format) :
    next.get? other = if other = key then some value else store.get? other := by
  obtain ⟨_, slot, slots⟩ := perform_insert_eq_ok_iff.1 inserted
  have same : other = key ↔ other.slot = store.slots.size := by
    rw [← Key.slot_inj, slot, size]
  simp only [get?, slots, Array.getElem?_push, same]

/-- A key reads the rewritten value if it is the key written through, and else what it read before. -/
theorem get?_of_modify {store next : Store format α} {key : Key format} {change : α → α}
    (modified : store.perform (modify key change) = (.ok (), next)) (other : Key format) :
    next.get? other = if other = key then (store.get? key).map change else store.get? other := by
  rw [perform_modify] at modified
  split at modified
  case isTrue =>
    obtain ⟨-, rfl⟩ := Prod.mk.inj modified
    have same : key.slot = other.slot ↔ other = key := by
      rw [Key.slot_inj, eq_comm]
    simp only [get?, Array.getElem?_modify, same]
    split
    case isTrue equal => rw [equal]
    case isFalse => rfl
  case isFalse => cases modified

/-- The slots of a store, shown by their number and by the texts of their values. -/
def text (store : Store format α) (valueText : α → String) : String :=
  "Arena \x7b len: " ++ toString store.size ++ ", data: [" ++
    ", ".intercalate (store.slots.toList.map valueText) ++ "] \x7d"

end Store

end ShaderTree
