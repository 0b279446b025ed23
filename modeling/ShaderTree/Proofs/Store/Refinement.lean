import Mathlib.Data.List.Basic
import Mathlib.Data.List.Forall2
import Mathlib.Data.List.Induction
import ShaderTree.Proofs.Store.Encoding
import ShaderTree.Proofs.Store.Log

/-!
# Stores refine logs

A store forgets what was written over, and it names its slots by numbers of a fixed width.  Neither
can be seen from outside: each action gives the answer that the log of the store gives, so a pool of
stores goes through any run as the pool of their logs does.  That a key can be made for every slot up to
the capacity, whichever way the format encodes it, is what keeps an action from ending in a fault of its
own.
-/

namespace ShaderTree

variable {format : KeyFormat} {α : Type}

/-! ## The keys of the first slots -/

namespace Key

/-- The keys of the first slots, as many as there are keys. -/
theorem exists_mapM_ofSlot {count : Nat} (fits : count ≤ format.capacity) :
    ∃ keys : List (Key format),
      (List.range count).mapM (Key.ofSlot format) = .ok keys ∧
        keys.map slot = List.range count := by
  induction count with
  | zero => exact ⟨[], rfl, rfl⟩
  | succ count ih =>
      obtain ⟨keys, made, slots⟩ := ih (by omega)
      obtain ⟨last, madeLast, slot⟩ := exists_ofSlot (show count ≤ format.capacity by omega)
      refine ⟨keys ++ [last], ?_, ?_⟩
      · rw [List.range_succ, List.mapM_append, made]
        simp [madeLast]
        rfl
      · rw [List.map_append, slots, List.range_succ, List.map_singleton, slot]

end Key

/-- A list is read place by place. -/
theorem filterMap_range_getElem? (values : List α) :
    ((List.range values.length).filterMap fun slot =>
        values[slot]?.map fun value => (slot, value)) =
      (List.range values.length).zip values := by
  induction values using List.reverseRecOn with
  | nil => rfl
  | append_singleton values last ih =>
      have older : ((List.range values.length).filterMap fun slot =>
            (values ++ [last])[slot]?.map fun value => (slot, value)) =
          (List.range values.length).filterMap fun slot =>
            values[slot]?.map fun value => (slot, value) := by
        refine List.filterMap_congr fun slot within => ?_
        rw [List.getElem?_append_left (List.mem_range.1 within)]
      rw [List.length_append, List.length_singleton, List.range_succ, List.filterMap_append, older,
        ih, List.zip_append List.length_range]
      simp

/-! ## One store and its log -/

/-- A store reads as a log does, and has no more slots than its format has keys for. -/
structure Store.Refines (store : Store format α) (log : Log α) : Prop where
  size : store.size = log.size
  fits : log.size ≤ format.capacity
  reads : ∀ slot, store.slots[slot]? = log.read? slot

namespace Store.Refines

variable {store : Store format α} {log : Log α}

theorem empty : Refines (.empty : Store format α) [] where
  size := rfl
  fits := Nat.zero_le _
  reads _ := rfl

section Refines

variable (refines : store.Refines log)

include refines

theorem get? (key : Key format) : store.get? key = log.read? key.slot :=
  refines.reads key.slot

/-- A log has something to read in the slots of its store, and nowhere else. -/
theorem isSome_read?_iff (slot : Nat) : (log.read? slot).isSome ↔ slot < log.size := by
  rw [← refines.reads, ← refines.size]
  simp [Store.size]

/-- A value that is put in is read from the next slot. -/
theorem push (room : log.size < format.capacity) (value : α) :
    Refines (⟨store.slots.push value⟩ : Store format α) (.stored value :: log) where
  size := by
    have size := refines.size
    simp_all [Store.size, Log.size]
  fits := room
  reads slot := by
    rw [Log.read?, ← refines.size, ← refines.reads, Array.getElem?_push]
    rfl

/-- A value that is written over another one is read in its place. -/
theorem modify {slot : Nat} {value : α} (found : log.read? slot = some value) (change : α → α) :
    Refines (⟨store.slots.modify slot change⟩ : Store format α)
      (.wrote slot (change value) :: log) where
  size := by
    have size := refines.size
    simp_all [Store.size, Log.size]
  fits := refines.fits
  reads other := by
    rw [Log.read?, Array.getElem?_modify, refines.reads]
    split
    case isTrue same =>
      rw [← same, found, if_pos rfl]
      rfl
    case isFalse apart => rw [if_neg (Ne.symm apart)]

theorem outOfBounds (key : Key format) :
    store.outOfBounds key = .outOfBounds log.size key.slot :=
  congrArg (Fault.outOfBounds · key.slot) refines.size

/-- A log has something to read in the slots of its store. -/
theorem slot_lt {slot : Nat} {value : α} (found : log.read? slot = some value) :
    slot < store.size := by
  rw [refines.size, ← refines.isSome_read?_iff, found]
  rfl

theorem not_slot_lt {slot : Nat} (missing : log.read? slot = none) : ¬ slot < store.size := by
  rw [refines.size, ← refines.isSome_read?_iff, missing]
  exact nofun

end Refines

end Store.Refines

/-! ## Actions -/

/-- An answer that tells of no effect: there is no room or no such slot, or a fault. -/
def Answer.IsRefusal {ι : Type} : Answer ι α → Prop
  | .nothing | .fault _ => True
  | _ => False

/-- An action that is refused, or that ends in a fault, leaves the store as it was. -/
theorem Store.act_of_refused (store : Store format α) (action : Action format α)
    (refused : (store.act action).1.IsRefusal) : (store.act action).2 = store := by
  have inserts (value : α) (refused : (store.answer .key (insert value)).1.IsRefusal) :
      (store.answer .key (insert value)).2 = store := by
    rw [answer] at refused ⊢
    by_cases room : store.size < format.capacity
    · obtain ⟨key, -, inserted⟩ := perform_insert_of_room room value
      rw [inserted] at refused
      exact refused.elim
    · rw [perform_insert_of_full (Nat.not_lt.1 room)]
  cases action with
  | insert? value =>
      rw [act, answer] at refused ⊢
      by_cases room : store.size < format.capacity
      · obtain ⟨key, -, inserted⟩ := perform_insert?_of_room room value
        rw [inserted] at refused
        exact refused.elim
      · rw [perform_insert?_of_full (Nat.not_lt.1 room)]
  | insert value => exact inserts value refused
  | duplicate key =>
      rw [act, answer] at refused ⊢
      cases found : store.get? key with
      | some value =>
          rw [perform_duplicate found] at refused ⊢
          exact inserts value refused
      | none => rw [perform_duplicate_of_outside found]
  | modify? key change =>
      rw [act, answer, perform_modify?] at refused ⊢
      by_cases found : key.slot < store.size
      · rw [if_pos found] at refused
        exact refused.elim
      · rw [if_neg found]
  | modify key change =>
      rw [act, answer, perform_modify] at refused ⊢
      by_cases found : key.slot < store.size
      · rw [if_pos found] at refused
        exact refused.elim
      · rw [if_neg found]
  | _ => rfl

/-- A store has answered as its log has, and has become a store that reads as the log does. -/
structure Agrees (done : Answer (Key format) α × Store format α) (told : Answer Nat α × Log α) :
    Prop where
  answer : done.1.map Key.slot = told.1
  refines : done.2.Refines told.2

namespace Store.Refines

variable {store : Store format α} {log : Log α} (refines : store.Refines log)

include refines

theorem insert? (value : α) :
    Agrees (store.act (.insert? value)) (log.put format .nothing value) := by
  rw [Log.put, ← refines.size, Store.act, Store.answer]
  by_cases room : store.size < format.capacity
  · obtain ⟨key, slot, inserted⟩ := Store.perform_insert?_of_room room value
    rw [inserted, if_pos room]
    exact ⟨congrArg Answer.key slot, refines.push (refines.size ▸ room) value⟩
  · rw [Store.perform_insert?_of_full (Nat.not_lt.1 room), if_neg room]
    exact ⟨rfl, refines⟩

theorem insert (value : α) :
    Agrees (store.answer .key (Store.insert value))
      (log.put format (.fault .storeFull) value) := by
  rw [Log.put, ← refines.size, Store.answer]
  by_cases room : store.size < format.capacity
  · obtain ⟨key, slot, inserted⟩ := Store.perform_insert_of_room room value
    rw [inserted, if_pos room]
    exact ⟨congrArg Answer.key slot, refines.push (refines.size ▸ room) value⟩
  · rw [Store.perform_insert_of_full (Nat.not_lt.1 room), if_neg room]
    exact ⟨rfl, refines⟩

theorem duplicate (key : Key format) :
    Agrees (store.act (.duplicate key)) (log.act (.duplicate key)) := by
  have reads := refines.get? key
  rw [Store.act, Log.act, Store.answer]
  cases found : log.read? key.slot with
  | some value =>
      rw [Store.perform_duplicate (reads.trans found)]
      exact refines.insert value
  | none =>
      rw [Store.perform_duplicate_of_outside (reads.trans found)]
      exact ⟨congrArg Answer.fault (refines.outOfBounds key), refines⟩

theorem look (key : Key format) : Agrees (store.act (.get? key)) (log.act (.get? key)) := by
  rw [Store.act, Log.act, refines.get?]
  cases log.read? key.slot with
  | some value => exact ⟨rfl, refines⟩
  | none => exact ⟨rfl, refines⟩

theorem fetches (key : Key format) : Agrees (store.act (.fetch key)) (log.act (.fetch key)) := by
  rw [Store.act, Log.act, Store.fetch, refines.get?]
  cases log.read? key.slot with
  | some value => exact ⟨rfl, refines⟩
  | none => exact ⟨congrArg Answer.fault (refines.outOfBounds key), refines⟩

theorem modifies? (key : Key format) (change : α → α) :
    Agrees (store.act (.modify? key change)) (log.act (.modify? key change)) := by
  rw [Store.act, Log.act, Store.answer, Store.perform_modify?]
  cases found : log.read? key.slot with
  | some value =>
      rw [if_pos (refines.slot_lt found)]
      exact ⟨rfl, refines.modify found change⟩
  | none =>
      rw [if_neg (refines.not_slot_lt found)]
      exact ⟨rfl, refines⟩

theorem modifies (key : Key format) (change : α → α) :
    Agrees (store.act (.modify key change)) (log.act (.modify key change)) := by
  rw [Store.act, Log.act, Store.answer, Store.perform_modify]
  cases found : log.read? key.slot with
  | some value =>
      rw [if_pos (refines.slot_lt found)]
      exact ⟨rfl, refines.modify found change⟩
  | none =>
      rw [if_neg (refines.not_slot_lt found)]
      exact ⟨congrArg Answer.fault (refines.outOfBounds key), refines⟩

theorem exists_keys :
    ∃ keys, store.keys = .ok keys ∧ keys.map Key.slot = List.range log.size := by
  rw [Store.keys, refines.size]
  exact Key.exists_mapM_ofSlot refines.fits

/-- Keys and values go together as slots and what the log reads in them. -/
theorem exists_entries :
    ∃ pairs, store.entries = .ok pairs ∧
      (pairs.map fun (key, value) => (key.slot, value)) = log.entries := by
  obtain ⟨keys, listed, slots⟩ := refines.exists_keys
  refine ⟨keys.zip store.slots.toList, ?_, ?_⟩
  · rw [Store.entries, listed]
    rfl
  · have reads : log.entries = (List.range log.size).filterMap fun slot =>
        store.slots.toList[slot]?.map fun value => (slot, value) := by
      simp only [Log.entries, ← refines.reads, Array.getElem?_toList]
    have length : store.slots.toList.length = log.size := refines.size
    rw [reads, ← length, filterMap_range_getElem?, length, ← slots, List.zip_map_left]
    rfl

/-- A store does what its log does. -/
theorem act (action : Action format α) : Agrees (store.act action) (log.act action) := by
  cases action with
  | insert? value => exact refines.insert? value
  | insert value => exact refines.insert value
  | duplicate key => exact refines.duplicate key
  | get? key => exact refines.look key
  | fetch key => exact refines.fetches key
  | modify? key change => exact refines.modifies? key change
  | modify key change => exact refines.modifies key change
  | size => exact ⟨congrArg Answer.size refines.size, refines⟩
  | keys =>
      obtain ⟨keys, listed, slots⟩ := refines.exists_keys
      rw [Store.act, listed]
      exact ⟨congrArg Answer.keys slots, refines⟩
  | entries =>
      obtain ⟨pairs, listed, slots⟩ := refines.exists_entries
      rw [Store.act, listed]
      exact ⟨congrArg Answer.entries slots, refines⟩

end Store.Refines

/-! ## Pools -/

/-- Each store of a pool reads as the log of its number. -/
abbrev PoolRefines (pool : List (Store format α)) (logs : List (Log α)) : Prop :=
  List.Forall₂ Store.Refines pool logs

namespace PoolRefines

variable {pool : List (Store format α)} {logs : List (Log α)}

section PoolRefines

variable (refines : PoolRefines pool logs)

include refines

/-- A pool has a store of a number where the logs have one, and it reads as that log does. -/
theorem cases (number : Nat) :
    (∃ store log, pool[number]? = some store ∧ logs[number]? = some log ∧ store.Refines log) ∨
      pool[number]? = none ∧ logs[number]? = none := by
  induction refines generalizing number with
  | nil => exact .inr ⟨rfl, rfl⟩
  | cons reads _ ih =>
      cases number with
      | zero => exact .inl ⟨_, _, rfl, rfl, reads⟩
      | succ number => exact ih number

theorem append {store : Store format α} {log : Log α} (joined : store.Refines log) :
    PoolRefines (pool ++ [store]) (logs ++ [log]) :=
  List.rel_append refines (.cons joined .nil)

theorem set {store : Store format α} {log : Log α} (changed : store.Refines log) (number : Nat) :
    PoolRefines (pool.set number store) (logs.set number log) := by
  induction refines generalizing number with
  | nil => exact .nil
  | cons reads others ih =>
      cases number with
      | zero => exact .cons changed others
      | succ number => exact .cons reads (ih number)

/-- A pool of stores does what the pool of their logs does. -/
theorem step (command : Command format α) :
    ((Machine.stores format α).step pool command).1.map Key.slot =
        ((Machine.logs format α).step logs command).1 ∧
      PoolRefines ((Machine.stores format α).step pool command).2
        ((Machine.logs format α).step logs command).2 := by
  cases command with
  | new => exact ⟨congrArg Answer.store refines.length_eq, refines.append .empty⟩
  | clone number =>
      rw [Machine.step, Machine.step]
      rcases refines.cases number with ⟨store, log, ofPool, ofLogs, reads⟩ | ⟨ofPool, ofLogs⟩
      · rw [ofPool, ofLogs]
        exact ⟨congrArg Answer.store refines.length_eq, refines.append reads⟩
      · rw [ofPool, ofLogs]
        exact ⟨rfl, refines⟩
  | act number action =>
      rw [Machine.step, Machine.step]
      rcases refines.cases number with ⟨store, log, ofPool, ofLogs, reads⟩ | ⟨ofPool, ofLogs⟩
      · obtain ⟨answer, next⟩ := reads.act action
        rw [ofPool, ofLogs]
        exact ⟨answer, refines.set next number⟩
      · rw [ofPool, ofLogs]
        exact ⟨rfl, refines⟩

/-- Whatever a pool of stores is asked to do, it does what the pool of their logs does. -/
theorem run (commands : List (Command format α)) :
    ((Machine.stores format α).run pool commands).1.map (Answer.map Key.slot) =
        ((Machine.logs format α).run logs commands).1 ∧
      PoolRefines ((Machine.stores format α).run pool commands).2
        ((Machine.logs format α).run logs commands).2 := by
  induction commands generalizing pool logs with
  | nil => exact ⟨rfl, refines⟩
  | cons first rest ih =>
      obtain ⟨answer, next⟩ := refines.step first
      obtain ⟨answers, last⟩ := ih next
      refine ⟨?_, last⟩
      rw [Machine.run, Machine.run, List.map_cons, answer, answers]

end PoolRefines

end PoolRefines

/-! ## Names in the order of storing -/

namespace Log

end Log

/-! ## Whole runs -/

end ShaderTree
