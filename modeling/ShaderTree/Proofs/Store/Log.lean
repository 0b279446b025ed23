import ShaderTree.Store.Basic

/-!
# Logs

A log keeps everything that a store was ever told, newest first, and forgets nothing.  A slot reads as
the newest entry that names it.  This is the plainest account of what a store is to do: a value that is
put in gets the next number, a value that is written over another one hides it, and what is asked for
outside the slots is not there.

Stores and logs carry out the same actions, on their own or in a pool of many that can be copied.  They
differ in how they name a slot: a store by a key of its format, a log by the number itself.
-/

namespace ShaderTree

/-! ## Logs -/

/-- One thing that a store was told. -/
inductive Entry (α : Type) where
  /-- A value was put into the next slot. -/
  | stored (value : α)
  /-- A value was written over that of a slot. -/
  | wrote (slot : Nat) (value : α)

/-- Everything that a store was told, newest first. -/
abbrev Log (α : Type) := List (Entry α)

namespace Log

variable {α : Type}

/-- The number of values put in. -/
def size : Log α → Nat
  | [] => 0
  | .stored _ :: older => size older + 1
  | .wrote _ _ :: older => size older

/-- The value of the newest entry that names a slot. -/
def read? : Log α → Nat → Option α
  | [], _ => none
  | .stored value :: older, slot => if slot = size older then some value else read? older slot
  | .wrote own value :: older, slot => if slot = own then some value else read? older slot

/-- The slots with their values, oldest first. -/
def entries (log : Log α) : List (Nat × α) :=
  (List.range log.size).filterMap fun slot => (log.read? slot).map fun value => (slot, value)

end Log

/-! ## Actions -/

/-- What a store can be asked to do. -/
inductive Action (format : KeyFormat) (α : Type) where
  | insert? (value : α)
  | insert (value : α)
  | duplicate (key : Key format)
  | get? (key : Key format)
  | fetch (key : Key format)
  | modify? (key : Key format) (change : α → α)
  | modify (key : Key format) (change : α → α)
  | size
  | keys
  | entries

/-- What a store answers, where slots are named by values of the type `ι`. -/
inductive Answer (ι α : Type) where
  /-- A value was put into the named slot. -/
  | key (name : ι)
  /-- There is no room, or no such slot. -/
  | nothing
  | value (found : α)
  | written
  | size (count : Nat)
  | keys (names : List ι)
  | entries (pairs : List (ι × α))
  /-- The pool has a new store of the given number. -/
  | store (number : Nat)
  /-- The pool has no store of the number asked for. -/
  | absent
  | fault (cause : Fault)

/-- The answer with other names for slots. -/
def Answer.map {ι κ α : Type} (rename : ι → κ) : Answer ι α → Answer κ α
  | .key name => .key (rename name)
  | .nothing => .nothing
  | .value found => .value found
  | .written => .written
  | .size count => .size count
  | .keys names => .keys (names.map rename)
  | .entries pairs => .entries (pairs.map fun (name, found) => (rename name, found))
  | .store number => .store number
  | .absent => .absent
  | .fault cause => .fault cause

/-- The answer after an operation, where a fault is an answer too. -/
def Answer.after {ι α β : Type} (answer : β → Answer ι α) : Except Fault β → Answer ι α
  | .ok done => answer done
  | .error cause => .fault cause

namespace Store

variable {format : KeyFormat} {α β : Type}

/-- What a store answers after an operation, and the store that the operation leaves behind. -/
def answer (store : Store format α) (answer : β → Answer (Key format) α)
    (operation : Operation format α β) : Answer (Key format) α × Store format α :=
  let (outcome, left) := store.perform operation
  (.after answer outcome, left)

/-- What a store answers to an action, and what becomes of it. -/
def act (store : Store format α) : Action format α → Answer (Key format) α × Store format α
  | .insert? value => store.answer (·.elim .nothing .key) (insert? value)
  | .insert value => store.answer .key (insert value)
  | .duplicate key => store.answer .key (duplicate key)
  | .get? key => ((store.get? key).elim .nothing .value, store)
  | .fetch key => (.after .value (store.fetch key), store)
  | .modify? key change =>
      store.answer (fun found => if found then .written else .nothing) (modify? key change)
  | .modify key change => store.answer (fun _ => .written) (modify key change)
  | .size => (.size store.size, store)
  | .keys => (.after .keys store.keys, store)
  | .entries => (.after .entries store.entries, store)

end Store

namespace Log

variable {format : KeyFormat} {α : Type}

/-- Puts a value into the next slot, or gives the answer of a full store. -/
def put (format : KeyFormat) (full : Answer Nat α) (log : Log α) (value : α) :
    Answer Nat α × Log α :=
  if log.size < format.capacity then (.key log.size, .stored value :: log) else (full, log)

/-- What a log answers to an action, and what becomes of it. -/
def act (log : Log α) : Action format α → Answer Nat α × Log α
  | .insert? value => log.put format .nothing value
  | .insert value => log.put format (.fault .storeFull) value
  | .duplicate key =>
      match log.read? key.slot with
      | some value => log.put format (.fault .storeFull) value
      | none => (.fault (.outOfBounds log.size key.slot), log)
  | .get? key =>
      match log.read? key.slot with
      | some value => (.value value, log)
      | none => (.nothing, log)
  | .fetch key =>
      match log.read? key.slot with
      | some value => (.value value, log)
      | none => (.fault (.outOfBounds log.size key.slot), log)
  | .modify? key change =>
      match log.read? key.slot with
      | some value => (.written, .wrote key.slot (change value) :: log)
      | none => (.nothing, log)
  | .modify key change =>
      match log.read? key.slot with
      | some value => (.written, .wrote key.slot (change value) :: log)
      | none => (.fault (.outOfBounds log.size key.slot), log)
  | .size => (.size log.size, log)
  | .keys => (.keys (List.range log.size), log)
  | .entries => (.entries log.entries, log)

end Log

/-! ## Pools -/

/-- What a pool of stores can be asked to do. -/
inductive Command (format : KeyFormat) (α : Type) where
  /-- A store without slots joins the pool. -/
  | new
  /-- A copy of a store joins the pool. -/
  | clone (number : Nat)
  /-- A store of the pool is asked to do something. -/
  | act (number : Nat) (action : Action format α)

/-- A kind of stores, whose states are values of the type `σ`. -/
structure Machine (format : KeyFormat) (α ι σ : Type) where
  fresh : σ
  act : σ → Action format α → Answer ι α × σ

/-- The machine of stores. -/
def Machine.stores (format : KeyFormat) (α : Type) :
    Machine format α (Key format) (Store format α) :=
  ⟨.empty, Store.act⟩

/-- The machine of logs. -/
def Machine.logs (format : KeyFormat) (α : Type) : Machine format α Nat (Log α) :=
  ⟨[], Log.act⟩

namespace Machine

variable {format : KeyFormat} {α ι σ : Type} (machine : Machine format α ι σ)

/-- What a pool answers to a command, and what becomes of it. -/
def step (pool : List σ) : Command format α → Answer ι α × List σ
  | .new => (.store pool.length, pool ++ [machine.fresh])
  | .clone number =>
      match pool[number]? with
      | some state => (.store pool.length, pool ++ [state])
      | none => (.absent, pool)
  | .act number action =>
      match pool[number]? with
      | some state =>
          let (answer, next) := machine.act state action
          (answer, pool.set number next)
      | none => (.absent, pool)

/-- What a pool answers to commands, one after the other, and what becomes of it. -/
def run (pool : List σ) : List (Command format α) → List (Answer ι α) × List σ
  | [] => ([], pool)
  | first :: rest =>
      let (answer, next) := machine.step pool first
      let (answers, last) := run next rest
      (answer :: answers, last)

end Machine

end ShaderTree
