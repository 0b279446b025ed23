import ShaderTree.Proofs.Sharing.Separation

/-!
# Private rewrites

A declaration is rewritten in its slot, so every statement that holds its handle sees what has become
of it.  Once the holders of the declaration have been separated, one statement of the tree is left that
does: the first holder in the order of a walk.  All other statements of the tree are shown what they
were shown before, however often the slot is rewritten.
-/

namespace ShaderTree

open Unsharing

/-! ## Rewrites of a slot -/

/-- One rewrite of the declaration that a handle names. -/
inductive Rewrite where
  /-- The initializer of the first variable of a name is taken away. -/
  | strip (name : String)
  /-- The declaration is changed in its slot. -/
  | change (effect : Declaration → Declaration)

namespace Rewrite

/-- What a rewrite makes of a declaration. -/
def effect : Rewrite → Declaration → Declaration
  | .strip name => fun declaration => declaration.setValue name none
  | .change effect => effect

/-- Carries out a rewrite of the declaration that a handle names. -/
def apply (target : Handle) (declarations : Declarations) : Rewrite → Except Fault Declarations
  | .strip name => do
      let (_, stripped) ← declarations.stripInitializer target name
      return stripped
  | .change effect => do
      let (_, changed) ← declarations.complete (Store.modify target effect)
      return changed

/-- What several rewrites, one after the other, make of a declaration. -/
def effectOfAll (rewrites : List Rewrite) (declaration : Declaration) : Declaration :=
  rewrites.foldl (fun declaration rewrite => rewrite.effect declaration) declaration

/-- Carries out several rewrites, one after the other. -/
def applyAll (target : Handle) (rewrites : List Rewrite) (declarations : Declarations) :
    Except Fault Declarations :=
  rewrites.foldlM (apply target) declarations

/-- Every rewrite of a declaration that is there writes its effect through the handle. -/
theorem apply_eq_ok {target : Handle} {declarations : Declarations}
    (found : target.slot < declarations.size) (rewrite : Rewrite) :
    rewrite.apply target declarations =
      .ok ⟨declarations.slots.modify target.slot rewrite.effect⟩ := by
  have modified (effect : Declaration → Declaration) :
      declarations.complete (Store.modify target effect) =
        .ok ((), ⟨declarations.slots.modify target.slot effect⟩) := by
    rw [Store.complete, Store.perform_modify, if_pos found]
  cases rewrite with
  | change effect =>
      rw [apply, modified]
      rfl
  | strip name =>
      obtain ⟨declaration, present⟩ := Store.exists_get?_of_lt found
      rw [apply, Declarations.stripInitializer, Store.fetch_eq_ok_iff.2 present]
      change (declarations.complete _ >>= _) >>= _ = _
      rw [modified]
      rfl

/-- A single rewrite is seen through the handle and through no other one. -/
theorem exists_apply {target : Handle} {declarations : Declarations}
    (found : target.slot < declarations.size) (rewrite : Rewrite) :
    ∃ next,
      rewrite.apply target declarations = .ok next ∧
        next.size = declarations.size ∧
        ∀ handle, next.get? handle =
          if handle = target then (declarations.get? target).map rewrite.effect
          else declarations.get? handle := by
  have modified : declarations.perform (Store.modify target rewrite.effect) =
      (.ok (), ⟨declarations.slots.modify target.slot rewrite.effect⟩) := by
    rw [Store.perform_modify, if_pos found]
  exact ⟨_, apply_eq_ok found rewrite, Array.size_modify, Store.get?_of_modify modified⟩

/-- Rewrites succeed, and are seen through the handle and through no other one. -/
theorem exists_applyAll {target : Handle} {declarations : Declarations}
    (found : target.slot < declarations.size) (rewrites : List Rewrite) :
    ∃ rewritten,
      applyAll target rewrites declarations = .ok rewritten ∧
        ∀ handle, rewritten.get? handle =
          if handle = target then (declarations.get? target).map (effectOfAll rewrites)
          else declarations.get? handle := by
  induction rewrites generalizing declarations with
  | nil =>
      refine ⟨declarations, rfl, fun handle => ?_⟩
      split
      case isTrue same =>
        rw [same]
        exact Option.map_id_apply.symm
      case isFalse => rfl
  | cons first rest ih =>
      obtain ⟨next, applied, size, seen⟩ := exists_apply found first
      obtain ⟨rewritten, ran, seenRest⟩ := ih (size ▸ found)
      refine ⟨rewritten, ?_, fun handle => ?_⟩
      · rw [applyAll, List.foldlM_cons, applied]
        exact ran
      · rw [seenRest, seen, seen, if_pos rfl, Option.map_map]
        split
        case isTrue => rfl
        case isFalse => rfl

end Rewrite

namespace Stmt

/-! ## What a holder shows -/

/-- A statement is written as a declaration is, and counts as empty where the declaration does. -/
structure Shows (declarations : Declarations) (stmt : Stmt) (declaration : Declaration) : Prop where
  text : stmt.text declarations.fetch = .ok (declaration.text ++ ";")
  isEmpty : stmt.isEmpty declarations.fetch = .ok declaration.isEmpty

theorem kind_eq_declare_iff {stmt : Stmt} :
    stmt.kind = .declare ↔ ∃ handle, stmt.handle? = some handle := by
  cases stmt with
  | simple form span => cases form <;> simp [kind, Simple.kind, handle?, Simple.handle?]
  | _ => simp [kind, handle?]

/-- A statement that holds a declaration shows the declaration that its handle names. -/
theorem shows_of_get? {declarations : Declarations} {stmt : Stmt} {handle : Handle}
    {declaration : Declaration} (holds : stmt.handle? = some handle)
    (found : declarations.get? handle = some declaration) :
    stmt.Shows declarations declaration := by
  have fetched : declarations.fetch handle = .ok declaration := Store.fetch_eq_ok_iff.2 found
  obtain ⟨span, rfl⟩ : ∃ span, stmt = .simple (.declare handle) span := by
    cases stmt with
    | simple form span => cases form <;> simp_all [handle?, Simple.handle?]
    | _ => cases holds
  constructor
  · rw [Stmt.text, Simple.text, fetched]
    rfl
  · rw [Stmt.isEmpty, Simple.isEmpty, fetched]
    rfl

/-! ## Holders in the order of a walk -/

/-- What stands at a place of a walk is found among what the walk collects behind all before it. -/
theorem getElem?_filterMap_of_getElem? {α β : Type} {f : α → Option β} {values : List α}
    {position : Nat} {value : α} {found : β} (stands : values[position]? = some value)
    (maps : f value = some found) :
    (values.filterMap f)[((values.take position).filterMap f).length]? = some found ∧
      (values.filterMap f).take ((values.take position).filterMap f).length =
        (values.take position).filterMap f := by
  obtain ⟨within, rfl⟩ := List.getElem?_eq_some_iff.1 stands
  have split : values.filterMap f =
      (values.take position).filterMap f ++ found :: (values.drop (position + 1)).filterMap f := by
    conv => lhs; rw [← List.take_append_drop position values]
    rw [List.filterMap_append, List.drop_eq_getElem_cons within, List.filterMap_cons, maps]
  rw [split]
  refine ⟨?_, List.take_left⟩
  rw [List.getElem?_append_right (Nat.le_refl _), Nat.sub_self, List.getElem?_cons_zero]

variable {declarations : Declarations} {target : Handle} {given left : Stmt}

/-- The first holder keeps the target, and a later one is given a slot behind the store. -/
theorem handleAfter_eq_target_iff {met : Nat} (found : target.slot < declarations.size)
    (room : declarations.size + (met - 1) ≤ declarationKeys.capacity) :
    handleAfter declarations target met = target ↔ met = 0 := by
  constructor
  · intro same
    by_contra later
    have slot : (handleAfter declarations target met).slot = _ :=
      slot_handleAfter (Nat.pos_of_ne_zero later) room
    rw [same] at slot
    omega
  · rintro rfl
    rfl

namespace Separated

variable (separates : Separated declarations target given left)

include separates

/-- Unsharing changes no more of a walk than the handles in it. -/
theorem nodes_eq : given.nodes = left.nodes.map (relabeled (origin declarations target)) := by
  rw [← separates.shape, nodes_relabeled]

/-- At each place of the walk, as many holders have been met in the two trees. -/
theorem length_take (position : Nat) :
    ((left.nodes.take position).filterMap handle?).length =
      ((given.nodes.take position).filterMap handle?).length := by
  have sees : handle? ∘ relabeled (origin declarations target) =
      fun stmt => stmt.handle?.map (origin declarations target) :=
    funext fun stmt => handle?_relabeled stmt
  rw [separates.nodes_eq, ← List.map_take, List.filterMap_map, sees, ← List.map_filterMap,
    List.length_map]

/-- At the place of a holder in the walk of the given tree there is one in the walk of what is left. -/
theorem exists_node {position : Nat} {node : Stmt} {handle : Handle}
    (stands : given.nodes[position]? = some node) (holds : node.handle? = some handle) :
    ∃ now held,
      left.nodes[position]? = some now ∧
        now.handle? = some held ∧ origin declarations target held = handle := by
  rw [separates.nodes_eq, List.getElem?_map, Option.map_eq_some_iff] at stands
  obtain ⟨now, standsNow, rfl⟩ := stands
  rw [handle?_relabeled, Option.map_eq_some_iff] at holds
  obtain ⟨held, holdsNow, stems⟩ := holds
  exact ⟨now, held, standsNow, holdsNow, stems⟩

/-- What a holder is left with depends on how many holders of the target have been met before it. -/
theorem eq_handleAfter {position : Nat} {node now : Stmt} {handle held : Handle}
    (stands : given.nodes[position]? = some node) (holds : node.handle? = some handle)
    (standsNow : left.nodes[position]? = some now) (holdsNow : now.handle? = some held) :
    held =
      if handle = target then
        handleAfter declarations target
          (((given.nodes.take position).filterMap handle?).count target)
      else handle := by
  obtain ⟨inGiven, before⟩ := getElem?_filterMap_of_getElem? stands holds
  obtain ⟨inLeft, -⟩ := getElem?_filterMap_of_getElem? standsNow holdsNow
  have now := separates.getElem?_handles ((given.nodes.take position).filterMap handle?).length
  rw [handles, handles, ← separates.length_take, inLeft, separates.length_take, inGiven, before,
    Option.map_some, Option.some_inj] at now
  exact now

/--
Each holder of the tree that was given is at its place of the walk of what is left, and only the first
holder of the target still has it.
-/
theorem exists_getElem?_nodes (found : target.slot < declarations.size)
    (room : declarations.size + (given.holders target - 1) ≤ declarationKeys.capacity)
    {position : Nat} {node : Stmt} {handle : Handle}
    (stands : given.nodes[position]? = some node) (holds : node.handle? = some handle) :
    ∃ now held,
      left.nodes[position]? = some now ∧
        now.handle? = some held ∧
        origin declarations target held = handle ∧
        (held = target ↔
          node.handle? = some target ∧
            some target ∉ (given.nodes.take position).map handle?) := by
  obtain ⟨now, held, standsNow, holdsNow, stems⟩ := separates.exists_node stands holds
  refine ⟨now, held, standsNow, holdsNow, stems, ?_⟩
  have earlier : target ∈ (given.nodes.take position).filterMap handle? ↔
      some target ∈ (given.nodes.take position).map handle? := by
    rw [List.mem_filterMap, List.mem_map]
  rw [separates.eq_handleAfter stands holds standsNow holdsNow, holds, Option.some_inj, ← earlier]
  by_cases own : handle = target
  · obtain ⟨inGiven, before⟩ := getElem?_filterMap_of_getElem? stands holds
    have less := count_take_lt (own ▸ inGiven)
    rw [before] at less
    rw [holders_eq_count, handles] at room
    rw [if_pos own, handleAfter_eq_target_iff found (by omega), List.count_eq_zero]
    exact (and_iff_right own).symm
  · rw [if_neg own]
    exact iff_of_false own fun both => own both.1

end Separated

/-! ## The rewritten declaration -/

/--
A rewrite of an unshared declaration is private to its first holder: after unsharing, on a tree in
range and with room for the copies, any rewrites of the target succeed.  What they make of it is shown
by every statement that holds the target, and in the tree by the first of its former holders; each
other statement of the tree that declares variables shows what it showed before.
-/
theorem unshare_makes_rewrites_private {declarations : Declarations} {body : Stmt} {target : Handle}
    (inRange : body.InRange declarations) (found : target.slot < declarations.size)
    (room : declarations.size + (body.holders target - 1) ≤ declarationKeys.capacity) :
    ∃ left state declaration,
      body.unshare declarations target = .ok (left, state) ∧
        declarations.fetch target = .ok declaration ∧
        left.nodes.length = body.nodes.length ∧
        ∀ rewrites : List Rewrite,
          ∃ rewritten,
            Rewrite.applyAll target rewrites state.declarations = .ok rewritten ∧
              (∀ outside : Stmt, outside.handle? = some target →
                outside.Shows rewritten (Rewrite.effectOfAll rewrites declaration)) ∧
              ∀ position node, body.nodes[position]? = some node → node.kind = .declare →
                ∃ now,
                  left.nodes[position]? = some now ∧
                    if node.handle? = some target ∧
                        some target ∉ (body.nodes.take position).map handle? then
                      now.Shows rewritten (Rewrite.effectOfAll rewrites declaration)
                    else
                      ∃ shown, node.Shows declarations shown ∧ now.Shows rewritten shown := by
  obtain ⟨left, ran, separates⟩ := inRange.unshare_eq_ok found room
  obtain ⟨declaration, present⟩ :=
    Option.isSome_iff_exists.1 ((Store.get?_isSome_iff declarations target).2 found)
  refine ⟨left, _, declaration, ran, Store.fetch_eq_ok_iff.2 present, ?_, fun rewrites => ?_⟩
  · rw [← separates.shape, nodes_relabeled, List.length_map]
  rw [declarations_after]
  have grown : target.slot < (body.copiesFor declarations target).size := by
    rw [copiesFor, Declarations.size_withCopies]
    omega
  obtain ⟨rewritten, applied, seen⟩ := Rewrite.exists_applyAll grown rewrites
  have observed : ∀ outside : Stmt, outside.handle? = some target →
      outside.Shows rewritten (Rewrite.effectOfAll rewrites declaration) := by
    intro outside holds
    apply shows_of_get? holds
    rw [seen, if_pos rfl, copiesFor, Declarations.get?_withCopies_of_lt found, present]
    rfl
  refine ⟨rewritten, applied, observed, ?_⟩
  intro position node stands declares
  obtain ⟨handle, holds⟩ := kind_eq_declare_iff.1 declares
  obtain ⟨now, held, standsNow, holdsNow, stems, same⟩ :=
    separates.exists_getElem?_nodes found room stands holds
  refine ⟨now, standsNow, ?_⟩
  split
  case isTrue first => exact observed now (holdsNow.trans (congrArg some (same.2 first)))
  case isFalse later =>
    have inTree : handle ∈ body.handles :=
      List.mem_filterMap.2 ⟨node, List.mem_of_getElem? stands, holds⟩
    have inLeft : held ∈ left.handles :=
      List.mem_filterMap.2 ⟨now, List.mem_of_getElem? standsNow, holdsNow⟩
    have before : declarations.get? handle = some (declarations.view handle) :=
      Store.fetch_eq_ok_iff.1 (inRange.answered handle inTree)
    have after : (body.copiesFor declarations target).get? held =
        some (declarations.view (origin declarations target held)) :=
      Store.fetch_eq_ok_iff.1 (separates.answered found inRange room held inLeft)
    refine ⟨declarations.view handle, shows_of_get? holds before, shows_of_get? holdsNow ?_⟩
    rw [seen, if_neg fun own => later (same.1 own), after, stems]

/--
In `{ int x = 0; { int x = 0; int y; int x = 0; } }` with one declaration of `x`, the outer statement alone
loses the initializer, and so does a statement outside that holds the declaration.
-/
theorem unshare_makes_rewrites_private_of_block :
    let declarations : Declarations := .ofList
      [.ofDeclarators [.sized "y" []], .ofDeclarators [.set "x" (.literal (.int 0) .nowhere)]]
    let body : Stmt := .ofList [.declares 1, .ofList [.declares 1, .declares 0, .declares 1]]
    let target : Handle := Handle.ofSlot 1
    body.InRange declarations ∧
      target.slot < declarations.size ∧
      declarations.size + (body.holders target - 1) ≤ declarationKeys.capacity ∧
      ∃ left state rewritten,
        body.unshare declarations target = .ok (left, state) ∧
          Rewrite.applyAll target [.strip "x"] state.declarations = .ok rewritten ∧
          left.text rewritten.fetch =
            .ok "\x7b\nint x;\n\x7b\nint x = 0;\nint y;\nint x = 0;\n\x7d\n\x7d" ∧
          (declares 1).text rewritten.fetch = .ok "int x;" ∧
          (declares 1).isEmpty rewritten.fetch = .ok true := by
  intro declarations body target
  have inRange : body.InRange declarations := by decide
  have found : target.slot < declarations.size := by decide
  have room : declarations.size + (body.holders target - 1) ≤ declarationKeys.capacity := by decide
  obtain ⟨left, state, declaration, ran, held, -, each⟩ :=
    unshare_makes_rewrites_private inRange found room
  obtain ⟨rewritten, applied, outside, -⟩ := each [.strip "x"]
  obtain rfl := Except.ok.inj (held.symm.trans rfl)
  have shown := outside (declares 1) rfl
  have text : left.text rewritten.fetch =
      .ok "\x7b\nint x;\n\x7b\nint x = 0;\nint y;\nint x = 0;\n\x7d\n\x7d" := by
    have tree : left = .ofList [.declares 1, .ofList [.declares 2, .declares 0, .declares 3]] := by
      obtain ⟨rfl, -⟩ := Prod.mk.inj (Except.ok.inj (ran.symm.trans rfl))
      rfl
    have store : rewritten = .ofList
        [.ofDeclarators [.sized "y" []], .ofDeclarators [.sized "x" []],
          .ofDeclarators [.set "x" (.literal (.int 0) .nowhere)],
          .ofDeclarators [.set "x" (.literal (.int 0) .nowhere)]] := by
      obtain ⟨-, rfl⟩ := Prod.mk.inj (Except.ok.inj (ran.symm.trans rfl))
      obtain rfl := Except.ok.inj (applied.symm.trans rfl)
      rfl
    rw [tree, store]
    rfl
  exact ⟨inRange, found, room, left, state, rewritten, ran, applied, text, shown.text, shown.isEmpty⟩

end Stmt

end ShaderTree
