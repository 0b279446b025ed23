import Mathlib.Algebra.BigOperators.Group.Finset.Basic
import Mathlib.Algebra.GroupWithZero.Nat
import ShaderTree.Proofs.Sharing.Privacy

/-!
# Every holder its own declaration

Once each declaration of a store has been unshared, in whatever order, no two statements of a tree hold
one declaration.  While this goes on, the handles fall into three kinds.  A declaration whose turn has
come has one holder at most; one whose turn has not come has the holders that it had at first; and a
copy that was made on the way has one holder at most, though its turn never comes.  What a declaration
costs in copies is therefore known from the tree that was given, and so is the sum, which leaves one
statement to each of the declarations that the tree held.
-/

namespace ShaderTree

/-- What is counted beyond the first of each kind, added up, is what is not the first of its kind. -/
theorem sum_count_sub_one_add_length_dedup {kinds values : List Handle} (distinct : kinds.Nodup)
    (within : values ⊆ kinds) :
    (kinds.map fun kind => values.count kind - 1).sum + values.dedup.length = values.length := by
  have fewer : values.toFinset ⊆ kinds.toFinset := by
    intro value inValues
    exact List.mem_toFinset.2 (within (List.mem_toFinset.1 inValues))
  have absent : ∀ kind ∈ kinds.toFinset, kind ∉ values.toFinset → values.count kind - 1 = 0 := by
    intro kind _ missing
    rw [List.count_eq_zero.2 fun inValues => missing (List.mem_toFinset.2 inValues)]
  have present : ∀ kind ∈ values.toFinset, values.count kind - 1 + 1 = values.count kind := by
    intro kind inValues
    exact Nat.sub_add_cancel (List.count_pos_iff.2 (List.mem_toFinset.1 inValues))
  rw [← List.sum_toFinset _ distinct, ← Finset.sum_subset fewer absent, ← List.card_toFinset,
    Finset.card_eq_sum_ones, ← Finset.sum_add_distrib, Finset.sum_congr rfl present,
    List.sum_toFinset_count_eq_length]

namespace Stmt

/-! ## One declaration after the other -/

/-- Unshares declarations one after the other, and counts the copies. -/
def unshareEach (root : Stmt) (declarations : Declarations) :
    List Handle → Except Fault (Stmt × Declarations × Nat)
  | [] => return (root, declarations, 0)
  | target :: rest => do
      let (left, state) ← root.unshare declarations target
      let (left, grown, copies) ← left.unshareEach state.declarations rest
      return (left, grown, state.copies + copies)

variable {declarations between grown : Declarations} {given middle left : Stmt}

/--
The holders of the listed declarations have been set apart by so many copies.  Nothing else is done:
the tree is seen as before, and any other declaration of the store has its holders still.
-/
structure SetApart (targets : List Handle) (declarations : Declarations) (given : Stmt)
    (grown : Declarations) (left : Stmt) (copies : Nat) : Prop where
  inRange : left.InRange grown
  slots : ∃ fresh, grown.slots = declarations.slots ++ fresh ∧ fresh.size = copies
  alike : Alike declarations.fetch given grown.fetch left
  holders : ∀ handle : Handle, handle.slot < declarations.size →
    left.holders handle =
      if handle ∈ targets then min (given.holders handle) 1 else given.holders handle
  /-- A copy has one holder at most. -/
  holders_fresh : ∀ handle : Handle, declarations.size ≤ handle.slot → left.holders handle ≤ 1

namespace SetApart

theorem nil (inRange : given.InRange declarations) :
    SetApart [] declarations given declarations given 0 where
  inRange := inRange
  slots := ⟨#[], Array.append_empty.symm, rfl⟩
  alike := inRange.answered.alike inRange.answered
  holders handle old := by rw [if_neg List.not_mem_nil]
  holders_fresh handle fresh := by
    have unheld : handle ∉ given.handles := fun held => absurd (inRange handle held) (by omega)
    rw [holders_eq_count, List.count_eq_zero.2 unheld]
    exact Nat.zero_le 1

theorem size_eq {targets : List Handle} {copies : Nat}
    (apart : SetApart targets declarations given grown left copies) :
    grown.size = declarations.size + copies := by
  obtain ⟨fresh, slots, size⟩ := apart.slots
  rw [Store.size, slots, Array.size_append, size]
  rfl

/-- Setting some apart and then others sets all of them apart. -/
theorem append {targets others : List Handle} {copies more : Nat}
    (first : SetApart targets declarations given between middle copies)
    (second : SetApart others between middle grown left more) :
    SetApart (targets ++ others) declarations given grown left (copies + more) where
  inRange := second.inRange
  slots := by
    obtain ⟨fresh, slots, size⟩ := first.slots
    obtain ⟨freshest, slotsThen, sizeThen⟩ := second.slots
    refine ⟨fresh ++ freshest, ?_, ?_⟩
    · rw [slotsThen, slots, Array.append_assoc]
    · rw [Array.size_append, size, sizeThen]
  alike := first.alike.trans second.alike
  holders handle old := by
    have before := first.holders handle old
    have after := second.holders handle (by rw [first.size_eq]; omega)
    rw [after, before]
    by_cases inFirst : handle ∈ targets <;> by_cases inSecond : handle ∈ others <;>
      simp [inFirst, inSecond]
  holders_fresh handle fresh := by
    by_cases older : handle.slot < between.size
    · have before := first.holders_fresh handle fresh
      have after := second.holders handle older
      split at after <;> omega
    · exact second.holders_fresh handle (Nat.not_lt.1 older)

end SetApart

/-- Unsharing one declaration sets its holders apart. -/
theorem Separated.setApart {target : Handle} (separates : Separated declarations target given left)
    (found : target.slot < declarations.size) (inRange : given.InRange declarations)
    (room : declarations.size + (given.holders target - 1) ≤ declarationKeys.capacity) :
    SetApart [target] declarations given (given.copiesFor declarations target) left
      (given.holders target - 1) where
  inRange := separates.inRange_left found inRange room
  slots := ⟨_, rfl, Array.size_replicate⟩
  alike := separates.alike found inRange room
  holders handle old := by
    simp only [List.mem_singleton]
    split
    case isTrue same => rw [same, separates.holders_target found room]
    case isFalse apart => rw [separates.holders_of_ne room old apart]
  holders_fresh handle fresh := by
    by_cases held : handle ∈ left.handles
    · exact Nat.le_of_eq (separates.holders_copy found inRange room held fresh)
    · rw [holders_eq_count, List.count_eq_zero.2 held]
      exact Nat.zero_le 1

/-- On a tree in range, with room for the copies, distinct declarations are all set apart. -/
theorem InRange.unshareEach_eq_ok {order : List Handle} (inRange : given.InRange declarations)
    (distinct : order.Nodup) (found : ∀ target ∈ order, target.slot < declarations.size)
    (room : declarations.size + (order.map fun target => given.holders target - 1).sum ≤
      declarationKeys.capacity) :
    ∃ left grown,
      given.unshareEach declarations order =
          .ok (left, grown, (order.map fun target => given.holders target - 1).sum) ∧
        SetApart order declarations given grown left
          (order.map fun target => given.holders target - 1).sum := by
  induction order generalizing given declarations with
  | nil => exact ⟨given, declarations, rfl, .nil inRange⟩
  | cons target rest ih =>
      obtain ⟨later, distinct⟩ := List.nodup_cons.1 distinct
      obtain ⟨foundFirst, foundRest⟩ := List.forall_mem_cons.1 found
      rw [List.map_cons, List.sum_cons] at room ⊢
      have roomFirst : declarations.size + (given.holders target - 1) ≤ declarationKeys.capacity :=
        by omega
      obtain ⟨middle, ran, separates⟩ := inRange.unshare_eq_ok foundFirst roomFirst
      have first := separates.setApart foundFirst inRange roomFirst
      -- The holders of the others are untouched, so their turns cost what they would have cost.
      have costs : (rest.map fun other => middle.holders other - 1) =
          rest.map fun other => given.holders other - 1 := by
        refine List.map_congr_left fun other within => ?_
        rw [separates.holders_of_ne roomFirst (foundRest other within)
          (ne_of_mem_of_not_mem within later)]
      obtain ⟨left, grown, ranRest, second⟩ := ih first.inRange distinct
        (fun other within => by rw [first.size_eq]; have := foundRest other within; omega)
        (by rw [costs, first.size_eq]; omega)
      rw [costs] at ranRest second
      refine ⟨left, grown, ?_, first.append second⟩
      rw [unshareEach, ran]
      simp only [bind, Except.bind, declarations_after, copies_after, ranRest]
      rfl

/-- A tree holds as many handles as it has statements that declare variables. -/
theorem length_handles (stmt : Stmt) :
    stmt.handles.length = stmt.nodes.countP fun node => node.kind = .declare := by
  rw [handles, List.length_filterMap_eq_countP]
  refine List.countP_congr fun node _ => ?_
  rw [Option.isSome_iff_exists, decide_eq_true_iff, kind_eq_declare_iff]

/--
Unsharing each declaration of a store once leaves no two statements of a tree with one declaration,
whatever the order.  On a tree in range, with room for the copies, it succeeds, adds nothing but copies
behind the slots that were there, and leaves the tree written as before and answering as before.  The
copies are as many as there are statements that declare variables beyond one for each handle that the
tree held.
-/
theorem unshareEach_separates_all_holders {declarations : Declarations} {body : Stmt}
    {order : List Handle} (inRange : body.InRange declarations)
    (complete : (order.map Key.slot).Perm (List.range declarations.size))
    (room : declarations.size + (body.handles.length - body.handles.dedup.length) ≤
      declarationKeys.capacity) :
    ∃ left grown copies,
      body.unshareEach declarations order = .ok (left, grown, copies) ∧
        left.handles.Nodup ∧
        Alike declarations.fetch body grown.fetch left ∧
        (∃ fresh, grown.slots = declarations.slots ++ fresh ∧ fresh.size = copies) ∧
        copies = (body.nodes.countP fun node => node.kind = .declare) - body.handles.dedup.length := by
  have listed (handle : Handle) : handle ∈ order ↔ handle.slot < declarations.size := by
    rw [← List.mem_range, ← complete.mem_iff, List.mem_map]
    exact ⟨fun within => ⟨handle, within, rfl⟩, fun ⟨_, within, same⟩ => Key.slot_inj.1 same ▸ within⟩
  have distinct : order.Nodup := List.Nodup.of_map Key.slot (complete.nodup_iff.2 List.nodup_range)
  have total := sum_count_sub_one_add_length_dedup distinct
    fun handle held => (listed handle).2 (inRange handle held)
  simp only [← holders_eq_count] at total
  obtain ⟨left, grown, ran, apart⟩ := inRange.unshareEach_eq_ok distinct
    (fun target within => (listed target).1 within) (by omega)
  refine ⟨left, grown, _, ran, ?_, apart.alike, apart.slots, ?_⟩
  · rw [List.nodup_iff_count_le_one]
    intro handle
    rw [← holders_eq_count]
    by_cases old : handle.slot < declarations.size
    · rw [apart.holders handle old, if_pos ((listed handle).2 old)]
      exact Nat.min_le_right ..
    · exact apart.holders_fresh handle (Nat.not_lt.1 old)
  · rw [← length_handles]
    omega

/--
In `for (int x; ;) { int x; int y = x; { int x; int y = x; } }` with two declarations, the three holders of
the one and the two of the other end up with five declarations.  The second one is unshared first.
-/
theorem unshareEach_separates_all_holders_of_loop :
    let x : Declaration := .ofDeclarators [.sized "x" []]
    let y : Declaration := .ofDeclarators [.set "y" (.var "x")]
    let declarations : Declarations := .ofList [x, y]
    let body : Stmt := .forLoop (some (.declares 0)) none none
      (.ofList [.declares 0, .declares 1, .ofList [.declares 0, .declares 1]]) .nowhere
    let order : List Handle := [.ofSlot 1, .ofSlot 0]
    body.InRange declarations ∧
      (order.map Key.slot).Perm (List.range declarations.size) ∧
      declarations.size + (body.handles.length - body.handles.dedup.length) ≤
        declarationKeys.capacity ∧
      ∃ left grown copies,
        body.unshareEach declarations order = .ok (left, grown, copies) ∧
          copies = 3 ∧
          left.handles = [.ofSlot 0, .ofSlot 3, .ofSlot 1, .ofSlot 4, .ofSlot 2] ∧
          grown = .ofList [x, y, y, x, x] ∧
          left.text grown.fetch =
            .ok "for (int x; ; ) \x7b\nint x;\nint y = x;\n\x7b\nint x;\nint y = x;\n\x7d\n\x7d" := by
  intro x y declarations body order
  have inRange : body.InRange declarations := by decide
  have complete : (order.map Key.slot).Perm (List.range declarations.size) := by decide
  have room : declarations.size + (body.handles.length - body.handles.dedup.length) ≤
      declarationKeys.capacity := by decide
  obtain ⟨left, grown, copies, ran, -, alike, -, count⟩ :=
    unshareEach_separates_all_holders inRange complete room
  have run : body.unshareEach declarations order =
      .ok (.forLoop (some (.declares 0)) none none
          (.ofList [.declares 3, .declares 1, .ofList [.declares 4, .declares 2]]) .nowhere,
        .ofList [x, y, y, x, x], 3) := rfl
  obtain ⟨tree, rest⟩ := Prod.mk.inj (Except.ok.inj (ran.symm.trans run))
  obtain ⟨slots, -⟩ := Prod.mk.inj rest
  have handles : left.handles = [.ofSlot 0, .ofSlot 3, .ofSlot 1, .ofSlot 4, .ofSlot 2] := by
    rw [tree]
    rfl
  have written : body.text declarations.fetch =
      .ok "for (int x; ; ) \x7b\nint x;\nint y = x;\n\x7b\nint x;\nint y = x;\n\x7d\n\x7d" := rfl
  obtain ⟨text, told, toldAgain⟩ := alike.text
  obtain rfl := Except.ok.inj (told.symm.trans written)
  exact ⟨inRange, complete, room, left, grown, copies, ran, count, handles, slots, toldAgain⟩

end Stmt

end ShaderTree
