import Mathlib.Data.List.Nodup
import ShaderTree.Proofs.Sharing.Unsharing

/-!
# Copy on write

Once a declaration has been unshared, one statement of the tree holds it, and each of its other
holders has a copy in a slot of its own.  The store has grown by these copies and by nothing else.
The tree differs from the one that was given in the handles of these holders, so it is written as
before and answers every question as before.
-/

namespace ShaderTree

open Unsharing

variable {declarations : Declarations} {target : Handle}

/-! ## The handles of a walk -/

/-- What stands at a place of a walk depends on the holders before it. -/
theorem getElem?_separated (met : Nat) (handles : List Handle) (position : Nat) :
    (separated declarations target met handles)[position]? =
      handles[position]?.map fun handle =>
        if handle = target then
          handleAfter declarations target (met + (handles.take position).count target)
        else
          handle := by
  induction handles generalizing met position with
  | nil => rfl
  | cons first rest ih =>
      rw [separated]
      cases position with
      | zero => split <;> simp_all
      | succ position =>
          split
          case isTrue same =>
            rw [List.getElem?_cons_succ, List.getElem?_cons_succ, ih, List.take_succ_cons, same,
              List.count_cons_self, Nat.add_right_comm, Nat.add_assoc]
          case isFalse other =>
            rw [List.getElem?_cons_succ, List.getElem?_cons_succ, ih, List.take_succ_cons,
              List.count_cons_of_ne other]

/-- With one holder at most there is nothing to separate. -/
theorem separated_eq_self {met : Nat} {handles : List Handle}
    (few : met + handles.count target ≤ 1) :
    separated declarations target met handles = handles := by
  induction handles generalizing met with
  | nil => rfl
  | cons first rest ih =>
      rw [separated]
      split
      case isTrue same =>
        rw [same, List.count_cons_self] at few
        obtain rfl : met = 0 := by omega
        rw [ih (by omega), same]
        rfl
      case isFalse other =>
        rw [List.count_cons_of_ne other] at few
        rw [ih few]

theorem slot_handleAfter {met : Nat} (later : 0 < met)
    (room : declarations.size + (met - 1) ≤ declarationKeys.capacity) :
    (handleAfter declarations target met).slot = declarations.size + (met - 1) := by
  rw [handleAfter, if_neg (Nat.ne_of_gt later), Handle.slot_ofNat room]

/-- The copies stand in the order of a walk, in the slots behind those of the store. -/
theorem slots_separated (found : target.slot < declarations.size) (met : Nat)
    {handles : List Handle} (inRange : ∀ handle ∈ handles, handle.slot < declarations.size)
    (room : declarations.size + (met + handles.count target - 1) ≤ declarationKeys.capacity) :
    ((separated declarations target met handles).filter
        fun handle => declarations.size ≤ handle.slot).map Key.slot =
      List.range' (declarations.size + (met - 1)) (met + handles.count target - 1 - (met - 1)) := by
  induction handles generalizing met with
  | nil => simp [separated]
  | cons first rest ih =>
      rw [List.forall_mem_cons] at inRange
      rw [separated]
      split
      case isTrue same =>
        rw [same, List.count_cons_self] at room ⊢
        have next := ih (met + 1) inRange.2 (by omega)
        cases met with
        | zero =>
            rw [handleAfter, if_pos rfl, List.filter_cons_of_neg (by simpa using found), next]
            simp
        | succ met =>
            have slot : (handleAfter declarations target (met + 1)).slot =
                declarations.size + met :=
              slot_handleAfter met.succ_pos (by rw [Nat.add_sub_cancel]; omega)
            have length : met + 1 + (rest.count target + 1) - 1 - (met + 1 - 1) =
                rest.count target + 1 := by omega
            have others : met + 1 + 1 + rest.count target - 1 - (met + 1 + 1 - 1) =
                rest.count target := by omega
            rw [List.filter_cons_of_pos (by simp [slot]), List.map_cons, next, slot, length, others,
              List.range'_succ]
            rfl
      case isFalse other =>
        rw [List.count_cons_of_ne other] at room ⊢
        rw [List.filter_cons_of_neg (by simpa using inRange.1), ih met inRange.2 room]

theorem count_separated (found : target.slot < declarations.size) (met : Nat)
    {handles : List Handle}
    (room : declarations.size + (met + handles.count target - 1) ≤ declarationKeys.capacity) :
    (separated declarations target met handles).count target =
      min (met + handles.count target) 1 - met := by
  induction handles generalizing met with
  | nil =>
      rw [separated, List.count_nil]
      omega
  | cons first rest ih =>
      rw [separated]
      split
      case isTrue same =>
        rw [same, List.count_cons_self] at room ⊢
        have next := ih (met + 1) (by omega)
        cases met with
        | zero =>
            rw [handleAfter, if_pos rfl, List.count_cons_self, next]
            omega
        | succ met =>
            have fresh : handleAfter declarations target (met + 1) ≠ target := by
              intro same
              have slot : (handleAfter declarations target (met + 1)).slot =
                  declarations.size + met :=
                slot_handleAfter met.succ_pos (by rw [Nat.add_sub_cancel]; omega)
              rw [same] at slot
              omega
            rw [List.count_cons_of_ne fresh, next]
            omega
      case isFalse other =>
        rw [List.count_cons_of_ne other] at room ⊢
        rw [List.count_cons_of_ne other, ih met room]

/-- Separating the holders of one declaration does not touch the holders of another one. -/
theorem count_separated_of_ne {handle : Handle} (old : handle.slot < declarations.size)
    (apart : handle ≠ target) (met : Nat) {handles : List Handle}
    (room : declarations.size + (met + handles.count target - 1) ≤ declarationKeys.capacity) :
    (separated declarations target met handles).count handle = handles.count handle := by
  induction handles generalizing met with
  | nil => rfl
  | cons first rest ih =>
      rw [separated]
      split
      case isTrue same =>
        rw [same, List.count_cons_self] at room
        have other : handleAfter declarations target met ≠ handle := by
          cases met with
          | zero => exact apart.symm
          | succ met =>
              intro taken
              have slot : (handleAfter declarations target (met + 1)).slot =
                  declarations.size + met :=
                slot_handleAfter met.succ_pos (by rw [Nat.add_sub_cancel]; omega)
              rw [taken] at slot
              omega
        rw [same, List.count_cons_of_ne other, List.count_cons_of_ne apart.symm,
          ih (met + 1) (by omega)]
      case isFalse other =>
        rw [List.count_cons_of_ne other] at room
        rw [List.count_cons, List.count_cons, ih met room]

/-- A handle that stands somewhere is counted before that place less often than in all. -/
theorem count_take_lt {handles : List Handle} {position : Nat} {handle : Handle}
    (stands : handles[position]? = some handle) :
    (handles.take position).count handle < handles.count handle := by
  induction handles generalizing position with
  | nil => cases stands
  | cons first rest ih =>
      cases position with
      | zero =>
          obtain rfl : first = handle := Option.some.inj stands
          rw [List.count_cons_self]
          exact Nat.succ_pos _
      | succ position =>
          have less := ih stands
          rw [List.take_succ_cons, List.count_cons, List.count_cons]
          omega

/-! ## Separated trees -/

namespace Stmt

variable (declarations target)

/--
A tree is left separated where its later holders of the target have copies, and all else stays.
-/
structure Separated (given left : Stmt) : Prop where
  shape : left.relabeled (origin declarations target) = given
  held : left.handles = separated declarations target 0 given.handles

/-- The store with a copy of the target for each holder but the first. -/
def copiesFor (given : Stmt) : Declarations :=
  declarations.withCopies (declarations.view target) (given.holders target - 1)

variable {declarations target} {given left : Stmt}

namespace Separated

section Held

variable (separates : Separated declarations target given left)

include separates

theorem getElem?_handles (position : Nat) :
    left.handles[position]? = given.handles[position]?.map fun handle =>
      if handle = target then
        handleAfter declarations target ((given.handles.take position).count target)
      else
        handle := by
  rw [separates.held, getElem?_separated]
  simp only [Nat.zero_add]

variable (found : target.slot < declarations.size) (inRange : given.InRange declarations)
  (room : declarations.size + (given.holders target - 1) ≤ declarationKeys.capacity)

include found room

theorem holders_target : left.holders target = min (given.holders target) 1 := by
  rw [holders_eq_count] at room
  rw [holders_eq_count, holders_eq_count, separates.held,
    count_separated found 0 (by rwa [Nat.zero_add]), Nat.zero_add, Nat.sub_zero]

omit found in
theorem holders_of_ne {handle : Handle} (old : handle.slot < declarations.size)
    (apart : handle ≠ target) : left.holders handle = given.holders handle := by
  rw [holders_eq_count] at room
  rw [holders_eq_count, holders_eq_count, separates.held,
    count_separated_of_ne old apart 0 (by rwa [Nat.zero_add])]

include inRange

theorem inRange_left : left.InRange (given.copiesFor declarations target) := by
  intro handle held
  obtain ⟨position, stands⟩ := List.mem_iff_getElem?.1 held
  rw [separates.getElem?_handles, Option.map_eq_some_iff] at stands
  obtain ⟨own, stood, same⟩ := stands
  rw [copiesFor, Declarations.size_withCopies]
  by_cases holds : own = target
  · rw [if_pos holds] at same
    rw [holds] at stood
    have less := count_take_lt stood
    rw [holders_eq_count] at room ⊢
    cases before : (given.handles.take position).count target with
    | zero =>
        rw [before, handleAfter, if_pos rfl] at same
        rw [← same]
        omega
    | succ met =>
        rw [before] at same less
        rw [← same, slot_handleAfter met.succ_pos (by omega)]
        omega
  · rw [if_neg holds] at same
    have old := inRange own (List.mem_of_getElem? stood)
    rw [← same]
    omega

/-- Each copy has one holder. -/
theorem holders_copy {copy : Handle} (held : copy ∈ left.handles)
    (fresh : declarations.size ≤ copy.slot) : left.holders copy = 1 := by
  rw [holders_eq_count] at room
  have slots := slots_separated found 0 inRange (by rwa [Nat.zero_add])
  rw [← separates.held] at slots
  have distinct : (left.handles.filter fun handle => declarations.size ≤ handle.slot).Nodup :=
    List.Nodup.of_map Key.slot (slots ▸ List.nodup_range')
  have isFresh : decide (declarations.size ≤ copy.slot) = true := decide_eq_true fresh
  rw [holders_eq_count, ← List.count_filter (p := fun handle => declarations.size ≤ handle.slot)
    isFresh]
  exact List.count_eq_one_of_mem distinct (List.mem_filter.2 ⟨held, isFresh⟩)

/-- What is left is looked up to what it stands for. -/
theorem answered : left.Answered (given.copiesFor declarations target).fetch
    (declarations.view ∘ origin declarations target) := by
  intro handle held
  have bound := separates.inRange_left found inRange room handle held
  rw [(separates.inRange_left found inRange room).answered handle held, copiesFor,
    Declarations.view_withCopies bound]
  rfl

/-- What is left is written like the tree that was given. -/
theorem text_left : left.text (given.copiesFor declarations target).fetch =
    .ok (given.textUnder declarations.view) := by
  rw [text_eq_pure (separates.answered found inRange room), ← textUnder_relabeled, separates.shape]
  rfl

theorem isEmpty_left : left.isEmpty (given.copiesFor declarations target).fetch =
    .ok (given.idle declarations.view) := by
  rw [isEmpty_eq_pure (separates.answered found inRange room), ← idle_relabeled, separates.shape]
  rfl

theorem mentions_left (name : String) :
    left.mentions (given.copiesFor declarations target).fetch name =
      .ok (given.usesName declarations.view name) := by
  rw [mentions_eq_pure (separates.answered found inRange room), ← usesName_relabeled,
    separates.shape]
  rfl

end Held

end Separated

/-! ## Unsharing -/

/-- On a tree in range, with room for the copies, unsharing succeeds and separates the holders. -/
theorem InRange.unshare_eq_ok (inRange : given.InRange declarations)
    (found : target.slot < declarations.size)
    (room : declarations.size + (given.holders target - 1) ≤ declarationKeys.capacity) :
    ∃ left,
      given.unshare declarations target =
          .ok (left, after declarations target (given.holderSpans target)) ∧
        Separated declarations target given left := by
  have begun : after declarations target [] = { declarations } := by
    simp [after]
  have enough : declarations.size + (0 + (given.holderSpans target).length) ≤
      declarationKeys.capacity + 1 := by
    rw [length_holderSpans, ← holders_eq_count]
    omega
  obtain ⟨left, ran, shape, held⟩ := walks found inRange [] enough
  rw [begun] at ran
  exact ⟨left, ran, shape, held⟩

theorem copies_after (stmt : Stmt) :
    (after declarations target (stmt.holderSpans target)).copies = stmt.holders target - 1 := by
  rw [after, length_holderSpans, ← holders_eq_count]

theorem declarations_after (stmt : Stmt) :
    (after declarations target (stmt.holderSpans target)).declarations =
      stmt.copiesFor declarations target := by
  rw [after, length_holderSpans, ← holders_eq_count, copiesFor]

/-- Where one statement at most holds the target, there is nothing to unshare. -/
theorem InRange.unshare_of_holders_le_one (inRange : given.InRange declarations)
    (found : target.slot < declarations.size) (fits : declarations.size ≤ declarationKeys.capacity)
    (few : given.holders target ≤ 1) :
    ∃ state,
      given.unshare declarations target = .ok (given, state) ∧
        state.copies = 0 ∧
        state.declarations = declarations := by
  obtain ⟨left, ran, separates⟩ := inRange.unshare_eq_ok found (by omega)
  have held : left.handles = given.handles := by
    rw [separates.held, separated_eq_self (by rwa [Nat.zero_add, ← holders_eq_count])]
  have same : left.relabeled (origin declarations target) = left :=
    relabeled_eq_self fun handle within => origin_of_lt (inRange handle (held ▸ within))
  rw [← same, separates.shape] at ran
  have none : given.holders target - 1 = 0 := by omega
  refine ⟨_, ran, ?_, ?_⟩
  · rw [copies_after, none]
  · rw [declarations_after, copiesFor, none, Declarations.withCopies_zero]

/--
A declaration has been copied on write: the first of its holders keeps it, and each later one holds
a copy of its own, in the next slot of the store.
-/
structure CopiedOnWrite (declarations : Declarations) (target : Handle) (given : Stmt)
    (grown : Declarations) (left : Stmt) : Prop where
  /-- The copies are all that the store has grown by. -/
  slots : ∃ declaration,
    declarations.fetch target = .ok declaration ∧
      grown.slots = declarations.slots ++ Array.replicate (given.holders target - 1) declaration
  /-- With the target in the place of its copies, the tree is the one that was given. -/
  shape : left.relabeled (origin declarations target) = given
  /-- A later holder has the copy of its number, which nothing else holds; all others are left. -/
  handles : ∀ position handle, given.handles[position]? = some handle →
    ∃ now,
      left.handles[position]? = some now ∧
        if handle = target ∧ target ∈ given.handles.take position then
          now.slot = declarations.size + ((given.handles.take position).count target - 1) ∧
            left.holders now = 1
        else
          now = handle
  holders : left.holders target = min (given.holders target) 1

/-- Two trees, each with its look-up, are written alike and answer every question alike. -/
structure Alike (look : Lookup (Except Fault)) (stmt : Stmt) (otherLook : Lookup (Except Fault))
    (other : Stmt) : Prop where
  text : ∃ text, stmt.text look = .ok text ∧ other.text otherLook = .ok text
  isEmpty : ∃ empty, stmt.isEmpty look = .ok empty ∧ other.isEmpty otherLook = .ok empty
  mentions : ∀ name, ∃ mentioned,
    stmt.mentions look name = .ok mentioned ∧ other.mentions otherLook name = .ok mentioned

/-- Where two look-ups both give what one view gives, a tree is seen alike. -/
theorem Answered.alike {view : View} {look otherLook : Lookup (Except Fault)} {stmt : Stmt}
    (answered : stmt.Answered look view) (answeredToo : stmt.Answered otherLook view) :
    Alike look stmt otherLook stmt where
  text := ⟨_, text_eq_pure answered, text_eq_pure answeredToo⟩
  isEmpty := ⟨_, isEmpty_eq_pure answered, isEmpty_eq_pure answeredToo⟩
  mentions name := ⟨_, mentions_eq_pure answered name, mentions_eq_pure answeredToo name⟩

theorem Alike.trans {look otherLook lastLook : Lookup (Except Fault)} {stmt other last : Stmt}
    (first : Alike look stmt otherLook other) (second : Alike otherLook other lastLook last) :
    Alike look stmt lastLook last where
  text := by
    obtain ⟨text, same, sameOther⟩ := first.text
    obtain ⟨_, again, sameLast⟩ := second.text
    obtain rfl := Except.ok.inj (sameOther.symm.trans again)
    exact ⟨text, same, sameLast⟩
  isEmpty := by
    obtain ⟨empty, same, sameOther⟩ := first.isEmpty
    obtain ⟨_, again, sameLast⟩ := second.isEmpty
    obtain rfl := Except.ok.inj (sameOther.symm.trans again)
    exact ⟨empty, same, sameLast⟩
  mentions name := by
    obtain ⟨mentioned, same, sameOther⟩ := first.mentions name
    obtain ⟨_, again, sameLast⟩ := second.mentions name
    obtain rfl := Except.ok.inj (sameOther.symm.trans again)
    exact ⟨mentioned, same, sameLast⟩

namespace Separated

variable (separates : Separated declarations target given left)
  (found : target.slot < declarations.size) (inRange : given.InRange declarations)
  (room : declarations.size + (given.holders target - 1) ≤ declarationKeys.capacity)

include separates found inRange room

theorem copiedOnWrite :
    CopiedOnWrite declarations target given (given.copiesFor declarations target) left where
  slots := by
    obtain ⟨declaration, same⟩ := Store.exists_get?_of_lt found
    refine ⟨declaration, Store.fetch_eq_ok_iff.2 same, ?_⟩
    rw [copiesFor, Declarations.view, same]
    rfl
  shape := separates.shape
  handles := by
    intro position handle stands
    have now := separates.getElem?_handles position
    rw [stands, Option.map_some] at now
    refine ⟨_, now, ?_⟩
    by_cases holds : handle = target
    · rw [if_pos holds] at now ⊢
      rw [holds] at stands
      have less := count_take_lt stands
      rw [holders_eq_count] at room
      by_cases later : target ∈ given.handles.take position
      · have slot : (handleAfter declarations target
            ((given.handles.take position).count target)).slot =
              declarations.size + ((given.handles.take position).count target - 1) :=
          slot_handleAfter (List.count_pos_iff.2 later) (by omega)
        rw [if_pos ⟨holds, later⟩]
        refine ⟨slot, separates.holders_copy found inRange ?_ (List.mem_of_getElem? now) ?_⟩
        · rwa [holders_eq_count]
        · rw [slot]
          exact Nat.le_add_right ..
      · rw [if_neg (fun both => later both.2), List.count_eq_zero.2 later, holds]
        rfl
    · rw [if_neg holds, if_neg (fun both => holds both.1)]
  holders := separates.holders_target found room

theorem alike :
    Alike declarations.fetch given (given.copiesFor declarations target).fetch left where
  text := ⟨_, text_eq_pure inRange.answered, separates.text_left found inRange room⟩
  isEmpty := ⟨_, isEmpty_eq_pure inRange.answered, separates.isEmpty_left found inRange room⟩
  mentions name :=
    ⟨_, mentions_eq_pure inRange.answered name, separates.mentions_left found inRange room name⟩

end Separated

/--
Unsharing is exact copy on write: on a tree in range, with room for the copies, it makes one copy
for each holder of the target but the first, the tree answers as before, and there is nothing left
to unshare.
-/
theorem unshare_copies_on_write {declarations : Declarations} {body : Stmt} {target : Handle}
    (inRange : body.InRange declarations) (found : target.slot < declarations.size)
    (room : declarations.size + (body.holders target - 1) ≤ declarationKeys.capacity) :
    ∃ left state,
      body.unshare declarations target = .ok (left, state) ∧
        state.copies = body.holders target - 1 ∧
        CopiedOnWrite declarations target body state.declarations left ∧
        Alike declarations.fetch body state.declarations.fetch left ∧
        ∃ again,
          left.unshare state.declarations target = .ok (left, again) ∧
            again.copies = 0 ∧
            again.declarations = state.declarations := by
  obtain ⟨left, ran, separates⟩ := inRange.unshare_eq_ok found room
  refine ⟨left, _, ran, copies_after body, ?_⟩
  rw [declarations_after]
  refine ⟨separates.copiedOnWrite found inRange room, separates.alike found inRange room, ?_⟩
  have size : (body.copiesFor declarations target).size =
      declarations.size + (body.holders target - 1) :=
    Declarations.size_withCopies
  apply (separates.inRange_left found inRange room).unshare_of_holders_le_one
  · omega
  · rwa [size]
  · rw [separates.holders_target found room]
    exact Nat.min_le_right ..

/--
In `for (int x; ;) { int x; int y = x; { int x; } }` with one declaration of `x`, the start of the loop keeps
it, the two later holders get copies in the next two slots, and a second call does nothing.
-/
theorem unshare_copies_on_write_of_loop :
    let x : Declaration := .ofDeclarators [.sized "x" []]
    let y : Declaration := .ofDeclarators [.set "y" (.var "x")]
    let declarations : Declarations := .ofList [y, x]
    let body : Stmt := .forLoop (some (.declares 1)) none none
      (.ofList [.declares 1, .declares 0, .ofList [.declares 1]]) .nowhere
    let target : Handle := Handle.ofSlot 1
    body.InRange declarations ∧
      target.slot < declarations.size ∧
      declarations.size + (body.holders target - 1) ≤ declarationKeys.capacity ∧
      ∃ left state again,
        body.unshare declarations target = .ok (left, state) ∧
          state.copies = 2 ∧
          left.handles = [.ofSlot 1, .ofSlot 2, .ofSlot 0, .ofSlot 3] ∧
          state.declarations = .ofList [y, x, x, x] ∧
          left.text state.declarations.fetch =
            .ok "for (int x; ; ) \x7b\nint x;\nint y = x;\n\x7b\nint x;\n\x7d\n\x7d" ∧
          left.unshare state.declarations target = .ok (left, again) ∧
          again.copies = 0 ∧
          again.declarations = state.declarations := by
  intro x y declarations body target
  have inRange : body.InRange declarations := by decide
  have found : target.slot < declarations.size := by decide
  have room : declarations.size + (body.holders target - 1) ≤ declarationKeys.capacity := by decide
  obtain ⟨left, state, ran, copies, -, alike, again, ranAgain, nothing, same⟩ :=
    unshare_copies_on_write inRange found room
  obtain ⟨text, told, toldAgain⟩ := alike.text
  obtain rfl := Except.ok.inj (told.symm.trans rfl)
  have pinned : left.handles = [.ofSlot 1, .ofSlot 2, .ofSlot 0, .ofSlot 3] ∧
      state.declarations = .ofList [y, x, x, x] := by
    obtain ⟨rfl, rfl⟩ := Prod.mk.inj (Except.ok.inj (ran.symm.trans rfl))
    exact ⟨rfl, rfl⟩
  exact ⟨inRange, found, room, left, state, again, ran, copies, pinned.1, pinned.2, toldAgain,
    ranAgain, nothing, same⟩

end Stmt

end ShaderTree
