import ShaderTree.Proofs.Tree.Relabeling
import ShaderTree.Proofs.Tree.Written
import ShaderTree.Sharing

/-!
# Separating the holders of a declaration

Unsharing walks a tree and gives each holder of its target but the first a copy, which goes into the
next slot of the store.  How far it has come is known from the holders met so far.
-/

namespace ShaderTree

/-! ## Copies -/

/--
The handle of a slot.  There is none beyond the capacity, where that of the first slot stands in.
-/
def Handle.ofNat (slot : Nat) : Handle :=
  (Key.ofSlot declarationKeys slot).toOption.getD (Handle.ofSlot 0)

/-- The store with copies of a declaration behind its last slot. -/
def Declarations.withCopies (declarations : Declarations) (declaration : Declaration)
    (count : Nat) : Declarations :=
  ⟨declarations.slots ++ Array.replicate count declaration⟩

theorem Handle.slot_ofNat {slot : Nat} (fits : slot ≤ declarationKeys.capacity) :
    (Handle.ofNat slot).slot = slot := by
  obtain ⟨handle, found, same⟩ := Key.exists_ofSlot fits
  rw [Handle.ofNat, found]
  exact same

namespace Declarations

variable {declarations : Declarations} {declaration : Declaration} {count : Nat} {handle : Handle}

@[simp] theorem size_withCopies :
    (declarations.withCopies declaration count).size = declarations.size + count := by
  simp [withCopies, Store.size]

@[simp] theorem withCopies_zero : declarations.withCopies declaration 0 = declarations := by
  simp [withCopies]

/-- Copies change nothing in the slots that were there. -/
theorem get?_withCopies_of_lt (old : handle.slot < declarations.size) :
    (declarations.withCopies declaration count).get? handle = declarations.get? handle :=
  Array.getElem?_append_left old

/-- The slots behind hold the copies. -/
theorem get?_withCopies_of_le (fresh : declarations.size ≤ handle.slot)
    (bound : handle.slot < declarations.size + count) :
    (declarations.withCopies declaration count).get? handle = some declaration := by
  have within : handle.slot - declarations.slots.size < count := by
    rw [Store.size] at fresh bound
    omega
  rw [Store.get?, withCopies, Array.getElem?_append_right fresh, Array.getElem?_replicate,
    if_pos within]

/-- Copying a declaration once more adds one copy. -/
theorem duplicate_withCopies {target : Handle} (found : declarations.get? target = some declaration)
    (room : declarations.size + count < declarationKeys.capacity) :
    (declarations.withCopies declaration count).complete (Store.duplicate target) =
      .ok (Handle.ofNat (declarations.size + count),
        declarations.withCopies declaration (count + 1)) := by
  have old : target.slot < declarations.size :=
    (Store.get?_isSome_iff declarations target).1 (found ▸ rfl)
  have value : (declarations.withCopies declaration count).get? target = some declaration := by
    rw [get?_withCopies_of_lt old, found]
  rw [Store.complete_eq_ok_iff, Store.perform_duplicate value, Store.perform_insert_eq_ok_iff,
    size_withCopies, Handle.slot_ofNat (Nat.le_of_lt room)]
  refine ⟨room, rfl, ?_⟩
  rw [withCopies, withCopies, Array.replicate_succ, Array.append_push]

end Declarations

/-! ## One holder -/

namespace Unsharing

variable (declarations : Declarations) (target : Handle)

/-- The handle that a holder is left with, after `met` holders met before it. -/
def handleAfter (met : Nat) : Handle :=
  if met = 0 then target else Handle.ofNat (declarations.size + (met - 1))

/-- How far unsharing has come once the holders at the given spans have been met. -/
def after (met : List Span) : Unsharing where
  declarations := declarations.withCopies (declarations.view target) (met.length - 1)
  metFirst := !met.isEmpty
  copies := met.length - 1
  events := met.tail.zipIdx.map fun (span, number) =>
    .unsharing span.offset (Handle.ofNat (declarations.size + number))

variable {declarations target}

theorem run_bind_of_ok {α β : Type} {action : StateT Unsharing (Except Fault) α}
    {next : α → StateT Unsharing (Except Fault) β} {state between : Unsharing} {value : α}
    (ran : action.run state = .ok (value, between)) :
    (action >>= next).run state = (next value).run between := by
  rw [StateT.run_bind, ran]
  rfl

/-- A statement that does not hold the target is kept. -/
theorem visit_of_ne {stmt : Stmt} (other : stmt.handle? ≠ some target) (state : Unsharing) :
    (visit target stmt).run state = .ok (.keep stmt.span, state) := by
  rw [visit, if_neg other]
  rfl

theorem visit_first {stmt : Stmt} (holds : stmt.handle? = some target) :
    (visit target stmt).run (after declarations target []) =
      .ok (.keep stmt.span, after declarations target [stmt.span]) := by
  rw [visit, if_pos holds]
  rfl

/-- One more holder than the first adds one copy, and tells of it. -/
theorem after_snoc (first : Span) (met : List Span) (span : Span) :
    after declarations target (first :: met ++ [span]) =
      { after declarations target (first :: met) with
        declarations := declarations.withCopies (declarations.view target) (met.length + 1)
        copies := met.length + 1
        events := (after declarations target (first :: met)).events ++
          [.unsharing span.offset (Handle.ofNat (declarations.size + met.length))] } := by
  have numbered : (met ++ [span]).zipIdx = met.zipIdx ++ [(span, met.length)] := by
    rw [List.zipIdx_append, Nat.zero_add]
    rfl
  have length : (first :: met ++ [span]).length - 1 = met.length + 1 := by
    rw [List.cons_append, List.length_cons, List.length_append, List.length_singleton,
      Nat.add_sub_cancel]
  rw [after, after, length, List.cons_append, List.tail_cons, List.tail_cons, numbered,
    List.map_append]
  rfl

/-- A later holder is given the next copy. -/
theorem visit_later {stmt : Stmt} (holds : stmt.handle? = some target)
    (found : target.slot < declarations.size) {first : Span} {met : List Span}
    (room : declarations.size + met.length < declarationKeys.capacity) :
    (visit target stmt).run (after declarations target (first :: met)) =
      .ok (.become (.declare (Handle.ofNat (declarations.size + met.length))) stmt.span,
        after declarations target (first :: met ++ [stmt.span])) := by
  have value : declarations.get? target = some (declarations.view target) := by
    obtain ⟨declaration, same⟩ := Store.exists_get?_of_lt found
    rw [Declarations.view, same]
    rfl
  have duplicated :
      (after declarations target (first :: met)).declarations.complete (Store.duplicate target) =
      .ok (Handle.ofNat (declarations.size + met.length),
        declarations.withCopies (declarations.view target) (met.length + 1)) :=
    Declarations.duplicate_withCopies value room
  have lifted : (liftM ((after declarations target (first :: met)).declarations.complete
          (Store.duplicate target)) :
        StateT Unsharing (Except Fault) (Handle × Declarations)).run
          (after declarations target (first :: met)) =
      .ok ((Handle.ofNat (declarations.size + met.length),
        declarations.withCopies (declarations.view target) (met.length + 1)),
          after declarations target (first :: met)) := by
    rw [duplicated]
    rfl
  have begun : (after declarations target (first :: met)).metFirst = true := rfl
  rw [visit, if_pos holds]
  refine (run_bind_of_ok rfl).trans ?_
  rw [if_pos begun, run_bind_of_ok lifted, after_snoc]
  rfl

/-- A holder is left with its handle, and counts as met. -/
theorem rewrite_holder (found : target.slot < declarations.size) (span : Span) {met : List Span}
    (room : declarations.size + met.length ≤ declarationKeys.capacity) :
    ((Stmt.simple (.declare target) span).rewrite (visit target)).run
        (after declarations target met) =
      .ok (.simple (.declare (handleAfter declarations target met.length)) span,
        after declarations target (met ++ [span])) := by
  cases met with
  | nil => rw [Stmt.rewrite, StateT.run_bind, visit_first rfl]; rfl
  | cons first met =>
      rw [Stmt.rewrite, StateT.run_bind, visit_later rfl found room]
      rfl

/-- A statement that does not hold the target is kept, and what is nested in it is walked. -/
theorem rewrite_other {stmt : Stmt} (other : stmt.handle? ≠ some target) (state : Unsharing)
    (nested : Span → StateT Unsharing (Except Fault) Stmt) :
    (visit target stmt >>= fun edit => edit.settle nested).run state =
      (nested stmt.span).run state := by
  rw [StateT.run_bind, visit_of_ne other]
  rfl

end Unsharing

/-! ## All holders -/

section Separation

variable (declarations : Declarations) (target : Handle)

/-- The handles of a walk once their holders are separated, `met` of which were met before. -/
def separated : Nat → List Handle → List Handle
  | _, [] => []
  | met, first :: rest =>
      if first = target then
        Unsharing.handleAfter declarations target met :: separated (met + 1) rest
      else
        first :: separated met rest

/-- The handle that a handle of the store with copies stands for. -/
def origin (handle : Handle) : Handle :=
  if handle.slot < declarations.size then handle else target

namespace Stmt

/-- Where the holders of the target stand, in the order of a walk. -/
def holderSpans (stmt : Stmt) : List Span :=
  (stmt.nodes.filter fun node => node.handle? = some target).map span

end Stmt

end Separation

variable {declarations : Declarations} {target : Handle}

theorem origin_of_lt {handle : Handle} (old : handle.slot < declarations.size) :
    origin declarations target handle = handle :=
  if_pos old

theorem origin_of_le {handle : Handle} (fresh : declarations.size ≤ handle.slot) :
    origin declarations target handle = target :=
  if_neg (Nat.not_lt.2 fresh)

/-- A handle of the store with copies is looked up to what it stands for. -/
theorem Declarations.view_withCopies {count : Nat} {handle : Handle}
    (bound : handle.slot < (declarations.withCopies (declarations.view target) count).size) :
    (declarations.withCopies (declarations.view target) count).view handle =
      declarations.view (origin declarations target handle) := by
  rw [size_withCopies] at bound
  by_cases old : handle.slot < declarations.size
  · rw [origin_of_lt old, view, get?_withCopies_of_lt old, view]
  · rw [Nat.not_lt] at old
    rw [origin_of_le old, view, get?_withCopies_of_le old bound]
    rfl

/-- What a holder of the target is left with stands for the target. -/
theorem origin_handleAfter (found : target.slot < declarations.size) {met : Nat}
    (room : declarations.size + met ≤ declarationKeys.capacity) :
    origin declarations target (Unsharing.handleAfter declarations target met) = target := by
  unfold Unsharing.handleAfter
  split
  case isTrue => exact origin_of_lt found
  case isFalse =>
    apply origin_of_le
    rw [Handle.slot_ofNat (by omega)]
    exact Nat.le_add_right ..

theorem separated_append (met : Nat) (first second : List Handle) :
    separated declarations target met (first ++ second) =
      separated declarations target met first ++
        separated declarations target (met + first.count target) second := by
  induction first generalizing met with
  | nil => rfl
  | cons handle rest ih =>
      rw [List.cons_append, separated, separated]
      split
      case isTrue same =>
        rw [ih, List.count_cons, same, beq_self_eq_true, if_pos rfl, List.cons_append,
          Nat.add_right_comm, Nat.add_assoc]
      case isFalse other =>
        rw [ih, List.count_cons, if_neg (by simpa using other), List.cons_append, Nat.add_zero]

namespace Stmt

theorem holders_eq_count (stmt : Stmt) (handle : Handle) :
    stmt.holders handle = stmt.handles.count handle := by
  rw [holders, handles, List.count, List.countP_filterMap]
  refine congrArg (List.countP · stmt.nodes) (funext fun node => ?_)
  cases held : node.handle? with
  | none => rfl
  | some own => exact decide_eq_decide.2 Option.some_inj

theorem length_holderSpans (stmt : Stmt) :
    (stmt.holderSpans target).length = stmt.handles.count target := by
  rw [← holders_eq_count, holderSpans, List.length_map, holders, List.countP_eq_length_filter]

theorem holderSpans_eq (stmt : Stmt) :
    stmt.holderSpans target =
      (if stmt.handle? = some target then [stmt.span] else []) ++
        stmt.nested.flatMap (holderSpans target) := by
  have below : ((stmt.nested.flatMap nodes).filter fun node => node.handle? = some target).map
      span = stmt.nested.flatMap (holderSpans target) := by
    rw [List.filter_flatMap, List.map_flatMap]
    rfl
  rw [holderSpans, nodes_eq, List.filter_cons, ← below]
  split <;> simp_all

theorem holderSpans_simple (form : Simple) (span : Span) :
    holderSpans target (.simple form span) =
      if form.handle? = some target then [span] else [] := by
  rw [holderSpans_eq]
  exact List.append_nil _

theorem handles_simple (form : Simple) (span : Span) :
    (Stmt.simple form span).handles = form.handle?.toList := by
  rw [handles_eq]
  exact List.append_nil _

theorem holderSpans_of_other {stmt : Stmt} (other : stmt.handle? = none) :
    stmt.holderSpans target = stmt.nested.flatMap (holderSpans target) := by
  rw [holderSpans_eq, other, if_neg nofun, List.nil_append]

theorem handles_of_other {stmt : Stmt} (other : stmt.handle? = none) :
    stmt.handles = stmt.nested.flatMap handles := by
  rw [handles_eq, other]
  rfl

theorem length_flatMap_holderSpans (stmts : List Stmt) :
    (stmts.flatMap (holderSpans target)).length = (stmts.flatMap handles).count target := by
  simp [List.length_flatMap, List.count_flatMap, length_holderSpans, Function.comp_def]

end Stmt

/-! ## Walks -/

namespace Unsharing

open Stmt

variable (declarations target)

/--
Wherever unsharing has come to, it walks a statement, meets the holders in it and separates them;
nothing but handles is changed.
-/
def Walks (stmt : Stmt) : Prop :=
  ∀ met : List Span,
    declarations.size + (met.length + (stmt.holderSpans target).length) ≤
        declarationKeys.capacity + 1 →
      ∃ left,
        (stmt.rewrite (visit target)).run (after declarations target met) =
            .ok (left, after declarations target (met ++ stmt.holderSpans target)) ∧
          left.relabeled (origin declarations target) = stmt ∧
          left.handles = separated declarations target met.length stmt.handles

variable {declarations target}

theorem walks_simple (found : target.slot < declarations.size) {form : Simple} {span : Span}
    (inRange : (Stmt.simple form span).InRange declarations) :
    Walks declarations target (.simple form span) := by
  intro met room
  by_cases holds : form.handle? = some target
  · obtain rfl : form = .declare target := by
      cases form <;> simp_all [Simple.handle?]
    have spans : holderSpans target (.simple (.declare target) span) = [span] := by
      rw [holderSpans_simple, if_pos holds]
    rw [spans, List.length_singleton] at room
    refine ⟨_, spans ▸ rewrite_holder found span (by omega), ?_, ?_⟩
    · rw [relabeled_simple, Simple.relabeled, origin_handleAfter found (by omega)]
    · rw [handles_simple, handles_simple, Simple.handle?, Simple.handle?, Option.toList,
        Option.toList, separated, if_pos rfl, separated]
  · have other : (Stmt.simple form span).handle? ≠ some target := holds
    refine ⟨.simple form span, ?_, ?_, ?_⟩
    · rw [rewrite, rewrite_other other, holderSpans_simple, if_neg holds, List.append_nil]
      rfl
    · cases form with
      | declare handle =>
          have old : handle.slot < declarations.size :=
            inRange handle (handles_simple .. ▸ List.mem_singleton_self handle)
          rw [relabeled_simple, Simple.relabeled, origin_of_lt old]
      | _ => rfl
    · rw [handles_simple]
      cases held : form.handle? with
      | none => rfl
      | some handle =>
          rw [held, Option.some_inj] at holds
          rw [Option.toList, separated, if_neg holds, separated]

theorem walks_list {stmts : List Stmt} (each : ∀ stmt ∈ stmts, Walks declarations target stmt)
    (met : List Span)
    (room : declarations.size + (met.length + (stmts.flatMap (holderSpans target)).length) ≤
      declarationKeys.capacity + 1) :
    ∃ left,
      (rewriteList (visit target) stmts).run (after declarations target met) =
          .ok (left, after declarations target (met ++ stmts.flatMap (holderSpans target))) ∧
        left.map (relabeled (origin declarations target)) = stmts ∧
        left.flatMap handles =
          separated declarations target met.length (stmts.flatMap handles) := by
  induction stmts generalizing met with
  | nil => exact ⟨[], by rw [List.flatMap_nil, List.append_nil]; rfl, rfl, rfl⟩
  | cons first rest ih =>
      rw [List.forall_mem_cons] at each
      rw [List.flatMap_cons, List.length_append] at room
      obtain ⟨left, ran, shape, held⟩ := each.1 met (by omega)
      obtain ⟨lefts, ranRest, shapes, heldRest⟩ := ih each.2 (met ++ first.holderSpans target)
        (by rw [List.length_append]; omega)
      refine ⟨left :: lefts, ?_, ?_, ?_⟩
      · rw [rewriteList, run_bind_of_ok ran, run_bind_of_ok ranRest, List.flatMap_cons,
          List.append_assoc]
        rfl
      · rw [List.map_cons, shape, shapes]
      · rw [List.flatMap_cons, List.flatMap_cons, separated_append, held, heldRest,
          List.length_append, length_holderSpans]

theorem walks_cases {cases : List Case}
    (each : ∀ stmt ∈ cases.flatMap Case.stmts, Walks declarations target stmt)
    (met : List Span)
    (room : declarations.size +
        (met.length + ((cases.flatMap Case.stmts).flatMap (holderSpans target)).length) ≤
      declarationKeys.capacity + 1) :
    ∃ left,
      (rewriteCases (visit target) cases).run (after declarations target met) =
          .ok (left, after declarations target
            (met ++ (cases.flatMap Case.stmts).flatMap (holderSpans target))) ∧
        left.map (Case.relabeled (origin declarations target)) = cases ∧
        (left.flatMap Case.stmts).flatMap handles =
          separated declarations target met.length
            ((cases.flatMap Case.stmts).flatMap handles) := by
  induction cases generalizing met with
  | nil => exact ⟨[], by rw [List.flatMap_nil, List.flatMap_nil, List.append_nil]; rfl, rfl, rfl⟩
  | cons first rest ih =>
      obtain ⟨label, stmts⟩ := first
      rw [List.flatMap_cons, List.forall_mem_append] at each
      rw [List.flatMap_cons, List.flatMap_append, List.length_append] at room
      obtain ⟨left, ran, shape, held⟩ := walks_list each.1 met (by omega)
      obtain ⟨lefts, ranRest, shapes, heldRest⟩ := ih each.2
        (met ++ stmts.flatMap (holderSpans target)) (by rwa [List.length_append, Nat.add_assoc])
      refine ⟨.mk label left :: lefts, ?_, ?_, ?_⟩
      · have ran : (rewriteList (visit target) stmts).run (after declarations target met) =
            .ok (left, after declarations target (met ++ stmts.flatMap (holderSpans target))) :=
          ran
        rw [rewriteCases, run_bind_of_ok ran, run_bind_of_ok ranRest, List.flatMap_cons,
          List.flatMap_append, List.append_assoc]
        rfl
      · rw [List.map_cons, shapes, Case.relabeled]
        exact congrArg (Case.mk label · :: rest) shape
      · rw [List.flatMap_cons, List.flatMap_cons, List.flatMap_append, List.flatMap_append,
          separated_append, heldRest, List.length_append, length_flatMap_holderSpans]
        exact congrArg (· ++ _) held

section Nested

variable {stmt : Stmt} (none : stmt.handle? = none)

include none

/-- A statement that holds nothing itself is walked by walking what is nested in it. -/
theorem walks_of_nested
    (nested : ∀ met : List Span,
      declarations.size + (met.length + (stmt.nested.flatMap (holderSpans target)).length) ≤
          declarationKeys.capacity + 1 →
        ∃ left,
          (stmt.rewrite (visit target)).run (after declarations target met) =
              .ok (left, after declarations target
                (met ++ stmt.nested.flatMap (holderSpans target))) ∧
            left.relabeled (origin declarations target) = stmt ∧
            left.nested.flatMap handles =
              separated declarations target met.length (stmt.nested.flatMap handles)) :
    Walks declarations target stmt := by
  intro met room
  rw [holderSpans_of_other none] at room ⊢
  obtain ⟨left, ran, shape, held⟩ := nested met room
  have noneLeft : left.handle? = .none := by
    rw [← shape, handle?_relabeled, Option.map_eq_none_iff] at none
    exact none
  refine ⟨left, ran, shape, ?_⟩
  rw [handles_of_other none, handles_of_other noneLeft, held]

/-- A statement around one other is walked by walking the other one. -/
theorem walks_of_body {body : Stmt} (combine : Stmt → Stmt) (same : stmt = combine body)
    (ofBody : Walks declarations target body)
    (nested : ∀ body, (combine body).nested = [body])
    (relabels : ∀ body, (combine body).relabeled (origin declarations target) =
      combine (body.relabeled (origin declarations target)))
    (rewrites : ∀ state, (stmt.rewrite (visit target)).run state =
      (do return combine (← body.rewrite (visit target)) :
        StateT Unsharing (Except Fault) Stmt).run state) :
    Walks declarations target stmt := by
  refine walks_of_nested none fun met room => ?_
  rw [same, nested, List.flatMap_singleton] at room
  obtain ⟨left, ran, shape, held⟩ := ofBody met room
  refine ⟨combine left, ?_, ?_, ?_⟩
  · rw [rewrites, run_bind_of_ok ran, same, nested, List.flatMap_singleton]
    rfl
  · rw [relabels, shape, same]
  · rw [same, nested, nested, List.flatMap_singleton, List.flatMap_singleton, held]

/-- A statement around two others is walked by walking the first and then the second. -/
theorem walks_of_pair {first second : Stmt} (combine : Stmt → Stmt → Stmt)
    (same : stmt = combine first second) (ofFirst : Walks declarations target first)
    (ofSecond : Walks declarations target second)
    (nested : ∀ first second, (combine first second).nested = [first, second])
    (relabels : ∀ first second,
      (combine first second).relabeled (origin declarations target) =
        combine (first.relabeled (origin declarations target))
          (second.relabeled (origin declarations target)))
    (rewrites : ∀ state, (stmt.rewrite (visit target)).run state =
      (do return combine (← first.rewrite (visit target)) (← second.rewrite (visit target)) :
        StateT Unsharing (Except Fault) Stmt).run state) :
    Walks declarations target stmt := by
  have pair {β : Type} (f : Stmt → List β) (first second : Stmt) :
      (combine first second).nested.flatMap f = f first ++ f second := by
    rw [nested, List.flatMap_cons, List.flatMap_singleton]
  refine walks_of_nested none fun met room => ?_
  rw [same, pair, List.length_append] at room
  obtain ⟨left, ran, shape, held⟩ := ofFirst met (by omega)
  obtain ⟨other, ranOther, shapeOther, heldOther⟩ := ofSecond (met ++ first.holderSpans target)
    (by rw [List.length_append]; omega)
  refine ⟨combine left other, ?_, ?_, ?_⟩
  · rw [rewrites, run_bind_of_ok ran, run_bind_of_ok ranOther, same, pair, List.append_assoc]
    rfl
  · rw [relabels, shape, shapeOther, same]
  · rw [same, pair, pair, separated_append, held, heldOther, List.length_append,
      length_holderSpans]

end Nested

/-- Unsharing walks every tree in range. -/
theorem walks (found : target.slot < declarations.size) {stmt : Stmt}
    (inRange : stmt.InRange declarations) : Walks declarations target stmt := by
  induction stmt using nestedInduction with
  | step stmt ih =>
      have below : ∀ below ∈ stmt.nested, Walks declarations target below := by
        intro below within
        refine ih below within fun handle held => ?_
        exact inRange handle (mem_handles.2 (.inr ⟨below, within, held⟩))
      have rewrites {nested : Span → StateT Unsharing (Except Fault) Stmt}
          (none : stmt.handle? = none) (state : Unsharing) :
          (visit target stmt >>= fun edit => edit.settle nested).run state =
            (nested stmt.span).run state :=
        rewrite_other (by rw [none]; exact nofun) state nested
      clear ih
      cases stmt with
      | simple form span => exact walks_simple found inRange
      | block stmts span =>
          refine walks_of_nested rfl fun met room => ?_
          obtain ⟨left, ran, shape, held⟩ := walks_list below met room
          refine ⟨.block left span, ?_, ?_, held⟩
          · rw [nested] at ran
            rw [rewrite, rewrites rfl, run_bind_of_ok ran]
            rfl
          · rw [relabeled_block, shape]
            rfl
      | doWhile body test span =>
          exact walks_of_body rfl (.doWhile · test span) rfl
            (below body (List.mem_singleton_self body)) (fun _ => rfl) (fun _ => rfl)
            fun state => rewrites rfl state
      | forLoop start test next body span =>
          cases start with
          | none =>
              exact walks_of_body rfl (.forLoop none test next · span) rfl
                (below body (List.mem_singleton_self body)) (fun _ => rfl) (fun _ => rfl)
                fun state => rewrites rfl state
          | some start =>
              exact walks_of_pair rfl (fun start body => .forLoop (some start) test next body span)
                rfl (below start List.mem_cons_self)
                (below body (List.mem_cons_of_mem _ (List.mem_singleton_self body)))
                (fun _ _ => rfl) (fun _ _ => rfl) fun state => rewrites rfl state
      | choice isStatic test yes no span =>
          cases no with
          | none =>
              exact walks_of_body rfl (.choice isStatic test · none span) rfl
                (below yes List.mem_cons_self) (fun _ => rfl) (fun _ => rfl)
                fun state => rewrites rfl state
          | some no =>
              exact walks_of_pair rfl (fun yes no => .choice isStatic test yes (some no) span) rfl
                (below yes List.mem_cons_self)
                (below no (List.mem_cons_of_mem _ (List.mem_singleton_self no)))
                (fun _ _ => rfl) (fun _ _ => rfl) fun state => rewrites rfl state
      | switch isStatic value cases span =>
          refine walks_of_nested rfl fun met room => ?_
          obtain ⟨left, ran, shape, held⟩ := walks_cases below met room
          refine ⟨.switch isStatic value left span, ?_, ?_, held⟩
          · rw [rewrite, rewrites rfl, run_bind_of_ok ran]
            rfl
          · rw [relabeled_switch, shape]
      | whileLoop test body span =>
          exact walks_of_body rfl (.whileLoop test · span) rfl
            (below body (List.mem_singleton_self body)) (fun _ => rfl) (fun _ => rfl)
            fun state => rewrites rfl state

end Unsharing

end ShaderTree
