import Mathlib.Data.List.Sort
import Mathlib.Order.Bounds.Basic
import ShaderTree.Proofs.Elimination.Conservation
import ShaderTree.Proofs.Tree.Written

/-!
# What has to stay

A statement that could not be left out has to stay in its list.  For its sake other statements have to
stay that could be left out by themselves: the declarations whose variables it mentions, the
declarations whose variables these mention in the sizes of their own, and so on.  The least set of
positions of a list with all of them is what a sweep retains of the list, in the order of the list.

With this said of every list, what the pass leaves of a tree is told without the pass: one list after
the other, from the inside out.  The tree it tells of is the one that the pass leaves and no other
one, and no list, body or `else` branch of it is empty to no purpose.
-/

namespace ShaderTree

variable {view : View} {options : EliminationOptions}

/-! ## Positions that have to stay -/

section Retained

variable (view : View)

/-- A statement mentions a variable that another one declares itself. -/
def Stmt.Uses (user declaring : Stmt) : Prop :=
  ∃ declarator ∈ declaring.declared view, user.usesName view declarator.name = true

/--
A set of positions of a list sustains the list if it has every statement that could not be left out
and, of the others, every declaration that a later statement in the set uses, or a statement of
`outside`.
-/
structure Sustains (outside entries : List Stmt) (stays : Set Nat) : Prop where
  busy : ∀ position entry, entries[position]? = some entry → entry.idle view = false →
    position ∈ stays
  used : ∀ position entry, entries[position]? = some entry → entry.idle view = true →
    ((∃ later ∈ stays, position < later ∧ ∃ user, entries[later]? = some user ∧
        user.Uses view entry) ∨
      ∃ user ∈ outside, user.Uses view entry) →
    position ∈ stays

/-- A list is what stands at the positions that have to stay of another one, in their order. -/
def Retained (outside entries left : List Stmt) : Prop :=
  ∃ positions : List Nat,
    IsLeast {stays | Sustains view outside entries stays} {position | position ∈ positions} ∧
      positions.Pairwise (· < ·) ∧
      left.map some = positions.map (entries[·]?)

end Retained

theorem Stmt.neededBy_iff {stmt : Stmt} {later : List Stmt} :
    stmt.neededBy view later = true ↔ ∃ user ∈ later, user.Uses view stmt := by
  rw [neededBy_eq, List.any_eq_true]
  simp only [List.any_eq_true, Uses]

theorem Sustains.nil (outside : List Stmt) (stays : Set Nat) : Sustains view outside [] stays where
  busy _ _ stands := nomatch stands
  used _ _ stands := nomatch stands

/-- The first statement of a list does not matter to those behind it. -/
theorem sustains_cons {outside rest : List Stmt} {first : Stmt} {stays : Set Nat} :
    Sustains view outside (first :: rest) stays ↔
      Sustains view outside rest {position | position + 1 ∈ stays} ∧
        (first.idle view = false ∨
            (∃ later, later + 1 ∈ stays ∧ ∃ user, rest[later]? = some user ∧
              user.Uses view first) ∨
            (∃ user ∈ outside, user.Uses view first) →
          0 ∈ stays) := by
  constructor
  · intro sustains
    refine ⟨⟨fun position entry stands busy => sustains.busy (position + 1) entry stands busy, ?_⟩,
      ?_⟩
    · intro position entry stands idle used
      refine sustains.used (position + 1) entry stands idle (used.imp_left ?_)
      rintro ⟨later, staysLater, behind, user⟩
      exact ⟨later + 1, staysLater, Nat.succ_lt_succ behind, user⟩
    · intro reason
      cases idle : first.idle view with
      | false => exact sustains.busy 0 first rfl idle
      | true =>
          refine sustains.used 0 first rfl idle ?_
          rcases reason with busy | ⟨later, staysLater, user⟩ | used
          · exact absurd (idle.symm.trans busy) nofun
          · exact .inl ⟨later + 1, staysLater, later.succ_pos, user⟩
          · exact .inr used
  · rintro ⟨sustains, ofFirst⟩
    constructor
    · intro position entry stands busy
      cases position with
      | zero =>
          obtain rfl : first = entry := Option.some.inj stands
          exact ofFirst (.inl busy)
      | succ position => exact sustains.busy position entry stands busy
    · intro position entry stands idle used
      cases position with
      | zero =>
          obtain rfl : first = entry := Option.some.inj stands
          refine ofFirst (.inr (used.imp_left ?_))
          rintro ⟨later, staysLater, behind, user, standsLater, uses⟩
          obtain ⟨later, rfl⟩ := Nat.exists_eq_succ_of_ne_zero (Nat.ne_of_gt behind)
          exact ⟨later, staysLater, user, standsLater, uses⟩
      | succ position =>
          refine sustains.used position entry stands idle (used.imp_left ?_)
          rintro ⟨later, staysLater, behind, user, standsLater, uses⟩
          obtain ⟨later, rfl⟩ := Nat.exists_eq_succ_of_ne_zero (Nat.ne_zero_of_lt behind)
          exact ⟨later, staysLater, Nat.lt_of_succ_lt_succ behind, user, standsLater, uses⟩

/-- What stands at some positions of a list is found there. -/
theorem mem_of_map_some_eq {α : Type} {left entries : List α} {positions : List Nat}
    (same : left.map some = positions.map (entries[·]?)) {entry : α} :
    entry ∈ left ↔ ∃ position ∈ positions, entries[position]? = some entry := by
  have found : some entry ∈ left.map some ↔ some entry ∈ positions.map (entries[·]?) := by rw [same]
  simpa using found

/-- A statement is needed by what stands at some positions or by what comes later than all of them. -/
theorem Stmt.neededBy_append_iff {stmt : Stmt} {outside rest left : List Stmt}
    {positions : List Nat} (same : left.map some = positions.map (rest[·]?)) :
    stmt.neededBy view (left ++ outside) = true ↔
      (∃ later ∈ positions, ∃ user, rest[later]? = some user ∧ user.Uses view stmt) ∨
        ∃ user ∈ outside, user.Uses view stmt := by
  rw [neededBy_append, Bool.or_eq_true, neededBy_iff, neededBy_iff]
  refine or_congr_left ⟨?_, ?_⟩
  · rintro ⟨user, within, uses⟩
    obtain ⟨later, stays, stands⟩ := (mem_of_map_some_eq same).1 within
    exact ⟨later, stays, user, stands, uses⟩
  · rintro ⟨later, stays, user, stands, uses⟩
    exact ⟨user, (mem_of_map_some_eq same).2 ⟨later, stays, stands⟩, uses⟩

/-- A sweep of one more statement decides about it for the sake of what is retained behind it. -/
theorem Retained.cons {outside rest left : List Stmt} (retained : Retained view outside rest left)
    (first : Stmt) :
    Retained view outside (first :: rest)
      (if first.idle view && !first.neededBy view (left ++ outside) then left
        else first :: left) := by
  obtain ⟨positions, ⟨sustains, least⟩, sorted, same⟩ := retained
  have shifted (position : Nat) : position + 1 ∈ positions.map (· + 1) ↔ position ∈ positions := by
    simp
  have sortedShifted : (positions.map (· + 1)).Pairwise (· < ·) :=
    List.pairwise_map.2 (sorted.imp Nat.succ_lt_succ)
  have sameShifted : left.map some = (positions.map (· + 1)).map ((first :: rest)[·]?) := by
    rw [List.map_map, same]
    rfl
  split
  case isTrue elided =>
    rw [Bool.and_eq_true, Bool.not_eq_true', ← Bool.not_eq_true,
      Stmt.neededBy_append_iff same] at elided
    refine ⟨positions.map (· + 1), ⟨sustains_cons.2 ⟨?_, ?_⟩, ?_⟩, sortedShifted, sameShifted⟩
    · simpa only [Set.mem_ofPred_eq, shifted] using sustains
    · simp only [Set.mem_ofPred_eq, shifted, elided.1]
      rintro (busy | used)
      · cases busy
      · exact absurd used elided.2
    · intro other sustainsOther
      have behind := least (sustains_cons.1 sustainsOther).1
      intro position stays
      obtain ⟨position, within, rfl⟩ := List.mem_map.1 stays
      exact behind within
  case isFalse stays =>
    refine ⟨0 :: positions.map (· + 1), ⟨sustains_cons.2 ⟨?_, ?_⟩, ?_⟩, ?_, ?_⟩
    · simpa using sustains
    · exact fun _ => List.mem_cons_self
    · intro other sustainsOther
      obtain ⟨sustainsRest, ofFirst⟩ := sustains_cons.1 sustainsOther
      have behind := least sustainsRest
      intro position within
      rcases List.mem_cons.1 within with rfl | within
      · apply ofFirst
        cases idle : first.idle view with
        | false => exact .inl rfl
        | true =>
            rw [idle, Bool.true_and, Bool.not_eq_true, Bool.not_eq_false',
              Stmt.neededBy_append_iff same] at stays
            refine .inr (stays.imp_left ?_)
            rintro ⟨later, within, user⟩
            exact ⟨later, behind within, user⟩
      · obtain ⟨position, inRest, rfl⟩ := List.mem_map.1 within
        exact behind inRest
    · rw [List.pairwise_cons]
      refine ⟨?_, sortedShifted⟩
      rintro _ within
      obtain ⟨position, -, rfl⟩ := List.mem_map.1 within
      exact position.succ_pos
    · rw [List.map_cons, List.map_cons, sameShifted]
      rfl

/-- A sweep retains of a list what has to stay. -/
theorem retained_swept (outside entries : List Stmt) :
    Retained view outside entries (swept view outside entries) := by
  induction entries with
  | nil =>
      refine ⟨[], ⟨Sustains.nil outside _, ?_⟩, List.Pairwise.nil, rfl⟩
      rintro _ - _ ⟨⟩
  | cons first rest ih =>
      rw [swept_cons]
      exact ih.cons first

/-- One list is what has to stay of another one, and no second list is. -/
theorem Retained.unique {outside entries left other : List Stmt}
    (retained : Retained view outside entries left)
    (retainedToo : Retained view outside entries other) : left = other := by
  obtain ⟨positions, least, sorted, same⟩ := retained
  obtain ⟨positionsToo, leastToo, sortedToo, sameToo⟩ := retainedToo
  have members := Set.ext_iff.1 (least.unique leastToo)
  obtain rfl : positions = positionsToo := sorted.eq_of_mem_iff sortedToo (members ·)
  exact List.map_injective_iff.2 (Option.some_injective Stmt) (same.trans sameToo.symm)

/-! ## Trees with what has to stay -/

section Leaves

variable (view : View) (options : EliminationOptions)

mutual

/--
One tree is what has to be left of another one.  Of a list of statements there is left what has to
stay, once each statement has been left as it has to be; the start of a loop is not touched.
-/
inductive Leaves : Stmt → Stmt → Prop where
  | simple (form : Simple) (span : Span) : Leaves (.simple form span) (.simple form span)
  | block {stmts entries left : List Stmt} {span : Span}
      (each : List.Forall₂ Leaves stmts entries) (retained : Retained view [] entries left) :
      Leaves (.block stmts span) (.block left span)
  | doWhile {body left : Stmt} {test : Expr} {span : Span} (ofBody : LeavesBody body left) :
      Leaves (.doWhile body test span) (.doWhile left test span)
  | forLoop {start : Option Stmt} {test next : Option Expr} {body left : Stmt} {span : Span}
      (ofBody : LeavesBody body left) :
      Leaves (.forLoop start test next body span) (.forLoop start test next left span)
  | choice {isStatic : Bool} {test : Expr} {yes left : Stmt} {no branch : Option Stmt} {span : Span}
      (ofYes : LeavesBody yes left) (ofNo : LeavesBranch no branch) :
      Leaves (.choice isStatic test yes no span) (.choice isStatic test left branch span)
  | switch {isStatic : Bool} {value : Expr} {cases left : List Case} {span : Span}
      (ofCases : LeavesCases cases left) :
      Leaves (.switch isStatic value cases span) (.switch isStatic value left span)
  | whileLoop {test : Expr} {body left : Stmt} {span : Span} (ofBody : LeavesBody body left) :
      Leaves (.whileLoop test body span) (.whileLoop test left span)

/-- One tree is what has to be left of a body: `;` where it is empty and the options ask for it. -/
inductive LeavesBody : Stmt → Stmt → Prop where
  | collapsed {body middle : Stmt} (leaves : Leaves body middle)
      (asked : options.collapsesBodies = true) (idle : middle.idle view = true) :
      LeavesBody body (.nop middle.span)
  | stays {body left : Stmt} (leaves : Leaves body left)
      (unasked : options.collapsesBodies = true → left.idle view = false) :
      LeavesBody body left

/-- What has to be left of an `else` branch: nothing where it is empty. -/
inductive LeavesBranch : Option Stmt → Option Stmt → Prop where
  | absent : LeavesBranch none none
  | dropped {branch middle : Stmt} (leaves : Leaves branch middle)
      (idle : middle.idle view = true) : LeavesBranch (some branch) none
  | stays {branch left : Stmt} (leaves : Leaves branch left) (busy : left.idle view = false) :
      LeavesBranch (some branch) (some left)

/-- What has to be left of cases, where a statement of a case may be used by the later ones. -/
inductive LeavesCases : List Case → List Case → Prop where
  | nil : LeavesCases [] []
  | cons {label : Option Expr} {stmts entries left : List Stmt} {rest leftRest : List Case}
      (each : List.Forall₂ Leaves stmts entries)
      (retained : Retained view (rest.flatMap Case.stmts) entries left)
      (ofRest : LeavesCases rest leftRest) :
      LeavesCases (.mk label stmts :: rest) (.mk label left :: leftRest)

end

end Leaves

theorem leavesEach_iff {stmts entries : List Stmt}
    (agree : ∀ stmt ∈ stmts, ∀ left,
      Leaves view options stmt left ↔ left = stmt.pruned view options) :
    List.Forall₂ (Leaves view options) stmts entries ↔
      entries = stmts.map (Stmt.pruned view options) := by
  induction stmts generalizing entries with
  | nil => rw [List.forall₂_nil_left_iff, List.map_nil]
  | cons first rest ih =>
      rw [List.forall_mem_cons] at agree
      rw [List.forall₂_cons_left_iff, List.map_cons]
      simp only [agree.1, ih agree.2]
      constructor
      · rintro ⟨_, _, rfl, rfl, rfl⟩
        rfl
      · rintro rfl
        exact ⟨_, _, rfl, rfl, rfl⟩

/-- The statement that does nothing is known by its kind. -/
theorem Stmt.eq_nop_of_kind {stmt : Stmt} (kind : stmt.kind = .nop) : stmt = .nop stmt.span := by
  cases stmt with
  | simple form span => cases form <;> first | rfl | cases kind
  | _ => cases kind

/-- A `;` may be put in the place of a `;`, so it does not matter that the pass does not do so. -/
theorem Stmt.collapsed_eq (body : Stmt) :
    body.collapsed view options =
      if options.collapsesBodies = true ∧ body.idle view = true then .nop body.span else body := by
  unfold collapsed collapses
  by_cases kind : body.kind = .nop
  · rw [← eq_nop_of_kind kind]
    simp [kind]
  · simp [kind]

theorem leavesBody_iff {body left : Stmt}
    (agree : ∀ left, Leaves view options body left ↔ left = body.pruned view options) :
    LeavesBody view options body left ↔
      left = (body.pruned view options).collapsed view options := by
  rw [Stmt.collapsed_eq]
  constructor
  · intro leaves
    cases leaves with
    | collapsed leaves asked idle =>
        obtain rfl := (agree _).1 leaves
        rw [if_pos ⟨asked, idle⟩]
    | stays leaves unasked =>
        obtain rfl := (agree _).1 leaves
        rw [if_neg fun both => Bool.eq_false_iff.1 (unasked both.1) both.2]
  · rintro rfl
    have leaves : Leaves view options body (body.pruned view options) := (agree _).2 rfl
    split
    case isTrue both => exact .collapsed leaves both.1 both.2
    case isFalse stays =>
      exact .stays leaves fun asked => Bool.eq_false_iff.2 fun idle => stays ⟨asked, idle⟩

theorem leavesBranch_iff {no left : Option Stmt}
    (agree : ∀ branch ∈ no, ∀ left,
      Leaves view options branch left ↔ left = branch.pruned view options) :
    LeavesBranch view options no left ↔
      left = no.bind fun branch => (branch.pruned view options).kept? view := by
  constructor
  · intro leaves
    cases leaves with
    | absent => rfl
    | dropped leaves idle =>
        obtain rfl := (agree _ rfl _).1 leaves
        rw [Option.bind_some, Stmt.kept?, if_pos idle]
    | stays leaves busy =>
        obtain rfl := (agree _ rfl _).1 leaves
        rw [Option.bind_some, Stmt.kept?, if_neg (Bool.eq_false_iff.1 busy)]
  · rintro rfl
    cases no with
    | none => exact .absent
    | some branch =>
        have leaves : Leaves view options branch (branch.pruned view options) :=
          (agree branch rfl _).2 rfl
        rw [Option.bind_some, Stmt.kept?]
        split
        case isTrue idle => exact .dropped leaves idle
        case isFalse busy => exact .stays leaves (Bool.eq_false_iff.2 busy)

theorem leavesCases_iff {cases left : List Case}
    (agree : ∀ each ∈ cases, ∀ stmt ∈ each.stmts, ∀ left,
      Leaves view options stmt left ↔ left = stmt.pruned view options) :
    LeavesCases view options cases left ↔ left = prunedCases view options cases := by
  induction cases generalizing left with
  | nil =>
      constructor
      · rintro ⟨⟩
        rfl
      · rintro rfl
        exact .nil
  | cons first rest ih =>
      obtain ⟨label, stmts⟩ := first
      obtain ⟨inFirst, inRest⟩ := List.forall_mem_cons.1 agree
      rw [prunedCases_cons]
      constructor
      · intro leaves
        cases leaves with
        | cons each retained ofRest =>
            obtain rfl := (leavesEach_iff inFirst).1 each
            obtain rfl := (ih inRest).1 ofRest
            obtain rfl := retained.unique (retained_swept ..)
            rfl
      · rintro rfl
        exact .cons ((leavesEach_iff inFirst).2 rfl) (retained_swept ..) ((ih inRest).2 rfl)

/-- The pass leaves of a tree what has to be left of it, and nothing else has to be left of it. -/
theorem leaves_iff (stmt left : Stmt) :
    Leaves view options stmt left ↔ left = stmt.pruned view options := by
  induction stmt using Stmt.induction generalizing left with
  | simple form span =>
      rw [Stmt.pruned_simple]
      constructor
      · rintro ⟨⟩
        rfl
      · rintro rfl
        exact .simple form span
  | block stmts span ih =>
      rw [Stmt.pruned_block]
      constructor
      · rintro (_ | ⟨each, retained⟩)
        obtain rfl := (leavesEach_iff ih).1 each
        rw [retained.unique (retained_swept ..)]
      · rintro rfl
        exact .block ((leavesEach_iff ih).2 rfl) (retained_swept ..)
  | doWhile body test span ih =>
      rw [Stmt.pruned_doWhile]
      constructor
      · intro leaves
        cases leaves with
        | doWhile ofBody => rw [(leavesBody_iff ih).1 ofBody]
      · rintro rfl
        exact .doWhile ((leavesBody_iff ih).2 rfl)
  | forLoop start test next body span ihStart ihBody =>
      rw [Stmt.pruned_forLoop]
      constructor
      · intro leaves
        cases leaves with
        | forLoop ofBody => rw [(leavesBody_iff ihBody).1 ofBody]
      · rintro rfl
        exact .forLoop ((leavesBody_iff ihBody).2 rfl)
  | choice isStatic test yes no span ihYes ihNo =>
      rw [Stmt.pruned_choice]
      constructor
      · intro leaves
        cases leaves with
        | choice ofYes ofNo =>
            rw [(leavesBody_iff ihYes).1 ofYes, (leavesBranch_iff ihNo).1 ofNo]
      · rintro rfl
        exact .choice ((leavesBody_iff ihYes).2 rfl) ((leavesBranch_iff ihNo).2 rfl)
  | switch isStatic value cases span ih =>
      rw [Stmt.pruned_switch]
      constructor
      · intro leaves
        cases leaves with
        | switch ofCases => rw [(leavesCases_iff ih).1 ofCases]
      · rintro rfl
        exact .switch ((leavesCases_iff ih).2 rfl)
  | whileLoop test body span ih =>
      rw [Stmt.pruned_whileLoop]
      constructor
      · intro leaves
        cases leaves with
        | whileLoop ofBody => rw [(leavesBody_iff ih).1 ofBody]
      · rintro rfl
        exact .whileLoop ((leavesBody_iff ih).2 rfl)

namespace Stmt

/-! ## Nothing empty to no purpose -/

/--
A statement is tidy if it has no statements nested in it where it could be left out, no empty `else`
branch, and, where the options ask for it, no empty body but `;`.
-/
structure Tidy (view : View) (options : EliminationOptions) (node : Stmt) : Prop where
  nested : node.idle view = true → node.nested = []
  branch : ∀ isStatic test yes no span,
    node = .choice isStatic test yes (some no) span → no.idle view = false
  body : options.collapsesBodies = true → ∀ body ∈ node.bodies, body.idle view = true →
    body.kind = .nop

theorem tidy_nop (span : Span) : Tidy view options (.nop span) where
  nested _ := rfl
  branch := nofun
  body _ := List.forall_mem_nil _

/-- The pass leaves a tidy root. -/
theorem tidy_pruned (stmt : Stmt) : (stmt.pruned view options).Tidy view options where
  nested idle := nested_pruned_of_idle (by rwa [idle_pruned] at idle)
  branch := by
    intro isStatic test yes no span same
    cases stmt with
    | choice _ _ _ before _ =>
        rw [pruned_choice] at same
        injection same with _ _ _ branch _
        obtain ⟨branch, -, kept⟩ := Option.bind_eq_some_iff.1 branch
        obtain ⟨busy, rfl⟩ := kept?_eq_some_iff.1 kept
        exact busy
    | _ => simp at same
  body := by
    intro asked body within idle
    rw [bodies_pruned] at within
    obtain ⟨before, -, rfl⟩ := List.mem_map.1 within
    rw [collapsed_eq] at idle ⊢
    split at idle
    case isTrue both =>
      rw [if_pos both]
      rfl
    case isFalse stays => exact absurd ⟨asked, idle⟩ stays

/-- The pass leaves a tree of tidy statements, but for what stands in the start of a loop. -/
theorem tidy_visited_pruned (stmt : Stmt) :
    ∀ node ∈ (stmt.pruned view options).visited, node.Tidy view options := by
  have ofBody {body : Stmt}
      (tidy : ∀ node ∈ (body.pruned view options).visited, node.Tidy view options) :
      ∀ node ∈ ((body.pruned view options).collapsed view options).visited,
        node.Tidy view options := by
    rcases collapsed_eq_or (body.pruned view options) with stays | gone
    · rwa [stays]
    · rw [gone]
      exact List.forall_mem_singleton.2 (tidy_nop _)
  induction stmt using Stmt.induction with
  | simple form span => exact List.forall_mem_singleton.2 (tidy_pruned (.simple form span))
  | block stmts span ih =>
      refine forall_mem_visited_iff.2 ⟨tidy_pruned _, ?_⟩
      rw [pruned_block]
      intro below within
      obtain ⟨above, inStmts, rfl⟩ := List.mem_map.1 ((swept_sublist ..).subset within)
      exact ih above inStmts
  | doWhile body test span ih =>
      refine forall_mem_visited_iff.2 ⟨tidy_pruned _, ?_⟩
      rw [pruned_doWhile]
      exact List.forall_mem_singleton.2 (ofBody ih)
  | forLoop start test next body span ihStart ihBody =>
      refine forall_mem_visited_iff.2 ⟨tidy_pruned _, ?_⟩
      rw [pruned_forLoop]
      exact List.forall_mem_singleton.2 (ofBody ihBody)
  | choice isStatic test yes no span ihYes ihNo =>
      refine forall_mem_visited_iff.2 ⟨tidy_pruned _, ?_⟩
      rw [pruned_choice]
      refine List.forall_mem_cons.2 ⟨ofBody ihYes, fun below within => ?_⟩
      obtain ⟨branch, present, kept⟩ := Option.bind_eq_some_iff.1 (Option.mem_toList.1 within)
      obtain ⟨-, rfl⟩ := kept?_eq_some_iff.1 kept
      exact ihNo branch present
  | switch isStatic value cases span ih =>
      refine forall_mem_visited_iff.2 ⟨tidy_pruned _, ?_⟩
      rw [pruned_switch]
      intro below within
      obtain ⟨above, inCases, rfl⟩ := mem_prunedCases within
      obtain ⟨each, inCases, inStmts⟩ := List.mem_flatMap.1 inCases
      exact ih each inCases above inStmts
  | whileLoop test body span ih =>
      refine forall_mem_visited_iff.2 ⟨tidy_pruned _, ?_⟩
      rw [pruned_whileLoop]
      exact List.forall_mem_singleton.2 (ofBody ih)

/-! ## The elimination -/

/--
An elimination that is switched on leaves what has to be left, and nothing but this could have to be
left: on a tree in range, of every list outside the starts of loops, the statements at the least set
of positions that sustains the list, in their order.  The tree that it leaves is tidy.
-/
theorem eliminateEmpty_leaves_what_has_to_stay {declarations : Declarations} {body : Stmt}
    (inRange : body.InRange declarations) (asked : options.eliminates = true)
    (diagnostics : Diagnostics) :
    ∃ result,
      body.eliminateEmpty declarations.fetch options diagnostics = .ok result ∧
        (∀ left, Leaves declarations.view options body left ↔ left = result.body) ∧
        ∀ node ∈ result.body.visited, node.Tidy declarations.view options := by
  refine ⟨_, inRange.eliminateEmpty_of_asked asked diagnostics, leaves_iff body, ?_⟩
  exact tidy_visited_pruned body

/--
Of `switch (n) { case 1: int x; int y[x]; { int z; } default: y; }` the elimination leaves `int x;`
and `int y[x];`, the one for the sake of the other, and that for the sake of the later case.
-/
theorem eliminateEmpty_leaves_what_has_to_stay_of_switch :
    let declarations : Declarations := .ofList
      [.ofDeclarators [.sized "x" []], .ofDeclarators [.sized "y" [.var "x"]],
        .ofDeclarators [.sized "z" []]]
    let body : Stmt := .switch false (.var "n")
      [.mk (some (.literal (.int 1) .nowhere)) [.declares 0, .declares 1, .ofList [.declares 2]],
        .mk none [.simple (.evaluate (.var "y")) .nowhere]] .nowhere
    body.InRange declarations ∧ ({} : EliminationOptions).eliminates = true ∧
      ∃ result,
        body.eliminateEmpty declarations.fetch {} {} = .ok result ∧
          (∀ left, Leaves declarations.view {} body left ↔ left = result.body) ∧
          (∀ node ∈ result.body.visited, node.Tidy declarations.view {}) ∧
          result.body.handles = [.ofSlot 0, .ofSlot 1] := by
  intro declarations body
  have inRange : body.InRange declarations := by decide
  have asked : ({} : EliminationOptions).eliminates = true := rfl
  obtain ⟨result, ran, leaves, tidy⟩ := eliminateEmpty_leaves_what_has_to_stay inRange asked {}
  have left : body.pruned declarations.view {} = result.body :=
    (leaves _).1 ((leaves_iff body _).2 rfl)
  refine ⟨inRange, asked, result, ran, leaves, tidy, ?_⟩
  rw [← left]
  decide

end Stmt

end ShaderTree
