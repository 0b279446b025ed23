import ShaderTree.Proofs.Declaration.Drafts
import ShaderTree.Proofs.Tree.Written
import ShaderTree.Sharing

/-!
# Stripping initializers

Before a declaration can be left out, the initializers of its variables are taken away, one call for each
variable.  A call changes no more than the initializer of the first variable of its name, and it hands out
what it took.  So calls may come in any order and more than once: what each variable loses, and what all
calls together hand out, is the same.  After a call for each of its names, a declaration that repeats no name
has no initializer left, and each one was handed out by one call.
-/

namespace ShaderTree

/-- A variable of a declaration, given by the handle of the declaration and by a name. -/
structure Member where
  handle : Handle
  name : String
deriving DecidableEq

/-- A call that takes an initializer away, and what it handed out. -/
structure Stripping where
  member : Member
  removed : Option Expr

namespace Declarations

/-- Takes the initializers of the given members away, one after the other. -/
def stripEach (declarations : Declarations) :
    List Member → Except Fault (List Stripping × Declarations)
  | [] => return ([], declarations)
  | member :: rest => do
      let (removed, next) ← declarations.stripInitializer member.handle member.name
      let (others, last) ← next.stripEach rest
      return (⟨member, removed⟩ :: others, last)

/-- The initializer of the first variable of a name in a declaration. -/
def initializer? (declarations : Declarations) (member : Member) : Option Expr :=
  (declarations.get? member.handle).bind fun declaration =>
    (declaration.find? member.name).bind Declarator.value

/-- The store in which a member has lost its initializer. -/
def without (declarations : Declarations) (member : Member) : Declarations :=
  ⟨declarations.slots.modify member.handle.slot (·.setValue member.name none)⟩

/-- The calls for the given members, in order, each with what it hands out. -/
def strippings (declarations : Declarations) : List Member → List Stripping
  | [] => []
  | member :: rest =>
      ⟨member, declarations.initializer? member⟩ :: (declarations.without member).strippings rest

end Declarations

/-! ## One declaration -/

namespace Declaration

/--
A declaration loses the initializer of its first variable of a name, which is handed out; where there is
no such variable, or none with an initializer, it stays as it is.
-/
inductive Strips (name : String) : Declaration → Option Expr → Declaration → Prop where
  | nothing {declaration : Declaration}
      (bare : ∀ declarator, declaration.find? name = some declarator → declarator.value = none) :
      Strips name declaration none declaration
  | initializer {modifiers : Modifiers} {baseType : Ty} {front back : List Declarator}
      {declarator : Declarator} {span : Span} {value : Expr}
      (first : ∀ other ∈ front, other.name ≠ name) (named : declarator.name = name)
      (held : declarator.value = some value) :
      Strips name ⟨modifiers, baseType, front ++ declarator :: back, span⟩ (some value)
        ⟨modifiers, baseType, front ++ { declarator with value := none } :: back, span⟩

section First

variable {name : String} {change : Declarator → Declarator}

theorem modifyFirst_of_first {front back : List Declarator} {declarator : Declarator}
    (first : ∀ other ∈ front, other.name ≠ name) (named : declarator.name = name) :
    modifyFirst name change (front ++ declarator :: back) = front ++ change declarator :: back := by
  induction front with
  | nil => exact if_pos named
  | cons other rest ih =>
      rw [List.forall_mem_cons] at first
      rw [List.cons_append, modifyFirst, if_neg first.1, ih first.2, List.cons_append]

theorem modifyFirst_of_absent {declarators : List Declarator}
    (absent : ∀ other ∈ declarators, other.name ≠ name) :
    modifyFirst name change declarators = declarators := by
  induction declarators with
  | nil => rfl
  | cons other rest ih =>
      rw [List.forall_mem_cons] at absent
      rw [modifyFirst, if_neg absent.1, ih absent.2]

variable (keeps : ∀ declarator, (change declarator).name = declarator.name)

include keeps

theorem map_name_modifyFirst (declarators : List Declarator) :
    (modifyFirst name change declarators).map Declarator.name = declarators.map Declarator.name := by
  induction declarators with
  | nil => rfl
  | cons first rest ih =>
      rw [modifyFirst]
      split
      · rw [List.map_cons, keeps, List.map_cons]
      · rw [List.map_cons, ih, List.map_cons]

/-- A change under one name is not seen under another. -/
theorem find?_modifyFirst (other : String) (declarators : List Declarator) :
    (modifyFirst name change declarators).find? (·.name = other) =
      if other = name then (declarators.find? (·.name = other)).map change
      else declarators.find? (·.name = other) := by
  induction declarators with
  | nil => simp [modifyFirst]
  | cons first rest ih =>
      rw [modifyFirst]
      split
      case isTrue named =>
        by_cases sought : first.name = other
        · simp [keeps, sought, sought ▸ named]
        · simp [keeps, sought, named ▸ Ne.symm sought]
      case isFalse unnamed =>
        by_cases sought : first.name = other
        · simp [sought, sought ▸ unnamed]
        · simp only [List.find?_cons, sought, decide_false, ih]

/-- One change under two names comes to the same in either order. -/
theorem modifyFirst_comm (other : String) (declarators : List Declarator) :
    modifyFirst other change (modifyFirst name change declarators) =
      modifyFirst name change (modifyFirst other change declarators) := by
  induction declarators with
  | nil => rfl
  | cons first rest ih =>
      by_cases named : first.name = name <;> by_cases sought : first.name = other
      · rw [← named, ← sought]
      · have apart : name ≠ other := named ▸ sought
        simp [modifyFirst, keeps, named, apart]
      · have apart : other ≠ name := sought ▸ named
        simp [modifyFirst, keeps, sought, apart]
      · simp [modifyFirst, named, sought, ih]

end First

/-- The first variable of a name has none of the name in front of it. -/
theorem find?_eq_some_iff {declaration : Declaration} {name : String} {declarator : Declarator} :
    declaration.find? name = some declarator ↔
      declarator.name = name ∧ ∃ front back,
        declaration.declarators = front ++ declarator :: back ∧
          ∀ other ∈ front, other.name ≠ name := by
  simp [find?, List.find?_eq_some_iff_append]

theorem find?_eq_none_iff {declaration : Declaration} {name : String} :
    declaration.find? name = none ↔ ∀ other ∈ declaration.declarators, other.name ≠ name := by
  simp [find?]

/-- Taking away what there is not changes nothing. -/
theorem setValue_of_bare {declaration : Declaration} {name : String}
    (bare : ∀ declarator, declaration.find? name = some declarator → declarator.value = none) :
    declaration.setValue name none = declaration := by
  obtain ⟨modifiers, baseType, declarators, span⟩ := declaration
  refine congrArg (Declaration.mk modifiers baseType · span) ?_
  cases found : find? ⟨modifiers, baseType, declarators, span⟩ name with
  | none => exact modifyFirst_of_absent (find?_eq_none_iff.1 found)
  | some declarator =>
      have held := bare declarator found
      obtain ⟨named, front, back, rfl, first⟩ := find?_eq_some_iff.1 found
      rw [modifyFirst_of_first first named, ← held]

/-- What a call does to its declaration. -/
theorem strips_setValue (declaration : Declaration) (name : String) :
    Strips name declaration ((declaration.find? name).bind Declarator.value)
      (declaration.setValue name none) := by
  cases taken : (declaration.find? name).bind Declarator.value with
  | none =>
      have bare := Option.bind_eq_none_iff.1 taken
      rw [setValue_of_bare bare]
      exact .nothing bare
  | some value =>
      obtain ⟨declarator, found, held⟩ := Option.bind_eq_some_iff.1 taken
      obtain ⟨modifiers, baseType, declarators, span⟩ := declaration
      obtain ⟨named, front, back, rfl, first⟩ := find?_eq_some_iff.1 found
      rw [setValue, modify, modifyFirst_of_first first named]
      exact .initializer first named held

theorem name_bare (declarator : Declarator) :
    ({ declarator with value := none } : Declarator).name = declarator.name :=
  rfl

/-- The other names keep the initializers of their first variables. -/
theorem value_setValue (declaration : Declaration) (name other : String) :
    ((declaration.setValue name none).find? other).bind Declarator.value =
      if other = name then none else (declaration.find? other).bind Declarator.value := by
  refine (congrArg (Option.bind · Declarator.value)
    (find?_modifyFirst name_bare other declaration.declarators)).trans ?_
  split
  · rw [Option.bind_map]
    exact Option.bind_fun_none _
  · rfl

/-- Calls for two names come to the same in either order. -/
theorem setValue_comm (declaration : Declaration) (name other : String) :
    (declaration.setValue name none).setValue other none =
      (declaration.setValue other none).setValue name none :=
  congrArg (fun declarators => { declaration with declarators })
    (modifyFirst_comm name_bare other declaration.declarators)

theorem map_name_setValue (declaration : Declaration) (name : String) :
    (declaration.setValue name none).declarators.map Declarator.name =
      declaration.declarators.map Declarator.name :=
  map_name_modifyFirst name_bare declaration.declarators

/-- Where no name is repeated, each variable is the first one of its name. -/
theorem find?_of_nodup {declaration : Declaration} {declarator : Declarator}
    (distinct : (declaration.declarators.map Declarator.name).Nodup)
    (listed : declarator ∈ declaration.declarators) :
    declaration.find? declarator.name = some declarator := by
  obtain ⟨front, back, split⟩ := List.append_of_mem listed
  rw [split, List.map_append, List.nodup_append] at distinct
  refine find?_eq_some_iff.2 ⟨rfl, front, back, split, fun other within => ?_⟩
  exact distinct.2.2 _ (List.mem_map_of_mem within) _ List.mem_cons_self

end Declaration

/-! ## One call -/

namespace Declarations

variable {declarations : Declarations} {member : Member}

/--
A call for a member takes its initializer away and hands it out; other declarations stay as they are, and
so does the whole store where there is nothing to take.
-/
structure Strips (declarations : Declarations) (member : Member) (removed : Option Expr)
    (left : Declarations) : Prop where
  own : ∃ declaration stripped,
    declarations.get? member.handle = some declaration ∧
      left.get? member.handle = some stripped ∧
      declaration.Strips member.name removed stripped
  others : ∀ handle, handle ≠ member.handle → left.get? handle = declarations.get? handle
  size : left.size = declarations.size
  unchanged : removed = none → left = declarations

@[simp] theorem size_without : (declarations.without member).size = declarations.size :=
  Array.size_modify

theorem get?_without (handle : Handle) :
    (declarations.without member).get? handle =
      if handle = member.handle then
        (declarations.get? handle).map (·.setValue member.name none)
      else declarations.get? handle := by
  have same : member.handle.slot = handle.slot ↔ handle = member.handle := by
    rw [Key.slot_inj, eq_comm]
  simp only [Store.get?, without, Array.getElem?_modify, same]

theorem stripInitializer_eq_ok (found : member.handle.slot < declarations.size) :
    declarations.stripInitializer member.handle member.name =
      .ok (declarations.initializer? member, declarations.without member) := by
  obtain ⟨declaration, present⟩ := Store.exists_get?_of_lt found
  have modified : declarations.complete (Store.modify member.handle (·.setValue member.name none)) =
      .ok ((), declarations.without member) := by
    rw [Store.complete, Store.perform_modify, if_pos found]
    rfl
  rw [stripInitializer, Store.fetch_eq_ok_iff.2 present, initializer?, present]
  change (declarations.complete _ >>= _) = _
  rw [modified]
  rfl

/-- A call does to the store what it does to its declaration. -/
theorem strips_without (found : member.handle.slot < declarations.size) :
    Strips declarations member (declarations.initializer? member) (declarations.without member) := by
  obtain ⟨declaration, present⟩ := Store.exists_get?_of_lt found
  have removed : declarations.initializer? member =
      (declaration.find? member.name).bind Declarator.value := by
    rw [initializer?, present]
    rfl
  refine ⟨⟨declaration, declaration.setValue member.name none, present, ?_, ?_⟩, ?_, size_without,
    fun nothing => ?_⟩
  · rw [get?_without, if_pos rfl, present]
    rfl
  · rw [removed]
    exact declaration.strips_setValue member.name
  · intro handle other
    rw [get?_without, if_neg other]
  · have same := Declaration.setValue_of_bare (Option.bind_eq_none_iff.1 (removed ▸ nothing))
    refine congrArg Store.mk (Array.ext_getElem? fun slot => ?_)
    rw [Array.getElem?_modify]
    split
    case isTrue own =>
      have held : declarations.slots[slot]? = some declaration := own ▸ present
      rw [held, Option.map_some, same]
    case isFalse => rfl

theorem initializer?_without (other : Member) :
    (declarations.without member).initializer? other =
      if other = member then none else declarations.initializer? other := by
  obtain ⟨handle, name⟩ := member
  obtain ⟨otherHandle, otherName⟩ := other
  rw [initializer?, get?_without, initializer?]
  by_cases own : otherHandle = handle
  · subst own
    rw [if_pos rfl]
    cases declarations.get? otherHandle with
    | none => simp
    | some declaration =>
        refine (declaration.value_setValue name otherName).trans ?_
        simp
  · simp [own]

/-- Two calls come to the same in either order. -/
theorem without_comm (first second : Member) :
    (declarations.without first).without second =
      (declarations.without second).without first := by
  refine congrArg Store.mk (Array.ext_getElem? fun slot => ?_)
  simp only [without, Array.getElem?_modify]
  cases declarations.slots[slot]? with
  | none => simp
  | some declaration =>
      split <;> split <;> simp [Declaration.setValue_comm]

/-! ## Several calls -/

/-- The calls follow each other from store to store, and each does what a call for its member does. -/
inductive StripsEach : Declarations → List Stripping → Declarations → Prop where
  | done (declarations : Declarations) : StripsEach declarations [] declarations
  | call {declarations next left : Declarations} {stripping : Stripping} {rest : List Stripping}
      (strips : Strips declarations stripping.member stripping.removed next)
      (more : StripsEach next rest left) : StripsEach declarations (stripping :: rest) left

variable {members : List Member}

theorem stripEach_eq_ok (found : ∀ member ∈ members, member.handle.slot < declarations.size) :
    declarations.stripEach members =
      .ok (declarations.strippings members, members.foldl without declarations) := by
  induction members generalizing declarations with
  | nil => rfl
  | cons first rest ih =>
      rw [List.forall_mem_cons] at found
      have foundRest : ∀ member ∈ rest, member.handle.slot < (declarations.without first).size := by
        simpa using found.2
      have more := ih foundRest
      rw [stripEach, stripInitializer_eq_ok found.1]
      change (do
        let (others, last) ← (declarations.without first).stripEach rest
        return (_ :: others, last) : Except Fault _) = _
      rw [more]
      rfl

theorem stripsEach_strippings
    (found : ∀ member ∈ members, member.handle.slot < declarations.size) :
    StripsEach declarations (declarations.strippings members) (members.foldl without declarations) := by
  induction members generalizing declarations with
  | nil => exact .done declarations
  | cons first rest ih =>
      rw [List.forall_mem_cons] at found
      exact .call (strips_without found.1) (ih (by simpa using found.2))

theorem map_member_strippings (declarations : Declarations) (members : List Member) :
    (declarations.strippings members).map Stripping.member = members := by
  induction members generalizing declarations with
  | nil => rfl
  | cons first rest ih => rw [strippings, List.map_cons, ih]

/-- A member for which there was a call has no initializer left. -/
theorem initializer?_foldl_without (declarations : Declarations) (members : List Member)
    (member : Member) :
    (members.foldl without declarations).initializer? member =
      if member ∈ members then none else declarations.initializer? member := by
  induction members generalizing declarations with
  | nil => rfl
  | cons first rest ih =>
      rw [List.foldl_cons, ih, initializer?_without]
      by_cases own : member = first <;> simp [own]

/-- Of all calls for a member the first one hands out its initializer, and no other one does. -/
theorem filterMap_strippings (declarations : Declarations) (members : List Member)
    (member : Member) :
    ((declarations.strippings members).filterMap fun stripping =>
        if stripping.member = member then stripping.removed else none) =
      if member ∈ members then (declarations.initializer? member).toList else [] := by
  induction members generalizing declarations with
  | nil => rfl
  | cons first rest ih =>
      rw [strippings, List.filterMap_cons, ih, initializer?_without]
      by_cases own : first = member
      · subst own
        cases declarations.initializer? first <;> simp
      · simp [own, Ne.symm own]

/-- In any order calls hand out the same. -/
theorem strippings_perm {others : List Member} (perm : others.Perm members) :
    (declarations.strippings others).Perm (declarations.strippings members) := by
  induction perm generalizing declarations with
  | nil => exact .refl _
  | cons first _ ih => exact ih.cons _
  | swap first second rest =>
      rw [strippings, strippings, strippings, strippings, without_comm, initializer?_without,
        initializer?_without]
      by_cases same : first = second
      · rw [same]
      · rw [if_neg same, if_neg (Ne.symm same)]
        exact .swap ..
  | trans _ _ ihFirst ihSecond => exact ihFirst.trans ihSecond

/-- In any order calls leave the same store. -/
theorem foldl_without_perm {others : List Member} (perm : others.Perm members) :
    others.foldl without declarations = members.foldl without declarations :=
  perm.foldl_eq' (fun first _ second _ _ => without_comm first second) declarations

theorem map_name_foldl_without (declarations : Declarations) (members : List Member)
    (handle : Handle) :
    ((members.foldl without declarations).get? handle).map
        (fun declaration => declaration.declarators.map Declarator.name) =
      (declarations.get? handle).map fun declaration =>
        declaration.declarators.map Declarator.name := by
  induction members generalizing declarations with
  | nil => rfl
  | cons first rest ih =>
      rw [List.foldl_cons, ih, get?_without]
      split
      case isTrue =>
        rw [Option.map_map]
        exact congrArg (Option.map · _) (funext fun declaration => declaration.map_name_setValue _)
      case isFalse => rfl

/-- Once there was a call for each of its names, a declaration that repeats none has no initializer left. -/
theorem isEmpty_foldl_without {handle : Handle} {declaration : Declaration}
    (present : declarations.get? handle = some declaration)
    (distinct : (declaration.declarators.map Declarator.name).Nodup)
    (all : ∀ declarator ∈ declaration.declarators, ⟨handle, declarator.name⟩ ∈ members) :
    ∃ stripped,
      (members.foldl without declarations).get? handle = some stripped ∧ stripped.isEmpty = true := by
  have names := map_name_foldl_without declarations members handle
  rw [present, Option.map_some, Option.map_eq_some_iff] at names
  obtain ⟨stripped, left, names⟩ := names
  refine ⟨stripped, left, List.all_eq_true.2 fun declarator listed => ?_⟩
  have named : declarator.name ∈ declaration.declarators.map Declarator.name :=
    names ▸ List.mem_map_of_mem listed
  obtain ⟨given, within, same⟩ := List.mem_map.1 named
  have gone : (members.foldl without declarations).initializer? ⟨handle, declarator.name⟩ = none := by
    rw [initializer?_foldl_without, if_pos (same ▸ all given within)]
  have found : stripped.find? declarator.name = some declarator :=
    Declaration.find?_of_nodup (names ▸ distinct) listed
  rw [initializer?, left, Option.bind_some, found, Option.bind_some] at gone
  exact Option.isNone_iff_eq_none.2 gone

/--
Calls take each initializer away once, in any order.  In a store with a slot for each of them, calls for any
members succeed one after the other, and each of them takes away, and hands out, the initializer of the first
variable of its name and changes nothing else.  In another order the same calls leave the same store, and each
hands out the same.  Where there is a call for each variable of a declaration that repeats no name, such as
every draft comes to, a statement that holds the declaration can be left out afterwards, and of the calls for
a variable with an initializer one has handed it out, and no other one has handed out anything.
-/
theorem stripEach_removes_each_once
    (found : ∀ member ∈ members, member.handle.slot < declarations.size) :
    ∃ strippings left,
      declarations.stripEach members = .ok (strippings, left) ∧
        strippings.map Stripping.member = members ∧
        StripsEach declarations strippings left ∧
        (∀ others : List Member, others.Perm members →
          ∃ reordered,
            declarations.stripEach others = .ok (reordered, left) ∧ reordered.Perm strippings) ∧
        (∀ handle declaration, declarations.get? handle = some declaration →
          (declaration.declarators.map Declarator.name).Nodup →
          (∀ declarator ∈ declaration.declarators, ⟨handle, declarator.name⟩ ∈ members) →
            (∀ span, Stmt.isEmpty left.fetch (.simple (.declare handle) span) = .ok true) ∧
              ∀ declarator ∈ declaration.declarators,
                (strippings.filterMap fun stripping =>
                  if stripping.member = ⟨handle, declarator.name⟩ then stripping.removed else none) =
                    declarator.value.toList) ∧
        ∀ {σ : Type} [NameSet σ] [LawfulNameSet σ] (draft : Draft σ) (offered : List Declarator),
          draft.IsSound →
            ((draft.offerEach offered).declaration.declarators.map Declarator.name).Nodup := by
  refine ⟨_, _, stripEach_eq_ok found, map_member_strippings declarations members,
    stripsEach_strippings found, fun others perm => ?_,
    fun handle declaration present distinct all => ⟨fun span => ?_, fun declarator listed => ?_⟩,
    fun draft offered sound => ?_⟩
  · have foundOthers : ∀ member ∈ others, member.handle.slot < declarations.size :=
      fun member listed => found member (perm.mem_iff.1 listed)
    refine ⟨_, ?_, strippings_perm perm⟩
    rw [stripEach_eq_ok foundOthers, foldl_without_perm perm]
  · obtain ⟨stripped, left, empty⟩ := isEmpty_foldl_without present distinct all
    have asked : (Stmt.simple (.declare handle) span).isEmpty (members.foldl without declarations).fetch =
        .ok stripped.isEmpty := by
      rw [Stmt.isEmpty, Simple.isEmpty, Store.fetch_eq_ok_iff.2 left]
      rfl
    rw [asked, empty]
  · have held : declarations.initializer? ⟨handle, declarator.name⟩ = declarator.value := by
      rw [initializer?, present, Option.bind_some, Declaration.find?_of_nodup distinct listed,
        Option.bind_some]
    rw [filterMap_strippings, if_pos (all declarator listed), held]
  · have kept := sound.offerEach offered
    exact kept.names ▸ kept.distinct

/-- Five calls for the variables of `int x = 0, y = x` and for `z`, which is none of them. -/
theorem stripEach_removes_each_once_of_pair :
    let declarators : List Declarator := [.set "x" (.literal (.int 0) .nowhere), .set "y" (.var "x")]
    let declarations : Declarations := .ofList [.ofDeclarators declarators]
    let member (name : String) : Member := ⟨.ofSlot 0, name⟩
    let members := [member "y", member "z", member "x", member "x", member "y"]
    (∀ member ∈ members, member.handle.slot < declarations.size) ∧
      ∃ strippings left,
        declarations.stripEach members = .ok (strippings, left) ∧
          strippings.map Stripping.removed =
            [some (.var "x"), none, some (.literal (.int 0) .nowhere), none, none] ∧
          Stmt.isEmpty left.fetch (.declares 0) = .ok true := by
  intro declarators declarations member members
  have found : ∀ member ∈ members, member.handle.slot < declarations.size := by decide
  have distinct : (declarators.map Declarator.name).Nodup := by decide
  have all : ∀ declarator ∈ declarators, member declarator.name ∈ members := by decide
  obtain ⟨strippings, left, called, -, -, -, each, -⟩ := stripEach_removes_each_once found
  have empty := (each (Handle.ofSlot 0) (.ofDeclarators declarators) rfl distinct all).1 .nowhere
  refine ⟨found, strippings, left, called, ?_, empty⟩
  cases called.symm.trans (stripEach_eq_ok found)
  rfl

end Declarations

end ShaderTree
