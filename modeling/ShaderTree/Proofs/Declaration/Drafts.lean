import Mathlib.Data.List.Nodup
import ShaderTree.Declaration.Draft

/-!
# Drafts

Declarators are offered to a draft one after the other.  It takes in the first one of each name and
refuses the others, which leave it as it was.  The names of a draft and its declarators are kept apart,
but they stay in step, so that a draft refuses exactly the names that its declarators have.  What it comes
to in the end is the list of the declarators that were offered, without the repeated names.
-/

namespace ShaderTree

namespace Draft

variable {σ : Type}

/-! ## Finishing a draft -/

section Finish

variable {draft : Draft σ} {declarations : Declarations}

theorem perform_finish_of_nil (empty : draft.declarators = []) :
    declarations.perform draft.finish =
      (.ok (.error (.withoutDeclarators draft.span)), declarations) := by
  rw [finish, if_pos (List.isEmpty_iff.2 empty)]
  rfl

/-- A draft with a declarator goes into the store as its declaration does. -/
theorem perform_finish_of_insert (filled : draft.declarators ≠ []) {handle : Handle}
    {grown : Declarations}
    (inserted : declarations.perform (Store.insert draft.declaration) = (.ok handle, grown)) :
    declarations.perform draft.finish = (.ok (.ok handle), grown) := by
  rw [finish, if_neg (mt List.isEmpty_iff.1 filled), Store.perform_bind, inserted]
  rfl

theorem perform_finish_of_full (filled : draft.declarators ≠ [])
    (full : declarationKeys.capacity ≤ declarations.size) :
    declarations.perform draft.finish = (.error .storeFull, declarations) := by
  rw [finish, if_neg (mt List.isEmpty_iff.1 filled), Store.perform_bind,
    Store.perform_insert_of_full full]

/-- A draft is not finished if and only if it has no declarator, and then the store is left as it was. -/
theorem perform_finish_eq_error_iff {error : DraftError} {left : Declarations} :
    declarations.perform draft.finish = (.ok (.error error), left) ↔
      draft.declarators = [] ∧ error = .withoutDeclarators draft.span ∧ left = declarations := by
  by_cases empty : draft.declarators = []
  · rw [perform_finish_of_nil empty, Prod.mk.injEq, Except.ok.injEq, Except.error.injEq,
      and_iff_right empty, eq_comm, eq_comm (a := declarations)]
  · refine iff_of_false ?_ fun ⟨bare, _⟩ => empty bare
    by_cases room : declarations.size < declarationKeys.capacity
    · obtain ⟨handle, grown, inserted, -⟩ := Store.exists_insert room draft.declaration
      rw [perform_finish_of_insert empty inserted]
      exact nofun
    · rw [perform_finish_of_full empty (Nat.not_lt.1 room)]
      exact nofun

end Finish

/-! ## Offers -/

variable [NameSet σ]

/-- What is left of a draft once a declarator was offered, whether it was taken in or refused. -/
def offer (draft : Draft σ) (declarator : Declarator) : Draft σ :=
  (draft.declare declarator).2

/-- What is left of a draft once the declarators were offered in order. -/
def offerEach (draft : Draft σ) (offered : List Declarator) : Draft σ :=
  offered.foldl offer draft

/-- The declarators that are taken in when they are offered in order. -/
def accepted (draft : Draft σ) : List Declarator → List Declarator
  | [] => []
  | first :: rest =>
      match draft.declare first with
      | (.ok _, next) => first :: next.accepted rest
      | (.error _, next) => next.accepted rest

variable [LawfulNameSet σ] {draft : Draft σ} {declarator : Declarator}

/-- A declarator whose name is taken is refused, and the draft is left as it was. -/
theorem declare_of_mem (taken : declarator.name ∈ draft.declaredNames) :
    draft.declare declarator =
      (.error (.redeclared declarator.name declarator.span), draft) := by
  rw [declare, LawfulNameSet.insert_of_mem taken]
  rfl

theorem declare_of_not_mem (new : declarator.name ∉ draft.declaredNames) :
    ∃ names,
      NameSet.toList names = draft.declaredNames ++ [declarator.name] ∧
        draft.declare declarator =
          (.ok (), { draft with names, declarators := draft.declarators ++ [declarator] }) := by
  refine ⟨_, LawfulNameSet.toList_insert_of_not_mem new, ?_⟩
  rw [declare]
  exact if_pos (LawfulNameSet.insert_fst_of_not_mem new)

/-- A declarator is refused for its name, and the error lies where the declarator stands. -/
theorem declare_eq_error_iff {error : DraftError} {left : Draft σ} :
    draft.declare declarator = (.error error, left) ↔
      declarator.name ∈ draft.declaredNames ∧
        error = .redeclared declarator.name declarator.span ∧ left = draft := by
  by_cases taken : declarator.name ∈ draft.declaredNames
  · rw [declare_of_mem taken, Prod.mk.injEq, Except.error.injEq, and_iff_right taken, eq_comm,
      eq_comm (a := draft)]
  · obtain ⟨names, -, declared⟩ := declare_of_not_mem taken
    rw [declared]
    exact iff_of_false nofun fun ⟨held, _⟩ => taken held

theorem offer_of_mem (taken : declarator.name ∈ draft.declaredNames) :
    draft.offer declarator = draft := by
  rw [offer, declare_of_mem taken]

theorem offer_of_not_mem (new : declarator.name ∉ draft.declaredNames) :
    ∃ names,
      NameSet.toList names = draft.declaredNames ++ [declarator.name] ∧
        draft.offer declarator =
          { draft with names, declarators := draft.declarators ++ [declarator] } := by
  obtain ⟨names, walked, declared⟩ := declare_of_not_mem new
  exact ⟨names, walked, congrArg Prod.snd declared⟩

theorem declaredNames_offer (new : declarator.name ∉ draft.declaredNames) :
    (draft.offer declarator).declaredNames = draft.declaredNames ++ [declarator.name] := by
  obtain ⟨names, walked, left⟩ := offer_of_not_mem new
  rw [left]
  exact walked

theorem declarators_offer (new : declarator.name ∉ draft.declaredNames) :
    (draft.offer declarator).declarators = draft.declarators ++ [declarator] := by
  obtain ⟨names, -, left⟩ := offer_of_not_mem new
  rw [left]

theorem accepted_cons_of_mem (taken : declarator.name ∈ draft.declaredNames)
    (rest : List Declarator) : draft.accepted (declarator :: rest) = draft.accepted rest := by
  rw [accepted, declare_of_mem taken]

theorem accepted_cons_of_not_mem (new : declarator.name ∉ draft.declaredNames)
    (rest : List Declarator) :
    draft.accepted (declarator :: rest) = declarator :: (draft.offer declarator).accepted rest := by
  obtain ⟨names, -, declared⟩ := declare_of_not_mem new
  rw [accepted, offer, declared]

/-! ## Names and declarators stay in step -/

/-- The names of a draft are those of its declarators, each of them once. -/
structure IsSound (draft : Draft σ) : Prop where
  names : draft.declaredNames = draft.declarators.map Declarator.name
  distinct : draft.declaredNames.Nodup

theorem IsSound.new (modifiers : Modifiers) (baseType : Ty) (span : Span) :
    (new modifiers baseType span : Draft σ).IsSound where
  names := LawfulNameSet.toList_empty
  distinct := by
    rw [declaredNames, Draft.new, LawfulNameSet.toList_empty]
    exact List.nodup_nil

theorem IsSound.offer (sound : draft.IsSound) (declarator : Declarator) :
    (draft.offer declarator).IsSound := by
  by_cases taken : declarator.name ∈ draft.declaredNames
  · rw [offer_of_mem taken]
    exact sound
  · constructor
    · rw [declaredNames_offer taken, declarators_offer taken, sound.names, List.map_append]
      rfl
    · rw [declaredNames_offer taken]
      refine List.nodup_append.2 ⟨sound.distinct, List.nodup_singleton _, ?_⟩
      rintro name listed other within rfl
      rw [List.mem_singleton] at within
      exact taken (within ▸ listed)

theorem IsSound.offerEach (sound : draft.IsSound) (offered : List Declarator) :
    (draft.offerEach offered).IsSound := by
  induction offered generalizing draft with
  | nil => exact sound
  | cons first rest ih => exact ih (sound.offer first)

/-- Offers add what is taken in, with its names, and change nothing else. -/
theorem offerEach_eq (draft : Draft σ) (offered : List Declarator) :
    ∃ names,
      NameSet.toList names =
          draft.declaredNames ++ (draft.accepted offered).map Declarator.name ∧
        draft.offerEach offered =
          { draft with names, declarators := draft.declarators ++ draft.accepted offered } := by
  induction offered generalizing draft with
  | nil => exact ⟨draft.names, by simp [declaredNames, accepted], by simp [offerEach, accepted]⟩
  | cons first rest ih =>
      obtain ⟨names, walked, left⟩ := ih (draft.offer first)
      rw [offerEach, List.foldl_cons, ← offerEach, left]
      by_cases taken : first.name ∈ draft.declaredNames
      · rw [accepted_cons_of_mem taken]
        rw [offer_of_mem taken] at walked ⊢
        exact ⟨names, walked, rfl⟩
      · rw [accepted_cons_of_not_mem taken]
        obtain ⟨_, -, next⟩ := offer_of_not_mem taken
        refine ⟨names, ?_, ?_⟩
        · rw [walked, declaredNames_offer taken, List.map_cons, List.append_assoc]
          rfl
        · rw [declarators_offer taken, List.append_assoc, next]
          rfl

/-! ## The first declarator of each name -/

/-- Whether two declarators have the same name. -/
def sameName (first second : Declarator) : Bool :=
  first.name == second.name

theorem any_sameName (declarators : List Declarator) (declarator : Declarator) :
    declarators.any (sameName declarator) = true ↔
      declarator.name ∈ declarators.map Declarator.name := by
  simp only [sameName, List.any_eq_true, List.mem_map, beq_iff_eq]
  exact exists_congr fun held => and_congr_right fun _ => eq_comm

/-- What a draft holds in the end is found by erasing repeated names behind what it held before. -/
theorem IsSound.loop_declarators (sound : draft.IsSound) (offered : List Declarator) :
    List.eraseDupsBy.loop sameName offered draft.declarators.reverse =
      draft.declarators ++ draft.accepted offered := by
  induction offered generalizing draft with
  | nil => simp [List.eraseDupsBy.loop, accepted]
  | cons first rest ih =>
      by_cases taken : first.name ∈ draft.declaredNames
      · have found : draft.declarators.reverse.any (sameName first) = true := by
          rwa [List.any_reverse, any_sameName, ← sound.names]
        rw [List.eraseDupsBy.loop, found, accepted_cons_of_mem taken]
        exact ih sound
      · have missing : draft.declarators.reverse.any (sameName first) = false := by
          rwa [List.any_reverse, Bool.eq_false_iff, Ne, any_sameName, ← sound.names]
        have next := ih (sound.offer first)
        rw [declarators_offer taken, List.reverse_append, List.append_assoc] at next
        rw [List.eraseDupsBy.loop, missing, accepted_cons_of_not_mem taken]
        exact next

/-- Erasing repeated names from declarators erases repeated elements from the list of the names. -/
theorem map_loop_sameName (offered held : List Declarator) :
    (List.eraseDupsBy.loop sameName offered held).map Declarator.name =
      List.eraseDupsBy.loop (· == ·) (offered.map Declarator.name)
        (held.map Declarator.name) := by
  induction offered generalizing held with
  | nil => simp [List.eraseDupsBy.loop]
  | cons first rest ih =>
      have agree : (held.map Declarator.name).any (first.name == ·) = held.any (sameName first) :=
        List.any_map
      rw [List.map_cons, List.eraseDupsBy.loop, List.eraseDupsBy.loop, agree]
      split
      · exact ih held
      · exact ih (first :: held)

/-- The first declarator of a name is the same before and after the declarators are offered. -/
theorem IsSound.find?_append (sound : draft.IsSound) (offered : List Declarator) (name : String) :
    (draft.declarators ++ draft.accepted offered).find? (fun declarator => declarator.name = name) =
      (draft.declarators ++ offered).find? fun declarator => declarator.name = name := by
  induction offered generalizing draft with
  | nil => rfl
  | cons first rest ih =>
      by_cases taken : first.name ∈ draft.declaredNames
      · rw [accepted_cons_of_mem taken, ih sound, List.find?_append, List.find?_append]
        by_cases same : first.name = name
        · rw [sound.names, List.mem_map] at taken
          obtain ⟨held, listed, named⟩ := taken
          have found : (draft.declarators.find? fun declarator => declarator.name = name).isSome :=
            List.find?_isSome.2 ⟨held, listed, decide_eq_true (named.trans same)⟩
          rw [Option.or_of_isSome found, Option.or_of_isSome found]
        · rw [List.find?_cons, decide_eq_false same]
      · have next := ih (sound.offer first)
        rw [declarators_offer taken] at next
        rw [accepted_cons_of_not_mem taken]
        simpa using next

/-! ## What a draft keeps -/

/--
A draft keeps exactly the first declarator of each name, whatever lawful set its names are in.  After
any offers, the next one is refused if and only if its name was accepted before; the error lies where the
refused declarator stands, and the draft is left as it was.  The names of the draft are those of the
accepted declarators, in order and without repetition, and both are the offered ones without the repeated
names.  The draft cannot be finished if and only if nothing was accepted, and then the store is left as it
was.  Else, in a store with room, it takes one new slot, which holds the accepted declarators as they were
offered, so that each offered name is found where it was offered first.
-/
theorem keeps_first_of_each_name (modifiers : Modifiers) (baseType : Ty) (span : Span)
    (offered : List Declarator) :
    let fresh : Draft σ := .new modifiers baseType span
    let draft := fresh.offerEach offered
    let accepted := fresh.accepted offered
    (∀ next error left, draft.declare next = (.error error, left) ↔
        next.name ∈ accepted.map Declarator.name ∧
          error = .redeclared next.name next.span ∧
          error.diagnostic = ⟨.error,
            "'" ++ next.name ++ "' is already declared in this declaration", some next.span⟩ ∧
          left = draft) ∧
      draft.declaredNames = accepted.map Declarator.name ∧ draft.declaredNames.Nodup ∧
      draft.declaredNames = (offered.map Declarator.name).eraseDups ∧
      accepted = offered.eraseDupsBy sameName ∧
      ∀ declarations : Declarations,
        (∀ error left, declarations.perform draft.finish = (.ok (.error error), left) ↔
            accepted = [] ∧ error = .withoutDeclarators span ∧
              error.diagnostic =
                ⟨.error, "declaration must declare at least one variable", some span⟩ ∧
              left = declarations) ∧
          (accepted ≠ [] → declarations.size < declarationKeys.capacity →
            ∃ handle left, declarations.perform draft.finish = (.ok (.ok handle), left) ∧
              handle.slot = declarations.size ∧ left.size = declarations.size + 1 ∧
              left.get? handle = some ⟨modifiers, baseType, accepted, span⟩ ∧
              (∀ other, other ≠ handle → left.get? other = declarations.get? other) ∧
              ∀ name, Declaration.find? ⟨modifiers, baseType, accepted, span⟩ name =
                offered.find? fun declarator => declarator.name = name) := by
  intro fresh draft accepted
  have sound : fresh.IsSound := .new modifiers baseType span
  obtain ⟨walk, walked, left⟩ := offerEach_eq fresh offered
  have begun : fresh.declaredNames = [] := sound.names
  have names : draft.declaredNames = accepted.map Declarator.name := by
    change (fresh.offerEach offered).declaredNames = _
    rw [left]
    exact walked.trans (by rw [begun]; rfl)
  have held : draft.declarators = accepted := congrArg declarators left
  have own : draft.declaration = ⟨modifiers, baseType, accepted, span⟩ := congrArg declaration left
  have place : draft.span = span := congrArg Draft.span left
  have firsts : accepted = offered.eraseDupsBy sameName := (sound.loop_declarators offered).symm
  refine ⟨fun next error left => ?_, names, (sound.offerEach offered).distinct, ?_, firsts,
    fun declarations => ⟨fun error left => ?_, fun filled room => ?_⟩⟩
  · rw [declare_eq_error_iff, names]
    refine and_congr_right fun _ => and_congr_right fun same => (and_iff_right ?_).symm
    rw [same]
    rfl
  · rw [names, firsts]
    exact map_loop_sameName offered []
  · rw [perform_finish_eq_error_iff, held, place]
    refine and_congr_right fun _ => and_congr_right fun same => (and_iff_right ?_).symm
    rw [same]
    rfl
  · obtain ⟨handle, grown, inserted, slot, size⟩ := Store.exists_insert room draft.declaration
    have reads := Store.get?_of_insert inserted
    rw [own] at reads
    refine ⟨handle, grown, perform_finish_of_insert (held ▸ filled) inserted, slot, size, ?_,
      fun other ne => ?_, sound.find?_append offered⟩
    · rw [reads, if_pos rfl]
    · rw [reads, if_neg ne]

/--
Of `x`, `y` and a second `x`, a draft whose names are in a list keeps the first two, refuses the third
where it stands, and goes into the first slot of an empty store.  Of nothing, no declaration comes about.
-/
theorem keeps_first_of_each_name_of_repeated :
    let int : Ty := .single (.scalar .int) .nowhere
    let declared (name : String) (offset : UInt32) : Declarator :=
      ⟨name, int, [], none, ⟨offset, 1⟩⟩
    let fresh : Draft (List String) := .new {} int ⟨4, 9⟩
    let draft := fresh.offerEach [declared "x" 8, declared "y" 11]
    let declarations : Declarations := {}
    draft.declare (declared "x" 14) = (.error (.redeclared "x" ⟨14, 1⟩), draft) ∧
      draft.declaredNames = ["x", "y"] ∧
      declarations.perform fresh.finish =
        (.ok (.error (.withoutDeclarators ⟨4, 9⟩)), declarations) ∧
      declarations.size < declarationKeys.capacity ∧
      ∃ handle left,
        declarations.perform draft.finish = (.ok (.ok handle), left) ∧
          handle.slot = 0 ∧ left.size = 1 ∧
          left.get? handle = some ⟨{}, int, [declared "x" 8, declared "y" 11], ⟨4, 9⟩⟩ := by
  intro int declared fresh draft declarations
  have room : declarations.size < declarationKeys.capacity := by decide
  obtain ⟨-, -, -, -, -, nothing⟩ := @keeps_first_of_each_name (List String) _ _ {} int ⟨4, 9⟩ []
  obtain ⟨refuses, names, -, -, -, each⟩ := @keeps_first_of_each_name (List String) _ _ {} int
    ⟨4, 9⟩ [declared "x" 8, declared "y" 11]
  obtain ⟨handle, left, finished, slot, size, reads, -⟩ := (each declarations).2 nofun room
  exact ⟨(refuses (declared "x" 14) _ _).2 ⟨List.mem_cons_self, rfl, rfl, rfl⟩, names,
    ((nothing declarations).1 _ _).2 ⟨rfl, rfl, rfl, rfl⟩, room, handle, left, finished, slot, size,
    reads⟩

end Draft

end ShaderTree
