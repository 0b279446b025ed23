import ShaderTree.Proofs.Declaration.Drafts
import ShaderTree.Proofs.Elimination.Positions
import ShaderTree.Proofs.Elimination.Survivors
import ShaderTree.Proofs.Sharing.Capacity
import ShaderTree.Proofs.Sharing.Privacy
import ShaderTree.Proofs.Tree.Written

/-!
# Sessions

A session begins with an empty store.  Declarations are put into the store, statements are built from
the handles that the store gave out, and the statements and the declarations are worked on, in any order
and for any length of time.  A handle is given out for a slot, a slot is never given up, and nothing that
is done to a statement leaves it a handle from elsewhere.  So no handle of a session dangles, and whatever
is asked of the session is done, unless the store has no key left for a slot that it takes.
-/

namespace ShaderTree

/-- A store, the handles and the statements at hand, and what the author of the shader was told. -/
structure Session where
  declarations : Declarations := {}
  handles : List Handle := []
  stmts : List Stmt := []
  diagnostics : Diagnostics := {}

/-- What may be asked of a session.  A place is one of its list of statements. -/
inductive Request : Type 1 where
  /-- A declaration is put into the store. -/
  | store (declaration : Declaration)
  /-- A declaration that was put together, with any set of names, is put into the store. -/
  | finish {σ : Type} (draft : Draft σ)
  /-- A handle is read off a statement, and is at hand from then on. -/
  | keep (handle : Handle)
  /-- A handle is made a statement, which stands where its declaration stands. -/
  | wrap (handle : Handle)
  /-- A statement of any kind is built. -/
  | build (stmt : Stmt)
  | duplicate (place : Nat)
  | eliminate (place : Nat) (options : EliminationOptions)
  | unshare (place : Nat) (target : Handle)
  | rewrite (target : Handle) (rewrite : Rewrite)
  | describe (place : Nat)
  | isEmpty (place : Nat)
  | mentions (place : Nat) (name : String)

namespace Session

/-- A handle is at hand, or a statement at hand holds it. -/
def Obtained (session : Session) (handle : Handle) : Prop :=
  handle ∈ session.handles ∨ ∃ stmt ∈ session.stmts, handle ∈ stmt.handles

/-- A request names no handle, and builds with none, that was not obtained. -/
def Admits (session : Session) : Request → Prop
  | .keep handle | .wrap handle | .unshare _ handle | .rewrite handle _ =>
      session.Obtained handle
  | .build stmt => ∀ handle ∈ stmt.handles, session.Obtained handle
  | .store _ | .finish _ | .duplicate _ | .eliminate _ _ | .describe _ | .isEmpty _
  | .mentions _ _ => True

/-- Goes on with the statement at a place; where there is none, nothing is done. -/
def onStmt (session : Session) (place : Nat) (next : Stmt → Except Fault Session) :
    Except Fault Session :=
  match session.stmts[place]? with
  | some stmt => next stmt
  | none => .ok session

/-- Takes in a declaration that the store has given a handle for. -/
def takeIn (session : Session) (stored : Handle × Declarations) : Session :=
  { session with declarations := stored.2, handles := session.handles ++ [stored.1] }

/-- Takes in one more statement. -/
def add (session : Session) (stmt : Stmt) : Session :=
  { session with stmts := session.stmts ++ [stmt] }

/-- Puts a statement in the place of another one. -/
def put (session : Session) (place : Nat) (stmt : Stmt) : Session :=
  { session with stmts := session.stmts.set place stmt }

/-- Does what a request asks for. -/
def carryOut (session : Session) : Request → Except Fault Session
  | .store declaration => do
      return session.takeIn (← session.declarations.complete (Store.insert declaration))
  | .finish draft => do
      let (finished, declarations) ← session.declarations.complete draft.finish
      match finished with
      | .ok handle => return session.takeIn (handle, declarations)
      | .error error =>
          return { session with
            declarations
            diagnostics := session.diagnostics.push error.diagnostic }
  | .keep handle => return { session with handles := session.handles ++ [handle] }
  | .wrap handle => do
      return session.add (← Stmt.ofHandle session.declarations.fetch handle)
  | .build stmt => return session.add stmt
  | .duplicate place => session.onStmt place fun stmt => return session.add stmt.duplicate.1
  | .eliminate place options => session.onStmt place fun stmt => do
      let result ← stmt.eliminateEmpty session.declarations.fetch options session.diagnostics
      return { session.put place result.body with diagnostics := result.diagnostics }
  | .unshare place target => session.onStmt place fun stmt => do
      let (left, state) ← stmt.unshare session.declarations target
      return { session.put place left with declarations := state.declarations }
  | .rewrite target rewrite => do
      return { session with declarations := ← rewrite.apply target session.declarations }
  | .describe place => session.onStmt place fun stmt => do
      let _ ← stmt.text session.declarations.fetch
      return session
  | .isEmpty place => session.onStmt place fun stmt => do
      let _ ← stmt.isEmpty session.declarations.fetch
      return session
  | .mentions place name => session.onStmt place fun stmt => do
      let _ ← stmt.mentions session.declarations.fetch name
      return session

/-- The number of slots that a request takes. -/
def demand (session : Session) : Request → Nat
  | .store _ => 1
  | .finish draft => if draft.declarators.isEmpty then 0 else 1
  | .unshare place target => (session.stmts[place]?).elim 0 fun stmt => stmt.holders target - 1
  | .keep _ | .wrap _ | .build _ | .duplicate _ | .eliminate _ _ | .rewrite _ _ | .describe _
  | .isEmpty _ | .mentions _ _ => 0

/-- The sessions that any admissible requests, one after the other, lead to from an empty store. -/
inductive Reached : Session → Prop where
  | start (diagnostics : Diagnostics) : Reached { diagnostics }
  | step {session next : Session} (reached : Reached session) (request : Request)
      (admitted : session.Admits request) (done : session.carryOut request = .ok next) :
      Reached next

/-! ## Soundness -/

/-- No handle of a session dangles, and its store is no larger than its keys admit. -/
structure Sound (session : Session) : Prop where
  fits : session.declarations.size ≤ declarationKeys.capacity
  handles : ∀ handle ∈ session.handles, handle.slot < session.declarations.size
  stmts : ∀ stmt ∈ session.stmts, stmt.InRange session.declarations

namespace Sound

variable {session : Session}

theorem start (diagnostics : Diagnostics) : Sound { diagnostics } where
  fits := Nat.zero_le _
  handles := List.forall_mem_nil _
  stmts := List.forall_mem_nil _

variable (sound : session.Sound)

include sound

theorem slot_lt {handle : Handle} (obtained : session.Obtained handle) :
    handle.slot < session.declarations.size := by
  rcases obtained with atHand | ⟨stmt, within, held⟩
  · exact sound.handles handle atHand
  · exact sound.stmts stmt within handle held

theorem inRange_of_getElem? {place : Nat} {stmt : Stmt} (stands : session.stmts[place]? = some stmt) :
    stmt.InRange session.declarations :=
  sound.stmts stmt (List.mem_of_getElem? stands)

/-- A store may grow, as long as there are keys for its slots. -/
theorem grow {grown : Declarations} (more : session.declarations.size ≤ grown.size)
    (fits : grown.size ≤ declarationKeys.capacity) :
    Sound { session with declarations := grown } where
  fits := fits
  handles handle atHand := Nat.lt_of_lt_of_le (sound.handles handle atHand) more
  stmts stmt within handle held := Nat.lt_of_lt_of_le (sound.stmts stmt within handle held) more

theorem hold {handle : Handle} (found : handle.slot < session.declarations.size) :
    Sound { session with handles := session.handles ++ [handle] } where
  fits := sound.fits
  handles := List.forall_mem_append.2 ⟨sound.handles, List.forall_mem_singleton.2 found⟩
  stmts := sound.stmts

theorem add {stmt : Stmt} (inRange : stmt.InRange session.declarations) :
    (session.add stmt).Sound where
  fits := sound.fits
  handles := sound.handles
  stmts := List.forall_mem_append.2 ⟨sound.stmts, List.forall_mem_singleton.2 inRange⟩

theorem put {stmt : Stmt} (place : Nat) (inRange : stmt.InRange session.declarations) :
    (session.put place stmt).Sound where
  fits := sound.fits
  handles := sound.handles
  stmts other within := by
    rcases List.mem_or_eq_of_mem_set within with stood | rfl
    · exact sound.stmts other stood
    · exact inRange

theorem tell (diagnostics : Diagnostics) : Sound { session with diagnostics } where
  fits := sound.fits
  handles := sound.handles
  stmts := sound.stmts

/-! ## Requests that are carried out -/

theorem exists_insert (room : session.declarations.size + 1 ≤ declarationKeys.capacity)
    (declaration : Declaration) :
    ∃ handle grown,
      session.declarations.perform (Store.insert declaration) = (.ok handle, grown) ∧
        (session.takeIn (handle, grown)).Sound := by
  obtain ⟨handle, grown, stored, slot, size⟩ := Store.exists_insert room declaration
  have after : Sound { session with declarations := grown } :=
    sound.grow (Nat.le_of_lt (size ▸ Nat.lt_succ_self _)) (size ▸ room)
  refine ⟨handle, grown, stored, after.hold ?_⟩
  change handle.slot < grown.size
  omega

/-- What goes on with a statement at hand succeeds where it succeeds with every statement in range. -/
theorem exists_onStmt {place : Nat} {next : Stmt → Except Fault Session}
    (each : ∀ stmt : Stmt, session.stmts[place]? = some stmt → stmt.InRange session.declarations →
      ∃ after, next stmt = .ok after ∧ after.Sound) :
    ∃ after, session.onStmt place next = .ok after ∧ after.Sound := by
  unfold onStmt
  cases stands : session.stmts[place]? with
  | none => exact ⟨session, rfl, sound⟩
  | some stmt => exact each stmt stands (sound.inRange_of_getElem? stands)

theorem exists_unshare {place : Nat} {target : Handle} (obtained : session.Obtained target)
    (room : session.declarations.size + session.demand (.unshare place target) ≤
      declarationKeys.capacity) :
    ∃ next, session.carryOut (.unshare place target) = .ok next ∧ next.Sound := by
  refine sound.exists_onStmt fun stmt stands inRange => ?_
  rw [demand, stands, Option.elim_some] at room
  have found := sound.slot_lt obtained
  obtain ⟨left, ran, separates⟩ := inRange.unshare_eq_ok found room
  rw [ran]
  refine ⟨_, rfl, ?_⟩
  have size : (stmt.copiesFor session.declarations target).size =
      session.declarations.size + (stmt.holders target - 1) := Declarations.size_withCopies
  have after : Sound { session with declarations := stmt.copiesFor session.declarations target } :=
    sound.grow (size ▸ Nat.le_add_right ..) (size ▸ room)
  rw [Stmt.declarations_after]
  exact after.put place (separates.inRange_left found inRange room)

/-- With room for the slots that it takes, an admissible request is carried out soundly. -/
theorem exists_carryOut {request : Request} (admitted : session.Admits request)
    (room : session.declarations.size + session.demand request ≤ declarationKeys.capacity) :
    ∃ next, session.carryOut request = .ok next ∧ next.Sound := by
  have asked {α : Type} {place : Nat} {question : Stmt → Except Fault α}
      (answers : ∀ stmt : Stmt, stmt.InRange session.declarations →
        ∃ answer, question stmt = .ok answer) :
      ∃ after,
        (session.onStmt place fun stmt => do let _ ← question stmt; return session) = .ok after ∧
          after.Sound := by
    refine sound.exists_onStmt fun stmt _ inRange => ?_
    obtain ⟨answer, same⟩ := answers stmt inRange
    exact ⟨session, by rw [same]; rfl, sound⟩
  cases request with
  | store declaration =>
      obtain ⟨handle, grown, inserted, after⟩ := sound.exists_insert room declaration
      exact ⟨_, by rw [carryOut, Store.complete_eq_ok_iff.2 inserted]; rfl, after⟩
  | finish draft =>
      rw [demand] at room
      rw [carryOut]
      by_cases empty : draft.declarators = []
      · rw [Store.complete, Draft.perform_finish_of_nil empty]
        exact ⟨_, rfl, sound.tell _⟩
      · rw [if_neg (mt List.isEmpty_iff.1 empty)] at room
        obtain ⟨handle, grown, inserted, after⟩ := sound.exists_insert room draft.declaration
        rw [Store.complete, Draft.perform_finish_of_insert empty inserted]
        exact ⟨_, rfl, after⟩
  | keep handle => exact ⟨_, rfl, sound.hold (sound.slot_lt admitted)⟩
  | wrap handle =>
      obtain ⟨declaration, present⟩ := Store.exists_get?_of_lt (sound.slot_lt admitted)
      refine ⟨session.add (.simple (.declare handle) declaration.span), ?_, sound.add ?_⟩
      · rw [carryOut, Stmt.ofHandle, Store.fetch_eq_ok_iff.2 present]
        rfl
      · exact List.forall_mem_singleton.2 (sound.slot_lt admitted)
  | build stmt => exact ⟨_, rfl, sound.add fun handle held => sound.slot_lt (admitted handle held)⟩
  | duplicate place =>
      exact sound.exists_onStmt fun stmt _ inRange => ⟨_, rfl, sound.add inRange⟩
  | eliminate place options =>
      refine sound.exists_onStmt fun stmt _ inRange => ?_
      rw [inRange.eliminateEmpty_eq_ok]
      exact ⟨_, rfl, (sound.put place (inRange.eliminated _)).tell _⟩
  | unshare place target => exact sound.exists_unshare admitted room
  | rewrite target rewrite =>
      obtain ⟨next, applied, size, -⟩ := rewrite.exists_apply (sound.slot_lt admitted)
      refine ⟨_, by rw [carryOut, applied]; rfl, sound.grow ?_ ?_⟩
      · exact Nat.le_of_eq size.symm
      · exact size ▸ sound.fits
  | describe place => exact asked fun stmt inRange => ⟨_, Stmt.text_eq_pure inRange.answered⟩
  | isEmpty place => exact asked fun stmt inRange => ⟨_, Stmt.isEmpty_eq_pure inRange.answered⟩
  | mentions place name =>
      exact asked fun stmt inRange => ⟨_, Stmt.mentions_eq_pure inRange.answered name⟩

/-! ## Requests that find the store full -/

/-- Where there is no room for the slots that it takes, a request ends in a full store. -/
theorem carryOut_of_full {request : Request} (admitted : session.Admits request)
    (full : declarationKeys.capacity < session.declarations.size + session.demand request) :
    session.carryOut request = .error .storeFull := by
  have fits := sound.fits
  cases request with
  | store declaration =>
      rw [carryOut, Store.complete, Store.perform_insert_of_full (Nat.le_of_lt_succ full)]
      rfl
  | finish draft =>
      rw [demand] at full
      split at full
      case isTrue => omega
      case isFalse filled =>
        rw [carryOut, Store.complete, Draft.perform_finish_of_full (mt List.isEmpty_iff.2 filled)
          (Nat.le_of_lt_succ full)]
        rfl
  | unshare place target =>
      rw [demand] at full
      cases stands : session.stmts[place]? with
      | none =>
          rw [stands, Option.elim_none] at full
          omega
      | some stmt =>
          rw [stands, Option.elim_some] at full
          rw [carryOut, onStmt, stands]
          change (stmt.unshare session.declarations target >>= _) = _
          rw [Stmt.unshare_of_full (sound.slot_lt admitted) fits full]
          rfl
  | _ =>
      rw [demand] at full
      omega

/-- A step from a sound session leads to a sound one. -/
theorem step {next : Session} {request : Request} (admitted : session.Admits request)
    (done : session.carryOut request = .ok next) : next.Sound := by
  by_cases room :
    session.declarations.size + session.demand request ≤ declarationKeys.capacity
  · obtain ⟨after, did, soundAfter⟩ := sound.exists_carryOut admitted room
    obtain rfl := Except.ok.inj (done.symm.trans did)
    exact soundAfter
  · rw [sound.carryOut_of_full admitted (Nat.not_le.1 room)] at done
    cases done

end Sound

/-- Every session that is reached is sound. -/
theorem Reached.sound {session : Session} (reached : session.Reached) : session.Sound := by
  induction reached with
  | start diagnostics => exact Sound.start diagnostics
  | step _ request admitted done ih => exact ih.step admitted done

/--
Handles never dangle.  In every session that is reached, each handle that a statement holds, wherever
in it, names a slot of the store; and each admissible request is carried out, unless it takes more slots
than the store has keys for, and then it ends in a full store.  No position leads out of a list
either: carried out in place by positions that are checked, a sweep and the pass over the cases of a
switch do what they do by recursion.
-/
theorem handles_never_dangle {session : Session} (reached : session.Reached) :
    (∀ stmt ∈ session.stmts, ∀ handle ∈ stmt.handles,
        ∃ declaration, session.declarations.get? handle = some declaration) ∧
      (∀ request, session.Admits request →
        if session.declarations.size + session.demand request ≤ declarationKeys.capacity then
          ∃ next, session.carryOut request = .ok next
        else
          session.carryOut request = .error .storeFull) ∧
      (∀ outside stmts, sweepInPlace session.declarations.fetch outside stmts =
        sweep session.declarations.fetch outside stmts) ∧
      ∀ options cases, pruneCasesInPlace session.declarations.fetch options cases =
        pruneCases session.declarations.fetch options cases := by
  have sound := reached.sound
  refine ⟨fun stmt within handle held => ?_, fun request admitted => ?_, ?_, ?_⟩
  · exact Store.exists_get?_of_lt (sound.stmts stmt within handle held)
  · split
    case isTrue room =>
      obtain ⟨next, done, -⟩ := sound.exists_carryOut admitted room
      exact ⟨next, done⟩
    case isFalse full => exact sound.carryOut_of_full admitted (Nat.not_le.1 full)
  · exact sweepInPlace_eq_sweep _
  · exact pruneCasesInPlace_eq_pruneCases _

/--
With `int x;` in the store, `{ int x; int x; }` built from its handle, and the second holder given a copy,
the new handle names a slot of the store, and an elimination empties the block.
-/
theorem handles_never_dangle_of_block :
    let declaration : Declaration := .ofDeclarators [.sized "x" []]
    let session : Session :=
      { declarations := .ofList [declaration, declaration]
        handles := [.ofSlot 0]
        stmts := [.ofList [.declares 0, .declares 1]] }
    session.Reached ∧
      (∃ held, session.declarations.get? (Handle.ofSlot 1) = some held) ∧
      ∃ next,
        session.carryOut (.eliminate 0 {}) = .ok next ∧
          next.stmts = [.ofList []] ∧
          next.declarations = session.declarations := by
  intro declaration session
  let stored : Session := { declarations := .ofList [declaration], handles := [.ofSlot 0] }
  let shared : Session := { stored with stmts := [.ofList [.declares 0, .declares 0]] }
  have reachedStored : stored.Reached :=
    .step (.start {}) (.store declaration) trivial rfl
  have holds : ∀ handle ∈ (Stmt.ofList [.declares 0, .declares 0]).handles,
      handle = .ofSlot 0 := by decide
  have reachedShared : shared.Reached :=
    .step reachedStored (.build (.ofList [.declares 0, .declares 0]))
      (fun handle held => .inl (List.mem_singleton.2 (holds handle held))) rfl
  have reached : session.Reached :=
    .step reachedShared (.unshare 0 (.ofSlot 0)) (.inl List.mem_cons_self) rfl
  obtain ⟨named, carriedOut, -⟩ := handles_never_dangle reached
  have done := carriedOut (.eliminate 0 {}) trivial
  rw [if_pos (by decide)] at done
  obtain ⟨next, did⟩ := done
  refine ⟨reached, named _ List.mem_cons_self (Handle.ofSlot 1) (by decide), next, did, ?_⟩
  obtain rfl := Except.ok.inj (did.symm.trans rfl)
  exact ⟨rfl, rfl⟩

end Session

end ShaderTree
