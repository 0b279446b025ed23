import ShaderTree.Proofs.Elimination.Survivors
import ShaderTree.Proofs.Sharing.Privacy

/-!
# What a tree sees

A store holds the declarations of a whole compilation, and a tree holds handles to a few of them.
Every question that is asked of a tree, and every decision that an elimination takes in it, looks up
handles that the tree holds and no others.  So two stores that agree on these handles cannot be told
apart through the tree, whatever else they hold and however many slots they have.  In particular,
rewriting a declaration that a tree does not hold is not seen in the tree.
-/

namespace ShaderTree

namespace Stmt

variable {first second : Declarations} {body : Stmt}

/--
A tree is written alike under two stores, answers every question alike, and is left the same by every
elimination, which counts, tells and warns of the same.
-/
structure Indistinguishable (first second : Declarations) (body : Stmt) : Prop where
  alike : Alike first.fetch body second.fetch body
  eliminated : ∀ options diagnostics, ∃ result,
    body.eliminateEmpty first.fetch options diagnostics = .ok result ∧
      body.eliminateEmpty second.fetch options diagnostics = .ok result ∧
      Alike first.fetch result.body second.fetch result.body

/-- A store that gives what another one gives answers for a tree that is in range of the other one. -/
theorem InRange.answered_of_same (inRange : body.InRange first)
    (same : ∀ handle ∈ body.handles, second.get? handle = first.get? handle) :
    body.Answered second.fetch first.view := by
  intro handle held
  have found : first.get? handle = some (first.view handle) :=
    Store.fetch_eq_ok_iff.1 (inRange.answered handle held)
  exact Store.fetch_eq_ok_iff.2 ((same handle held).trans found)

theorem indistinguishable_of_same (inRange : body.InRange first)
    (same : ∀ handle ∈ body.handles, second.get? handle = first.get? handle) :
    Indistinguishable first second body where
  alike := inRange.answered.alike (inRange.answered_of_same same)
  eliminated options diagnostics := by
    -- What the elimination leaves holds fewer handles, so the stores agree on these too.
    have fewer : (body.eliminated first.view options diagnostics).body.handles ⊆ body.handles := by
      rw [body_eliminated]
      split
      case isTrue => exact handles_pruned_subset body
      case isFalse => exact List.Subset.refl _
    have inRangeLeft : (body.eliminated first.view options diagnostics).body.InRange first :=
      inRange.eliminated diagnostics
    refine ⟨_, inRange.eliminateEmpty_eq_ok diagnostics,
      eliminateEmpty_eq_pure (inRange.answered_of_same same) diagnostics, ?_⟩
    exact inRangeLeft.answered.alike
      (inRangeLeft.answered_of_same fun handle held => same handle (fewer held))

/--
A tree sees only the declarations that it holds.  Two stores that have the same declaration under each
handle of a tree in range cannot be told apart through the tree; and however a declaration that the
tree does not hold is rewritten, the rewritten store cannot be told from the store as it was.
-/
theorem sees_only_what_it_holds (inRange : body.InRange first)
    (same : ∀ handle ∈ body.handles, second.get? handle = first.get? handle) :
    Indistinguishable first second body ∧
      ∀ target : Handle, target ∉ body.handles → target.slot < first.size →
        ∀ rewrites : List Rewrite,
          ∃ rewritten,
            Rewrite.applyAll target rewrites first = .ok rewritten ∧
              Indistinguishable first rewritten body := by
  refine ⟨indistinguishable_of_same inRange same, ?_⟩
  intro target apart found rewrites
  obtain ⟨rewritten, applied, seen⟩ := Rewrite.exists_applyAll found rewrites
  refine ⟨rewritten, applied, indistinguishable_of_same inRange fun handle held => ?_⟩
  have other : handle ≠ target := fun own => apart (own ▸ held)
  rw [seen, if_neg other]

/--
In `{ int x; return x; }` it does not matter whether there is a second slot, nor that its declaration loses
its initializer.
-/
theorem sees_only_what_it_holds_of_block :
    let first : Declarations := .ofList
      [.ofDeclarators [.sized "x" []], .ofDeclarators [.set "y" (.var "x")]]
    let second : Declarations := .ofList [.ofDeclarators [.sized "x" []]]
    let body : Stmt := .ofList [.declares 0, .returns (.var "x")]
    body.InRange first ∧
      (∀ handle ∈ body.handles, second.get? handle = first.get? handle) ∧
      body.text second.fetch = .ok "\x7b\nint x;\nreturn x;\n\x7d" ∧
      ∃ rewritten,
        Rewrite.applyAll (.ofSlot 1) [.strip "y"] first = .ok rewritten ∧
          rewritten = .ofList [.ofDeclarators [.sized "x" []], .ofDeclarators [.sized "y" []]] ∧
          body.text rewritten.fetch = .ok "\x7b\nint x;\nreturn x;\n\x7d" := by
  intro first second body
  have inRange : body.InRange first := by decide
  have same : ∀ handle ∈ body.handles, second.get? handle = first.get? handle := by
    intro handle held
    obtain rfl : handle = .ofSlot 0 := List.mem_singleton.1 held
    rfl
  obtain ⟨alike, apart⟩ := sees_only_what_it_holds inRange same
  obtain ⟨rewritten, applied, unseen⟩ := apart (.ofSlot 1) (by decide) (by decide) [.strip "y"]
  obtain ⟨text, told, toldBySecond⟩ := alike.alike.text
  obtain ⟨_, again, toldAfter⟩ := unseen.alike.text
  obtain rfl := Except.ok.inj (told.symm.trans again)
  obtain rfl := Except.ok.inj (told.symm.trans rfl)
  exact ⟨inRange, same, toldBySecond, rewritten, applied, Except.ok.inj (applied.symm.trans rfl),
    toldAfter⟩

end Stmt

end ShaderTree
