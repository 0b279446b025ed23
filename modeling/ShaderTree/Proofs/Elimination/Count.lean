import ShaderTree.Proofs.Elimination.Conservation
import ShaderTree.Proofs.Tree.Written

/-!
# The count of an elimination

An elimination returns how many statements it took out of their places.  A body that becomes `;` was
taken out, but a walk still visits as many statements, so the count is what a walk misses afterwards
together with the bodies that have become `;`.

Every statement that is counted is told of in an event of its own, and the last event tells the
count.
-/

namespace ShaderTree

/-- Whether an event tells that one statement was taken out of its place. -/
def Event.isElision : Event → Bool
  | .eliding _ _ _ => true
  | .duplicating _ | .eliminated _ | .unsharing _ _ => false

variable {view : View} {options : EliminationOptions}

/-- Where no body is to become `;`, the pass leaves the bodies, with what it did to them. -/
theorem Stmt.bodies_pruned_of_stay (stay : options.collapsesBodies = false) (stmt : Stmt) :
    (stmt.pruned view options).bodies = stmt.bodies.map (Stmt.pruned view options) := by
  have stays (body : Stmt) : body.collapsed view options = body := by
    simp [Stmt.collapsed, Stmt.collapses, stay]
  simp only [bodies_pruned, stays]

namespace Measure

/-- Measures by which the statements are worth the same, and the remarks too, are told the same. -/
theorem told_eq (first second : Measure view options) (own : first.own = second.own)
    (remark : ∀ stmt : Stmt, first.told stmt.remark = second.told stmt.remark) (stmt : Stmt) :
    first.told (stmt.tally view options) = second.told (stmt.tally view options) := by
  have ofFirst := first.conserves stmt
  have ofSecond := second.conserves stmt
  have remarked : first.remarked stmt = second.remarked stmt := by
    rw [Measure.remarked, Measure.remarked, funext fun node => remark node]
  simp only [Conserves, ofTree, filler, own, remarked] at ofFirst ofSecond
  omega

/-! ## Ways to count statements -/

/-- Each statement is worth one, and so is the tally of taking it out. -/
def each (told : Tally → Nat) (told_nothing : told .nothing = 0)
    (told_append : ∀ first second, told (first ++ second) = told first + told second)
    (told_elided : ∀ reason (stmt : Stmt), told (stmt.elided view reason) = 1) :
    Measure view options where
  own _ := 1
  told := told
  told_nothing := told_nothing
  told_append := told_append
  told_elided reason stmt _ _ := told_elided reason stmt
  own_pruned _ := rfl
  own_nop _ := rfl

/-- Statements as a tally counts them. -/
def counted : Measure view options :=
  each Tally.count rfl (fun _ _ => rfl) fun _ _ => rfl

/-- Statements as the events of a tally tell of them. -/
def events : Measure view options :=
  each (fun tally => tally.events.length) rfl (fun _ _ => List.length_append) fun _ _ => rfl

/-- Statements as the events of a tally tell of their elision. -/
def elisions : Measure view options :=
  each (fun tally => tally.events.countP Event.isElision) rfl (fun _ _ => List.countP_append)
    fun _ _ => rfl

/--
Each statement is worth the number of its bodies that are `;`, of which a tally tells nothing.
-/
def nopBodies (stay : options.collapsesBodies = false) : Measure view options where
  own stmt := stmt.bodies.countP fun body => body.kind = .nop
  told _ := 0
  told_nothing := rfl
  told_append _ _ := rfl
  told_elided _ stmt _ bare := by
    rw [Stmt.bodies_of_nested_eq_nil bare]
    rfl
  own_pruned stmt := by
    rw [Stmt.bodies_pruned_of_stay stay, List.countP_map]
    refine List.countP_congr fun body _ => ?_
    rw [Function.comp, Stmt.kind_pruned]
  own_nop _ := rfl

theorem ofTree_counted (stmt : Stmt) :
    (counted : Measure view options).ofTree stmt = stmt.nodes.length := by
  have ones : (counted : Measure view options).ofTree stmt = (stmt.nodes.map fun _ => 1).sum := rfl
  rw [ones, List.map_const', List.sum_replicate_nat, Nat.mul_one]

theorem ofTree_nopBodies (stay : options.collapsesBodies = false) (stmt : Stmt) :
    (nopBodies stay : Measure view options).ofTree stmt = stmt.nopBodies := by
  rw [ofTree, Stmt.nopBodies, List.countP_flatMap]
  rfl

end Measure

namespace Stmt

/-- A remark counts nothing and is no event. -/
theorem remark_silent (stmt : Stmt) : stmt.remark.count = 0 ∧ stmt.remark.events = [] := by
  cases stmt with
  | simple form span =>
      cases form with
      | evaluate expr =>
          rw [remark, Tally.ofSimple]
          split <;> exact ⟨rfl, rfl⟩
      | _ => exact ⟨rfl, rfl⟩
  | _ => exact ⟨rfl, rfl⟩

/-! ## What is counted -/

variable (view options) in
/-- The count of a tally is what a walk misses and the bodies that have become `;`. -/
theorem count_tally (stmt : Stmt) :
    (stmt.tally view options).count + (stmt.pruned view options).nodes.length + stmt.nopBodies =
      stmt.nodes.length + (stmt.pruned view options).nopBodies := by
  have law := (Measure.counted : Measure view options).conserves stmt
  have remarked : (Measure.counted : Measure view options).remarked stmt = 0 :=
    Measure.remarked_eq_zero _ (fun stmt => stmt.remark_silent.1) stmt
  rw [Measure.Conserves, Measure.ofTree_counted, Measure.ofTree_counted, remarked] at law
  simpa [Measure.filler, Measure.counted, Measure.each] using law

/-- The events of a tally are as many as it counts. -/
theorem length_events_tally (stmt : Stmt) :
    (stmt.tally view options).events.length = (stmt.tally view options).count := by
  refine Measure.told_eq .events .counted rfl (fun stmt => ?_) stmt
  exact (congrArg List.length stmt.remark_silent.2).trans stmt.remark_silent.1.symm

/-- Every event of a tally tells an elision. -/
theorem isElision_of_mem_tally {stmt : Stmt} {event : Event}
    (told : event ∈ (stmt.tally view options).events) : event.isElision = true := by
  have all : (stmt.tally view options).events.countP Event.isElision =
      (stmt.tally view options).events.length :=
    Measure.told_eq .elisions .events rfl
      (fun stmt => by simp [Measure.elisions, Measure.events, Measure.each, stmt.remark_silent.2])
      stmt
  exact List.countP_eq_length.1 all event told

/-- Where no body is to become `;`, none does. -/
theorem nopBodies_pruned (stay : options.collapsesBodies = false) (stmt : Stmt) :
    (stmt.pruned view options).nopBodies = stmt.nopBodies := by
  have law := (Measure.nopBodies stay : Measure view options).conserves stmt
  have remarked : (Measure.nopBodies stay : Measure view options).remarked stmt = 0 :=
    Measure.remarked_eq_zero _ (fun _ => rfl) stmt
  rw [Measure.Conserves, Measure.ofTree_nopBodies, Measure.ofTree_nopBodies, remarked] at law
  simpa [Measure.filler, Measure.nopBodies, bodies, nop] using law

/-- The count is exact. -/
theorem eliminateEmpty_counts_exactly {declarations : Declarations} {body : Stmt}
    {options : EliminationOptions} (inRange : body.InRange declarations)
    (asked : options.eliminates = true) (diagnostics : Diagnostics) :
    ∃ result elisions,
      body.eliminateEmpty declarations.fetch options diagnostics = .ok result ∧
        (result.count : Int) =
          ((body.nodes.length : Int) - result.body.nodes.length) +
            ((result.body.nopBodies : Int) - body.nopBodies) ∧
        result.events = elisions ++ [.eliminated result.count] ∧
        elisions.length = result.count ∧
        (∀ event ∈ elisions, event.isElision = true) ∧
        (options.collapsesBodies = false →
          (result.count : Int) = (body.nodes.length : Int) - result.body.nodes.length) := by
  have count := count_tally declarations.view options body
  refine ⟨_, (body.tally declarations.view options).events,
    inRange.eliminateEmpty_of_asked asked diagnostics, ?_, rfl,
    length_events_tally body, fun event told => isElision_of_mem_tally told, ?_⟩
  · dsimp only
    omega
  · intro stay
    rw [nopBodies_pruned stay] at count
    dsimp only
    omega

/--
Of `while (b) { int x; }` the declaration is taken out and the emptied block becomes `;`: two are
counted, a walk visits one statement less, and there is one body more that is `;`.
-/
theorem eliminateEmpty_counts_exactly_of_loop :
    let declarations : Declarations := .ofList [.ofDeclarators [.sized "x" []]]
    let body : Stmt := .whileLoop (.var "b") (.ofList [.declares 0]) .nowhere
    body.InRange declarations ∧ ({} : EliminationOptions).eliminates = true ∧
      body.nodes.length = 3 ∧ body.nopBodies = 0 ∧
      ∃ result,
        body.eliminateEmpty declarations.fetch {} {} = .ok result ∧
          result.body = .whileLoop (.var "b") (.nop .nowhere) .nowhere ∧
          result.body.nodes.length = 2 ∧ result.body.nopBodies = 1 ∧
          result.count = 2 ∧
          result.events =
            [.eliding .emptyStatement 0 "int x;", .eliding .emptyBody 0 "\x7b\n\x7d",
              .eliminated 2] := by
  intro declarations body
  have inRange : body.InRange declarations := by decide
  obtain ⟨result, elisions, ran, count, -⟩ :=
    @eliminateEmpty_counts_exactly _ _ {} inRange rfl {}
  obtain rfl := inRange.eq_eliminated ran
  exact ⟨inRange, rfl, rfl, rfl, _, ran, rfl, rfl, rfl, Int.ofNat.inj count, rfl⟩

end Stmt

end ShaderTree
