import BoxSearch.Proofs.Search.Calls
import BoxSearch.Proofs.Search.CellMemory
import BoxSearch.Proofs.Search.Incumbent
import BoxSearch.Proofs.Search.MirroredBuffer
import BoxSearch.Proofs.Search.Reachable

/-!
# Searches with a second order that is never drawn from

A search with a second criterion and one without it go through the same steps when the probability
of drawing from the second order is zero. The feasible shares that the second order asks for are
found whenever the constraint functions answer, and cells that leave the buffer are made anew. An
iteration opens two cells at most, so that a budget of iterations tells how many numbers it needs.
-/
set_option autoImplicit false

namespace BoxSearch

open OrderedScalar Scalar Checked

variable {κ α : Type} [Scalar α] [OrderedScalar α]

/-! ## Feasible shares -/

theorem Comparison.feasible_returns (op : Comparison) {tolerance : α} (nonneg : 0 ≤ tolerance) :
    ∃ values, op.feasible tolerance = .ok values := by
  cases op with
  | le => exact ⟨_, rfl⟩
  | ge => exact ⟨_, rfl⟩
  | eq =>
      obtain ⟨-, number, above⟩ := le_iff.mp nonneg
      rw [value_zero] at above
      have zero : (0 : ℝ) ∈ (⟨-tolerance, tolerance⟩ : Interval α) := by
        refine ⟨number_neg number, number, ?_, above⟩
        rw [value_neg number, EReal.neg_le]
        simpa using above
      refine ⟨⟨-tolerance, tolerance⟩, ?_⟩
      rw [feasible, Interval.ofBounds, Interval.ofBounds?_of_proper (Interval.proper_of_mem zero)]

namespace Cell
variable {p : Problem α} {tolerance : α} {c : Cell α}

theorem shares_returns (nonneg : 0 ≤ tolerance) {domain : Box α}
    (answers : ∀ c ∈ p.constraints, ∃ image, c.function.eval domain = .ok image) :
    ∀ (n i : Nat) (acc : α) {b : CachedBox α} (log : List Target),
      i + n = p.constraints.length → b.domain = domain → b.Current p →
      ∃ r log', (shares p tolerance n i acc b).run log = .ok (r, log') := by
  intro n
  induction n with
  | zero => exact fun i acc b log _ _ _ => ⟨_, log, rfl⟩
  | succ n ih =>
      rintro i acc b log count rfl current
      have inside : i < p.constraints.length := by omega
      obtain ⟨image, evaluated⟩ := answers _ (List.getElem_mem inside)
      have found := Problem.evalConstraint_of_lookup
        ⟨_, List.getElem?_eq_getElem inside, evaluated⟩
      have answer := (CachedBox.transparent p).constraint_eq i log current
      obtain ⟨⟨⟨_, b'⟩, log'⟩, asked, -⟩ := map_eq_ok.mp (answer.trans found)
      obtain ⟨-, same, kept⟩ := (CachedBox.truthful p).constraint current asked
      obtain ⟨values, feasible⟩ := Comparison.feasible_returns p.constraints[i].op nonneg
      have looked : p.constraint i = .ok p.constraints[i] :=
        elementAt_eq_ok.mpr (List.getElem?_eq_getElem inside)
      obtain ⟨r, log'', rest⟩ := ih (i + 1) _ log' (by omega) same kept
      exact ⟨r, log'', run_bind_eq_ok.mpr ⟨_, _, asked, run_bind_eq_ok.mpr
        ⟨_, _, run_liftM_eq_ok.mpr ⟨looked, rfl⟩, run_bind_eq_ok.mpr
          ⟨_, _, run_liftM_eq_ok.mpr ⟨feasible, rfl⟩, rest⟩⟩⟩⟩

theorem feasibleShare_returns (nonneg : 0 ≤ tolerance)
    (answers : ∀ e ∈ p.constraints, ∃ image, e.function.eval c.domain = .ok image)
    (current : c.box.Current p) :
    ∃ share d, c.feasibleShare p tolerance = .ok (share, d) ∧ c.Resembles d := by
  rw [feasibleShare]
  cases c.feasibility with
  | some share => exact ⟨share, c, rfl, .refl c⟩
  | none =>
      obtain ⟨⟨share, box⟩, log, found⟩ :=
        shares_returns nonneg answers p.constraints.length 0 1 [] (Nat.zero_add _) rfl current
      obtain ⟨domain, objective⟩ := same_of_shares found
      have asked := Evaluation.value_eq_ok.mpr ⟨log, found⟩
      exact ⟨share, _, bind_eq_ok.mpr ⟨_, asked, rfl⟩, domain, rfl, objective⟩

end Cell

/-! ## States -/

/-- Over boxes that can be stored, the constraint functions answer, and what the objective answers
is an interval. -/
structure Problem.Answering (p : Problem α) : Prop where
  constraint : ∀ {b : Box α}, b.Valid → b.dim = p.arity →
    ∀ c ∈ p.constraints, ∃ image, c.function.eval b = .ok image
  objective : ∀ {b : Box α} {image : Interval α}, b.Valid → b.dim = p.arity →
    p.evalObjective b = .ok image → image.Valid

variable [Contractor κ α]

/-- The contractor makes no box larger, the tolerance of equalities is not negative, and the target
of a number is a number. -/
structure Regular (p : Problem α) (config : SearchConfig α) (first : κ) : Prop where
  answering : p.Answering
  shrinks : Contractor.Shrinks p.arity first
  tolerance : 0 ≤ config.equalityTolerance
  target : ∀ v, IsNumber v → IsNumber (config.target v)

/-- A new cell that was asked for its objective image fits into a buffer. -/
theorem Regular.fits {p : Problem α} {config : SearchConfig α} {first : κ} {domain : Box α}
    {depth : Nat} {image : Interval α} {c : Cell α} (regular : Regular p config first)
    (valid : domain.Valid) (dim : domain.dim = p.arity)
    (asked : (Cell.ofDomain domain depth).objective p = .ok (image, c)) :
    c.Fits p.arity ∧ c.box.Current p := by
  obtain ⟨found, same, remembered⟩ :=
    Cell.objective_eq_ok (CachedBox.current_ofDomain p domain) asked
  have fresh : (Cell.ofDomain domain depth).Current p config.equalityTolerance :=
    Cell.current_ofDomain domain depth
  have number := CellCost.number_imageLower remembered (regular.answering.objective valid dim found)
  change c.domain = domain at same
  rw [← same] at valid dim
  exact ⟨⟨valid, dim, number⟩, (fresh.objective asked).box⟩

namespace Optimizer
variable {p : Problem α} {first : κ} {spare less : Nat} {o o' : Optimizer κ α} {c : Cell α}

/-- The second search has a second criterion and a buffer for it, which mirrors that of the first
one. Both have numbers for `spare` more cells. -/
structure Mirrors (p : Problem α) (first : κ) (spare : Nat) (o o' : Optimizer κ α) : Prop where
  problem : o.problem = p
  regular : Regular p o.config first
  used : Contractor.Used first o.contractor
  fits : ∃ domain, o.domain = some domain ∧ domain.Valid ∧ domain.dim = p.arity
  same : ∃ secondary percent buffer, o.buffer.Mirrors p.arity spare buffer ∧
    o' = { o with config := { o.config with secondary, percent }, buffer }

theorem Mirrors.mono (mirrors : Mirrors p first spare o o') (le : less ≤ spare) :
    Mirrors p first less o o' := by
  obtain ⟨problem, regular, used, fits, secondary, percent, buffer, buffers, same⟩ := mirrors
  exact ⟨problem, regular, used, fits, secondary, percent, buffer, buffers.mono le, same⟩

theorem Mirrors.outcome (mirrors : Mirrors p first spare o o') : o'.outcome = o.outcome := by
  obtain ⟨-, -, -, -, secondary, percent, buffer, -, rfl⟩ := mirrors
  rfl

theorem Mirrors.uploOfEpsBoxes (mirrors : Mirrors p first spare o o') :
    o'.uploOfEpsBoxes = o.uploOfEpsBoxes := by
  obtain ⟨-, -, -, -, secondary, percent, buffer, -, rfl⟩ := mirrors
  rfl

theorem Mirrors.target (mirrors : Mirrors p first spare o o') : o'.target = o.target := by
  obtain ⟨-, -, -, -, secondary, percent, buffer, -, rfl⟩ := mirrors
  rfl

theorem Mirrors.gapClosed (mirrors : Mirrors p first spare o o') :
    o'.config.gapClosed o'.loup o'.uplo = o.config.gapClosed o.loup o.uplo := by
  obtain ⟨-, -, -, -, secondary, percent, buffer, -, rfl⟩ := mirrors
  rfl

theorem Mirrors.size (mirrors : Mirrors p first spare o o') : o'.buffer.size = o.buffer.size := by
  obtain ⟨-, -, -, -, secondary, percent, buffer, buffers, rfl⟩ := mirrors
  exact buffers.size

theorem Mirrors.progress (mirrors : Mirrors p first spare o o') : o'.progress = o.progress := by
  have loup : o'.loup = o.loup := congrArg Outcome.loup mirrors.outcome
  have uplo : o'.uplo = o.uplo := congrArg Outcome.uplo mirrors.outcome
  rw [Optimizer.progress, Optimizer.progress, loup, uplo, mirrors.size]

theorem Mirrors.raiseUplo (mirrors : Mirrors p first spare o o') (bound : α) :
    Mirrors p first spare (o.raiseUplo bound) (o'.raiseUplo bound) := by
  obtain ⟨rfl, regular, used, fits, secondary, percent, buffer, buffers, rfl⟩ := mirrors
  rw [Optimizer.raiseUplo, Optimizer.raiseUplo]
  dsimp only
  split <;> exact ⟨rfl, regular, used, fits, secondary, percent, buffer, buffers, rfl⟩

theorem Mirrors.recordEpsBox (mirrors : Mirrors p first spare o o') (lower : α) :
    Mirrors p first spare (o.recordEpsBox lower) (o'.recordEpsBox lower) := by
  obtain ⟨rfl, regular, used, fits, secondary, percent, buffer, buffers, rfl⟩ := mirrors
  rw [Optimizer.recordEpsBox, Optimizer.recordEpsBox]
  dsimp only
  split <;> exact ⟨rfl, regular, used, fits, secondary, percent, buffer, buffers, rfl⟩

/-- Both buffers take the cell, whatever the second one has to know about it, or neither does. -/
theorem Mirrors.pushCell (mirrors : Mirrors p first (spare + 1) o o') (fits : c.Fits p.arity)
    (current : c.box.Current p) (lower : α) :
    Checked.Matches (Mirrors p first spare) (o.pushCell c lower) (o'.pushCell c lower) := by
  have recorded := mirrors.recordEpsBox lower
  obtain ⟨rfl, regular, used, known, secondary, percent, buffer, buffers, rfl⟩ := mirrors
  have stores : ∀ {d : Cell α}, c.Resembles d → Checked.Matches (Mirrors o.problem first spare)
      (o.storeCell lower c) (storeCell { o with
        config := { o.config with secondary, percent }, buffer } lower d) := by
    intro d alike
    rw [Optimizer.storeCell, Optimizer.storeCell]
    rcases buffers.push fits alike with ⟨n, refused, refused'⟩ | ⟨b, b', pushed, pushed', next⟩
    · rw [refused]
      dsimp only
      rw [refused']
      obtain ⟨problem, regular, used, known, secondary, percent, buffer, buffers, same⟩ := recorded
      dsimp only
      rw [same]
      exact .ok ⟨problem, regular, used, known, secondary, percent, buffer,
        buffers.mono (Nat.le_succ _), rfl⟩
    · rw [pushed]
      dsimp only
      rw [pushed']
      dsimp only
      rw [next.size]
      exact .ok ⟨rfl, regular, used, known, secondary, percent, b', next, rfl⟩
  rw [pushCell_eq, pushCell_eq, buffers.needsFeasibility, if_neg Bool.false_ne_true]
  dsimp only
  split
  · obtain ⟨share, d, found, alike⟩ := Cell.feasibleShare_returns regular.tolerance
      (regular.answering.constraint fits.valid fits.dim) current
    rw [found]
    exact stores alike
  · exact stores (.refl c)

theorem Mirrors.pushRoot (mirrors : Mirrors p first (spare + 1) o o') {domain : Box α}
    (known : o.domain = some domain) :
    Checked.Matches (Mirrors p first spare) (o.pushRoot domain) (o'.pushRoot domain) := by
  have pushes := fun {c : Cell α} => mirrors.pushCell (c := c)
  have unpushed := mirrors.mono (Nat.le_succ spare)
  obtain ⟨rfl, regular, used, fits, secondary, percent, buffer, buffers, rfl⟩ := mirrors
  obtain ⟨_, there, valid, dim⟩ := fits
  obtain rfl := Option.some.inj (there.symm.trans known)
  rw [Optimizer.pushRoot, Optimizer.pushRoot]
  refine .ite (fun _ => .ok unpushed) fun _ => .same ?_
  rintro ⟨image, root⟩ asked
  obtain ⟨root_fits, current⟩ := regular.fits valid dim asked
  exact pushes root_fits current image.lo

theorem Mirrors.closeEmpty (mirrors : Mirrors p first spare o o') :
    o'.closeEmpty.1 = o.closeEmpty.1 ∧ Mirrors p first spare o.closeEmpty.2 o'.closeEmpty.2 := by
  have loup : o'.loup = o.loup := congrArg Outcome.loup mirrors.outcome
  rw [Optimizer.closeEmpty, Optimizer.closeEmpty, loup, mirrors.target, mirrors.uploOfEpsBoxes]
  dsimp only
  split
  · have raised := mirrors.raiseUplo (Scalar.min o.target o.uploOfEpsBoxes)
    exact ⟨by rw [raised.gapClosed], raised⟩
  · exact ⟨rfl, mirrors.raiseUplo _⟩

/-- Both searches end before their next iteration, in the same way, or none does. -/
theorem Mirrors.stop? (mirrors : Mirrors p first spare o o') :
    Option.Rel (fun r r' => r'.1 = r.1 ∧ Mirrors p first spare r.2 r'.2) o.stop? o'.stop? := by
  have limit : o'.pendingLimit = o.pendingLimit := by
    obtain ⟨-, -, -, -, secondary, percent, buffer, -, rfl⟩ := mirrors
    rfl
  rw [Optimizer.stop?, Optimizer.stop?, mirrors.gapClosed, mirrors.size, limit]
  split
  · exact .some ⟨rfl, mirrors⟩
  · split
    · obtain ⟨rfl, regular, used, fits, secondary, percent, buffer, buffers, rfl⟩ := mirrors
      exact .some ⟨rfl, rfl, regular, used, fits, secondary, percent, buffer, buffers, rfl⟩
    · split
      · exact .some mirrors.closeEmpty
      · exact .none

theorem Mirrors.takeCell (mirrors : Mirrors p first spare o o') :
    (Iteration.takeCell o = .error .underflow ∧ Iteration.takeCell o' = .error .underflow) ∨
      ∃ c d o₁ o₁', Iteration.takeCell o = .ok (c, o₁) ∧ Iteration.takeCell o' = .ok (d, o₁') ∧
        c.Resembles d ∧ c.Fits p.arity ∧ Mirrors p first spare o₁ o₁' := by
  obtain ⟨rfl, regular, used, fits, secondary, percent, buffer, buffers, rfl⟩ := mirrors
  rw [Iteration.takeCell, Iteration.takeCell]
  dsimp only
  rw [buffers.minimum]
  rcases buffers.pop with ⟨empty, empty'⟩ | ⟨c, d, b, b', popped, popped', alike, place, next⟩
  · rw [empty, empty']
    exact Or.inl ⟨rfl, rfl⟩
  · rw [popped, popped']
    have taken : Mirrors o.problem first spare
        { o with buffer := b, statistics := o.statistics.onIteration c.depth }
        { o with
          config := { o.config with secondary, percent }
          buffer := b'
          statistics := o.statistics.onIteration d.depth } :=
      ⟨rfl, regular, used, fits, secondary, percent, b', next, by rw [alike.depth]⟩
    exact Or.inr ⟨c, d, _, _, rfl, rfl, alike, place, taken.raiseUplo _⟩

end Optimizer

/-! ## Iterations -/

namespace Iteration
variable {p : Problem α} {first : κ} {spare less : Nat} {t t' : Iteration κ α} {c : Cell α}

inductive Mirrors (p : Problem α) (first : κ) (spare : Nat) :
    Iteration κ α → Iteration κ α → Prop
  | intro {o o' : Optimizer κ α} {events : List (SearchEvent α × Statistics)} :
      o.Mirrors p first spare o' → Mirrors p first spare ⟨o, events⟩ ⟨o', events⟩

theorem Mirrors.mono (mirrors : Mirrors p first spare t t') (le : less ≤ spare) :
    Mirrors p first less t t' := by
  cases mirrors with
  | intro mirrors => exact .intro (mirrors.mono le)

theorem Mirrors.prune (mirrors : Mirrors p first spare t t') (c : Cell α) (reason : PruneReason) :
    Mirrors p first spare (t.prune c reason) (t'.prune c reason) := by
  cases mirrors with
  | intro mirrors =>
      obtain ⟨rfl, regular, used, fits, secondary, percent, buffer, buffers, rfl⟩ := mirrors
      exact .intro ⟨rfl, regular, used, fits, secondary, percent, buffer, buffers, rfl⟩

theorem Mirrors.dropSmall (mirrors : Mirrors p first spare t t') (c : Cell α) (lower : α) :
    Mirrors p first spare (t.dropSmall c lower) (t'.dropSmall c lower) := by
  cases mirrors with
  | intro mirrors => exact (Mirrors.intro (mirrors.recordEpsBox lower)).prune c .precision

theorem Mirrors.addChild (mirrors : Mirrors p first (spare + 1) t t') {domain : Box α} {depth : Nat}
    (valid : domain.Valid) (dim : domain.dim = p.arity) :
    Checked.Matches (Mirrors p first spare) (t.addChild (.ofDomain domain depth))
      (t'.addChild (.ofDomain domain depth)) := by
  have unpushed := mirrors.mono (Nat.le_succ spare)
  cases mirrors with
  | intro mirrors =>
      have pushes := fun {c : Cell α} => mirrors.pushCell (c := c)
      obtain ⟨rfl, regular, used, fits, secondary, percent, buffer, buffers, rfl⟩ := mirrors
      rw [Iteration.addChild, Iteration.addChild]
      refine .same ?_
      rintro ⟨image, child⟩ asked
      obtain ⟨child_fits, current⟩ := regular.fits valid dim asked
      refine .ite (fun _ => .ok (unpushed.prune child .objectiveCut)) fun _ => ?_
      refine .ite (fun _ => .ok (unpushed.dropSmall child image.lo)) fun _ => ?_
      exact (pushes child_fits current image.lo).bind fun o₁ o₁' next => .ok (.intro next)

theorem Mirrors.improve (mirrors : Mirrors p first spare t t') {found : Candidate α}
    (number : IsNumber found.value) :
    Stateful.Matches Eq (Mirrors p first spare) (t.improve found) (t'.improve found) := by
  cases mirrors with
  | intro mirrors =>
      obtain ⟨rfl, regular, used, fits, secondary, percent, buffer, buffers, rfl⟩ := mirrors
      rename_i o events
      have dropped := (buffers.setIncumbent found.value).evict (regular.target found.value number)
      rw [Iteration.improve, Iteration.improve]
      dsimp only [Optimizer.target]
      rw [show SearchConfig.target { o.config with secondary, percent } found.value =
        o.config.target found.value from rfl]
      generalize (o.buffer.setIncumbent found.value).evict (o.config.target found.value) = r,
        (buffer.setIncumbent found.value).evict (o.config.target found.value) = r' at dropped ⊢
      obtain ⟨evicted, kept⟩ := r
      obtain ⟨_, kept'⟩ := r'
      obtain ⟨rfl, kept_mirrors⟩ := dropped
      refine Stateful.matches_same fun k j j' told => Stateful.matches_pure (.intro ?_)
      exact ⟨rfl, regular, used.onIncumbent told, fits, secondary, percent, kept', kept_mirrors,
        rfl⟩

variable [RepresentingScalar α] [SplittingScalar α]

theorem Mirrors.branch (mirrors : Mirrors p first (spare + 2) t t') (valid : c.domain.Valid)
    (live : c.domain.isEmpty = false) (dim : c.domain.dim = p.arity) (lower : α) :
    Checked.Matches (Mirrors p first spare) (t.branch c lower) (t'.branch c lower) := by
  cases mirrors with
  | intro mirrors =>
      obtain ⟨rfl, regular, used, fits, secondary, percent, buffer, buffers, rfl⟩ := mirrors
      rename_i o events
      rw [Iteration.branch, Iteration.branch]
      dsimp only
      generalize o.bisector.choose c.domain o.config.precision = choice
      obtain ⟨var, bisector⟩ := choice
      have chosen : Mirrors o.problem first (spare + 2) (Iteration.mk { o with bisector } events)
          (Iteration.mk { o with
            bisector, config := { o.config with secondary, percent }, buffer } events) :=
        .intro ⟨rfl, regular, used, fits, secondary, percent, buffer, buffers, rfl⟩
      cases var with
      | none => exact .ok ((chosen.dropSmall c lower).mono (Nat.le_add_right _ 2))
      | some var =>
          refine .same ?_
          rintro ⟨left, right⟩ halves
          obtain ⟨⟨l, r⟩, bisected, halves⟩ := bind_eq_ok.mp halves
          obtain ⟨rfl, rfl⟩ := Prod.mk.inj (Except.ok.inj halves)
          obtain ⟨within, within'⟩ := Box.within_of_bisect (valid.proper live) bisected
          refine (chosen.addChild within.valid (within.dim.trans dim)).bind fun t₁ t₁' next => ?_
          exact next.addChild within'.valid (within'.dim.trans dim)

theorem Mirrors.explore (mirrors : Mirrors p first (spare + 2) t t') (halvings : Nat)
    (valid : c.domain.Valid) (live : c.domain.isEmpty = false) (dim : c.domain.dim = p.arity)
    (image : Interval α) :
    Stateful.Matches Eq (Mirrors p first spare) (t.explore halvings c image)
      (t'.explore halvings c image) := by
  cases mirrors with
  | intro mirrors =>
      obtain ⟨rfl, regular, used, fits, secondary, percent, buffer, buffers, rfl⟩ := mirrors
      rename_i o events
      rw [Iteration.explore, Iteration.explore]
      refine Stateful.matches_same ?_
      rintro ⟨found, finder⟩ j j' looked
      have looking : Mirrors o.problem first (spare + 2) (Iteration.mk { o with finder } events)
          (Iteration.mk { o with
            finder, config := { o.config with secondary, percent }, buffer } events) :=
        .intro ⟨rfl, regular, used, fits, secondary, percent, buffer, buffers, rfl⟩
      cases found with
      | none => exact Stateful.matches_liftM (looking.branch valid live dim image.lo)
      | some candidate =>
          have lower := IncumbentFinder.lt_of_find (run_liftM_eq_ok.mp looked).1
          refine (looking.improve (lt_iff.mp lower).1).bind ?_
          intro t₁ t₁' improved
          have pruned := (improved.prune c .objectiveCut).mono (Nat.le_add_right spare 2)
          have branched := improved.branch valid live dim image.lo
          have target : t₁'.search.target = t₁.search.target := by
            cases improved with
            | intro mirrors => exact mirrors.target
          rw [target]
          exact Stateful.matches_ite (fun _ => Stateful.matches_pure pruned)
            fun _ => Stateful.matches_liftM branched

theorem Mirrors.examine (mirrors : Mirrors p first (spare + 2) t t') (halvings : Nat)
    (current : c.box.Current p)
    (part : c.domain.isEmpty = false → c.domain.Valid ∧ c.domain.dim = p.arity) :
    Stateful.Matches Eq (Mirrors p first spare) (t.examine halvings c) (t'.examine halvings c) := by
  have pruned := (mirrors.mono (Nat.le_add_right spare 2)).prune
  have explored := fun {c : Cell α} => mirrors.explore (c := c) halvings
  cases mirrors with
  | intro mirrors =>
      obtain ⟨rfl, regular, used, fits, secondary, percent, buffer, buffers, rfl⟩ := mirrors
      rename_i o events
      rw [Iteration.examine, Iteration.examine]
      refine Stateful.matches_ite (fun _ => Stateful.matches_pure (pruned c .infeasible))
        fun live => Stateful.matches_same ?_
      rintro ⟨violated, d⟩ j j' checked
      refine Stateful.matches_ite (fun _ => Stateful.matches_pure (pruned d .infeasible))
        fun _ => Stateful.matches_same ?_
      rintro ⟨image, e⟩ k k' asked
      obtain ⟨same, current', -⟩ :=
        Cell.certainlyInfeasible_eq_ok current (run_liftM_eq_ok.mp checked).1
      obtain ⟨-, same', -⟩ := Cell.objective_eq_ok current' (run_liftM_eq_ok.mp asked).1
      have live := Bool.eq_false_iff.mpr live
      obtain ⟨valid, dim⟩ := part live
      rw [← same, ← same'] at valid dim live
      have explored := explored valid live dim image
      refine Stateful.matches_ite (fun _ => Stateful.matches_pure (pruned e .objectiveCut))
        fun _ => ?_
      refine Stateful.matches_ite (fun _ => ?_) fun _ => explored
      refine Stateful.matches_same fun excluded _ _ _ => ?_
      exact Stateful.matches_ite (fun _ => Stateful.matches_pure (pruned e .firstOrder))
        fun _ => explored

end Iteration

/-- The number of cells that a run opens at most: the root, and two in every iteration. -/
def Budget.cells (budget : Budget) : Nat := 2 * budget.iterations + 1

namespace Optimizer
variable [RepresentingScalar α] [SplittingScalar α] {p : Problem α} {first : κ} {spare : Nat}
  {o o' : Optimizer κ α}

theorem Mirrors.iteration (mirrors : Mirrors p first (spare + 2) o o') (halvings : Nat) :
    Stateful.Matches Eq (fun r r' => r'.1 = r.1 ∧ Iteration.Mirrors p first spare r.2 r'.2)
      (Iteration.run halvings o) (Iteration.run halvings o') := by
  rw [Iteration.run, Iteration.run]
  rcases mirrors.takeCell with ⟨none, none'⟩ | ⟨c, d, o₁, o₁', taken, taken', alike, fits, next⟩
  · rw [none, none']
    exact Stateful.matches_pure ⟨rfl, .intro (mirrors.mono (Nat.le_add_right _ 2))⟩
  · rw [taken, taken']
    obtain ⟨rfl, regular, used, known, secondary, percent, buffer, buffers, rfl⟩ := next
    have remade : ∀ b, d.withDomain b = c.withDomain b :=
      fun b => congrArg (Cell.ofDomain b) alike.depth
    dsimp only
    rw [alike.domain]
    refine Stateful.matches_same ?_
    rintro ⟨narrowing, k⟩ j j' contracted
    have begun : Iteration.Mirrors o₁.problem first (spare + 2)
        (.ofSearch { o₁ with contractor := k })
        (.ofSearch { o₁ with
          contractor := k, config := { o₁.config with secondary, percent }, buffer }) :=
      .intro ⟨rfl, regular, used.contract contracted, known, secondary, percent, buffer, buffers,
        rfl⟩
    have examined := fun b => begun.examine (c := c.withDomain b) halvings
      (CachedBox.current_ofDomain _ b)
    cases narrowing with
    | failed e => exact Stateful.matches_pure ⟨rfl, begun.mono (Nat.le_add_right _ 2)⟩
    | noSolution =>
        dsimp only
        rw [remade]
        exact Stateful.matches_pure ⟨rfl,
          (begun.prune (c.withDomain c.domain) .infeasible).mono (Nat.le_add_right _ 2)⟩
    | narrowed b =>
        dsimp only
        rw [remade]
        refine (examined b fun live => ?_).bind
          fun t t' after => Stateful.matches_pure ⟨rfl, after⟩
        rcases regular.shrinks used fits.valid fits.dim contracted with empty | part
        · cases live.symm.trans empty
        · exact ⟨part.valid, part.dim.trans fits.dim⟩
    | unavailable =>
        dsimp only
        rw [remade]
        exact (examined c.domain fun _ => ⟨fits.valid, fits.dim⟩).bind
          fun t t' after => Stateful.matches_pure ⟨rfl, after⟩

/-! ## Runs -/

variable {μ : Type} [SearchMonitor μ α]

inductive EndAlike {ε : Type} (R : Optimizer κ α → Optimizer κ α → Prop) :
    Ended κ μ α ε → Ended κ μ α ε → Prop
  | intro {result : ε} {o o' : Optimizer κ α} {m : μ} :
      R o o' → EndAlike R ⟨result, o, m⟩ ⟨result, o', m⟩

/-- Every iteration takes two numbers at most. -/
theorem Mirrors.loop (halvings : Nat) :
    ∀ {n : Nat} {o o' : Optimizer κ α} (m : μ), Mirrors p first (2 * n + spare) o o' →
      Stateful.Matches Eq (EndAlike (Mirrors p first spare)) (loop halvings n o m)
        (loop halvings n o' m) := by
  intro n
  induction n with
  | zero =>
      rintro o o' m - j _ rfl
      exact .fault
  | succ n ih =>
      intro o o' m mirrors
      have stops := mirrors.stop?
      have statistics : o'.statistics = o.statistics :=
        congrArg Outcome.statistics mirrors.outcome
      rw [Optimizer.loop, Optimizer.loop, mirrors.progress, statistics]
      generalize o.stop? = stopped, o'.stop? = stopped' at stops
      cases stops with
      | @some r r' same =>
          obtain ⟨status, o₁⟩ := r
          obtain ⟨_, o₁'⟩ := r'
          obtain ⟨rfl, ended⟩ := same
          exact Stateful.matches_pure (.intro (ended.mono (Nat.le_add_left _ _)))
      | none =>
          dsimp only
          refine Stateful.matches_same fun m₁ j j' _ => Stateful.matches_same ?_
          rintro ⟨reason, m₂⟩ k k' -
          cases reason with
          | some reason =>
              exact Stateful.matches_pure (.intro (mirrors.mono (Nat.le_add_left _ _)))
          | none =>
              have paid : Mirrors p first (2 * n + spare + 2) o o' := mirrors.mono (by omega)
              refine (paid.iteration halvings).bind ?_
              rintro ⟨_, t⟩ ⟨error, t'⟩ ⟨rfl, after⟩
              cases after with
              | intro after =>
                  refine Stateful.matches_same fun _ _ _ _ =>
                    Stateful.matches_same fun m₃ _ _ _ => ?_
                  cases error with
                  | some e =>
                      exact Stateful.matches_pure (.intro (after.mono (Nat.le_add_left _ _)))
                  | none => exact ih m₃ after

theorem Mirrors.search {budget : Budget}
    (mirrors : Mirrors p first (2 * budget.iterations + spare) o o') (m : μ) :
    Stateful.Matches Eq (EndAlike (Mirrors p first spare)) (search budget o m)
      (search budget o' m) := by
  obtain ⟨rfl, regular, used, fits, secondary, percent, buffer, buffers, rfl⟩ := mirrors
  have running : Mirrors o.problem first (2 * budget.iterations + spare)
      { o with status := .running }
      { o with status := .running, config := { o.config with secondary, percent }, buffer } :=
    ⟨rfl, regular, used, fits, secondary, percent, buffer, buffers, rfl⟩
  rw [Optimizer.search, Optimizer.search]
  refine Stateful.matches_same fun start _ _ _ => Stateful.matches_same fun m₁ _ _ _ => ?_
  refine (running.loop budget.halvings m₁).bind ?_
  rintro _ _ ⟨ended⟩
  rename_i result o₁ o₁' m₂
  refine Stateful.matches_same fun now _ _ _ => ?_
  obtain ⟨problem, regular, used, fits, secondary, percent, buffer, buffers, rfl⟩ := ended
  cases result with
  | error e =>
      refine Stateful.matches_same fun m₃ _ _ _ => Stateful.matches_pure (.intro ?_)
      exact ⟨problem, regular, used, fits, secondary, percent, buffer, buffers, rfl⟩
  | ok status =>
      refine Stateful.matches_same fun m₃ _ _ _ => Stateful.matches_pure (.intro ?_)
      exact ⟨problem, regular, used, fits, secondary, percent, buffer, buffers, rfl⟩

theorem Mirrors.run {budget : Budget} (mirrors : Mirrors p first (budget.cells + spare) o o')
    (m : μ) :
    Stateful.Matches Eq (EndAlike (Mirrors p first spare)) (o.run budget m) (o'.run budget m) := by
  have same := mirrors.mono (Nat.le_add_left spare budget.cells)
  have paid : Mirrors p first (2 * budget.iterations + spare + 1) o o' :=
    mirrors.mono (by rw [Budget.cells]; omega)
  have searched := (paid.mono (Nat.le_succ _)).search m
  have pushed := fun (domain : Box α) (known : o.domain = some domain) => paid.pushRoot known
  obtain ⟨rfl, regular, used, fits, secondary, percent, buffer, buffers, rfl⟩ := mirrors
  rw [Optimizer.run, Optimizer.run]
  dsimp only
  split
  · exact Stateful.matches_pure (.intro same)
  · rename_i known
    split
    · exact Stateful.matches_pure (.intro same)
    · exact Stateful.matches_pure (.intro same)
    · exact (Stateful.matches_liftM (pushed _ known)).bind fun o₁ o₁' next => next.search m
    · exact searched
    · exact searched

omit [RepresentingScalar α] [SplittingScalar α] in
/-- A restart flushes the buffers, so that all numbers are free again. -/
theorem Mirrors.restart (mirrors : Mirrors p first spare o o') :
    Stateful.Matches Eq (fun r r' => r'.1 = r.1 ∧ Mirrors p first (2 ^ 64) r.2 r'.2) o.restart
      o'.restart := by
  obtain ⟨rfl, regular, used, fits, secondary, percent, buffer, buffers, rfl⟩ := mirrors
  rw [Optimizer.restart, Optimizer.restart]
  refine Stateful.matches_ite (fun none => ?_) fun _ => ?_
  · obtain ⟨domain, known, -⟩ := fits
    rw [known] at none
    cases none
  · refine Stateful.matches_same fun k j j' restarted => Stateful.matches_pure ⟨rfl, ?_⟩
    exact ⟨rfl, regular, used.restart restarted, fits, secondary, percent, _,
      buffers.flush.setIncumbent infinity, rfl⟩

/-- A new domain is searched with all numbers free, or refused. -/
theorem matches_optimize {R : Optimizer κ α → Optimizer κ α → Prop} {budget : Budget}
    {domain : Box α} (problem : o'.problem = o.problem)
    (placed : domain.dim = o.problem.arity → Mirrors p first spare { o with domain := some domain }
      { o' with domain := some domain })
    (refused : R o o') (room : budget.cells ≤ 2 ^ 64)
    (after : ∀ o₁ o₁', Mirrors p first (2 ^ 64 - budget.cells) o₁ o₁' → R o₁ o₁') (m : μ) :
    Stateful.Matches Eq (EndAlike R) (o.optimize budget domain m)
      (o'.optimize budget domain m) := by
  have same : o'.problem.checkDomain domain = o.problem.checkDomain domain := by rw [problem]
  rw [Optimizer.optimize, Optimizer.optimize, same]
  cases checked : o.problem.checkDomain domain with
  | error e => exact Stateful.matches_pure (.intro refused)
  | ok _ =>
      refine (placed (Problem.dim_of_checkDomain checked)).restart.bind ?_
      rintro ⟨_, o₁⟩ ⟨answer, o₁'⟩ ⟨rfl, next⟩
      have paid : Mirrors p first (budget.cells + (2 ^ 64 - budget.cells)) o₁ o₁' :=
        next.mono (by omega)
      cases answer with
      | error e =>
          exact Stateful.matches_pure (.intro (after _ _ (next.mono (Nat.sub_le _ _))))
      | ok _ =>
          refine (paid.run m).mono ?_
          rintro _ _ ⟨ended⟩
          exact .intro (after _ _ ended)

end Optimizer

end BoxSearch
