import BoxSearch.Proofs.Contractor.NextBound
import BoxSearch.Proofs.Contractor.Shrinking
import BoxSearch.Proofs.Search.Balance
import BoxSearch.Proofs.Search.MirroredSearch
import BoxSearch.Proofs.Search.Target

/-!
# A second criterion without draws goes unnoticed

Whoever calls a search sees answers, monitors, bounds, statistics and the number of open cells, and
may decide by these what to call next. A search with a second criterion from which no cell is drawn
cannot be told apart from one without it, as long as the buffers can number their cells. The one
exception are settings for which the target of a number is not a number: the two buffers then drop
different cells.
-/
set_option autoImplicit false

namespace BoxSearch

open OrderedScalar Scalar Checked

variable {κ μ α : Type}

/-! ## Callers -/

inductive SearchCall (μ α : Type) where
  | optimize (budget : Budget) (domain : Box α) (monitor : μ)
  | run (budget : Budget) (monitor : μ)
  | restart

/-- What a caller sees: the answer, the monitor after the call, and the search that it leaves. -/
structure CallReport (μ α : Type) where
  answer : Except OptimizerError (Option (Outcome α))
  monitor : Option μ
  left : Outcome α
  uploOfEpsBoxes : α
  openCells : Nat

/-- The next call after the reports so far, if there is one. Calls that are fixed beforehand go by
the number of reports. -/
def Caller (μ α : Type) : Type := List (CallReport μ α) → Option (SearchCall μ α)

namespace Optimizer

def report (o : Optimizer κ α) (answer : Except OptimizerError (Option (Outcome α)))
    (monitor : Option μ) : CallReport μ α :=
  ⟨answer, monitor, o.outcome, o.uploOfEpsBoxes, o.buffer.size⟩

variable [Scalar α] [Contractor κ α] [SearchMonitor μ α]

def perform (o : Optimizer κ α) : SearchCall μ α → Journaled α (CallReport μ α × Optimizer κ α)
  | .optimize budget domain m => do
    let ended ← o.optimize budget domain m
    return (ended.search.report (ended.result.map some) (some ended.monitor), ended.search)
  | .run budget m => do
    let ended ← o.run budget m
    return (ended.search.report (ended.result.map some) (some ended.monitor), ended.search)
  | .restart => do
    let (answer, o) ← o.restart
    return (o.report (answer.map fun _ => none) none, o)

def serve (caller : Caller μ α) :
    Nat → List (CallReport μ α) → Optimizer κ α → Journaled α (List (CallReport μ α))
  | 0, reports, _ => return reports
  | n + 1, reports, o => do
    match caller reports with
    | none => return reports
    | some call =>
      let (report, o) ← o.perform call
      serve caller n (reports ++ [report]) o

/-- Sets a search up and lets a caller use it for up to `n` calls. -/
def reports (p : Problem α) (contractor : κ) (bisector : Bisector α) (config : SearchConfig α)
    (caller : Caller μ α) (n : Nat) :
    Journaled α (Except OptimizerError (List (CallReport μ α))) := do
  match ← ofParts p contractor bisector config with
  | .error e => return .error e
  | .ok o => return .ok (← serve caller n [] o)

end Optimizer

variable [Scalar α] [OrderedScalar α]

def SearchCall.Placed : SearchCall μ α → Prop
  | .optimize _ domain _ => domain.Valid
  | .run _ _ => True
  | .restart => True

def Caller.Placed (caller : Caller μ α) : Prop :=
  ∀ reports call, caller reports = some call → call.Placed

/-- When up to `n` cells have come in since the last flush, how many have after one more call. -/
def SearchCall.cells (n : Nat) : SearchCall μ α → Nat
  | .optimize budget _ _ => max n budget.cells
  | .run budget _ => n + budget.cells
  | .restart => 0

def Caller.cells (caller : Caller μ α) (reports : List (CallReport μ α)) : Nat :=
  (reports.inits.filterMap fun past => caller past).foldl SearchCall.cells 0

/-- The buffers can number all cells that come in. -/
def Caller.Numbered (caller : Caller μ α) : Prop := ∀ reports, caller.cells reports ≤ 2 ^ 64

omit [Scalar α] [OrderedScalar α] in
theorem Caller.cells_concat (caller : Caller μ α) (reports : List (CallReport μ α))
    (report : CallReport μ α) : caller.cells (reports ++ [report]) =
      (caller (reports ++ [report])).elim (caller.cells reports)
        (SearchCall.cells (caller.cells reports)) := by
  have later : (reports ++ [report]).inits = reports.inits ++ [reports ++ [report]] :=
    List.inits_append _ _
  rw [cells, cells, later, List.filterMap_append, List.foldl_append, List.filterMap_cons]
  cases caller (reports ++ [report]) <;> rfl

namespace Optimizer
variable [Contractor κ α] {p : Problem α} {first : κ} {config : SearchConfig α} {n : Nat}
  {o o' : Optimizer κ α}

/-! ## Between two calls -/

structure Unplaced (p : Problem α) (first : κ) (o o' : Optimizer κ α) : Prop where
  problem : o.problem = p
  regular : Regular p o.config first
  used : Contractor.Used first o.contractor
  domain : o.domain = none
  same : ∃ secondary percent buffer, o.buffer.Mirrors p.arity (2 ^ 64) buffer ∧
    o' = { o with config := { o.config with secondary, percent }, buffer }

inductive Aligned (p : Problem α) (first : κ) (n : Nat) (o o' : Optimizer κ α) : Prop
  | unplaced : Unplaced p first o o' → Aligned p first n o o'
  | placed : Mirrors p first (2 ^ 64 - n) o o' → Aligned p first n o o'

theorem Aligned.mono {more : Nat} (aligned : Aligned p first n o o') (le : n ≤ more) :
    Aligned p first more o o' := by
  cases aligned with
  | unplaced unplaced => exact .unplaced unplaced
  | placed mirrors => exact .placed (mirrors.mono (Nat.sub_le_sub_left le _))

theorem Aligned.report (aligned : Aligned p first n o o')
    (answer : Except OptimizerError (Option (Outcome α))) (monitor : Option μ) :
    o'.report answer monitor = o.report answer monitor := by
  cases aligned with
  | unplaced unplaced =>
      obtain ⟨-, -, -, -, secondary, percent, buffer, buffers, rfl⟩ := unplaced
      exact congrArg (CallReport.mk answer monitor o.outcome o.uploOfEpsBoxes) buffers.size
  | placed mirrors =>
      rw [Optimizer.report, Optimizer.report, mirrors.outcome, mirrors.uploOfEpsBoxes,
        mirrors.size]

theorem Aligned.problem (aligned : Aligned p first n o o') : o'.problem = o.problem := by
  cases aligned with
  | unplaced unplaced =>
      obtain ⟨-, -, -, -, secondary, percent, buffer, -, rfl⟩ := unplaced
      rfl
  | placed mirrors =>
      obtain ⟨-, -, -, -, secondary, percent, buffer, -, rfl⟩ := mirrors
      rfl

theorem Aligned.place (aligned : Aligned p first n o o') {domain : Box α} (valid : domain.Valid)
    (dim : domain.dim = o.problem.arity) : Mirrors p first (2 ^ 64 - n)
      { o with domain := some domain } { o' with domain := some domain } := by
  cases aligned with
  | unplaced unplaced =>
      obtain ⟨rfl, regular, used, -, secondary, percent, buffer, buffers, rfl⟩ := unplaced
      exact ⟨rfl, regular, used, ⟨domain, rfl, valid, dim⟩, secondary, percent, buffer,
        buffers.mono (Nat.sub_le _ _), rfl⟩
  | placed mirrors =>
      obtain ⟨rfl, regular, used, -, secondary, percent, buffer, buffers, rfl⟩ := mirrors
      exact ⟨rfl, regular, used, ⟨domain, rfl, valid, dim⟩, secondary, percent, buffer, buffers,
        rfl⟩

variable [RepresentingScalar α] [SplittingScalar α] [SearchMonitor μ α]

theorem Aligned.run {budget : Budget} (aligned : Aligned p first n o o')
    (room : n + budget.cells ≤ 2 ^ 64) (m : μ) :
    Stateful.Matches Eq (EndAlike (Aligned p first (n + budget.cells))) (o.run budget m)
      (o'.run budget m) := by
  cases aligned with
  | unplaced unplaced =>
      have same := unplaced
      obtain ⟨rfl, -, -, none, secondary, percent, buffer, -, rfl⟩ := unplaced
      rw [Optimizer.run, Optimizer.run]
      dsimp only
      split
      · exact Stateful.matches_pure (.intro (.unplaced same))
      · rename_i known
        cases none.symm.trans known
  | placed mirrors =>
      have paid : Mirrors p first (budget.cells + (2 ^ 64 - (n + budget.cells))) o o' :=
        mirrors.mono (by omega)
      refine (paid.run m).mono ?_
      rintro _ _ ⟨ended⟩
      exact .intro (.placed ended)

omit [RepresentingScalar α] [SplittingScalar α] [SearchMonitor μ α] in
theorem Aligned.restart (aligned : Aligned p first n o o') :
    Stateful.Matches Eq (fun r r' => r'.1 = r.1 ∧ Aligned p first 0 r.2 r'.2) o.restart
      o'.restart := by
  cases aligned with
  | unplaced unplaced =>
      have same := unplaced
      obtain ⟨rfl, -, -, none, secondary, percent, buffer, -, rfl⟩ := unplaced
      rw [Optimizer.restart, Optimizer.restart]
      refine Stateful.matches_ite (fun _ => Stateful.matches_pure ⟨rfl, .unplaced same⟩)
        fun placed => absurd ?_ placed
      rw [none]
      rfl
  | placed mirrors => exact mirrors.restart.mono fun _ _ next => ⟨next.1, .placed next.2⟩

theorem Aligned.perform (aligned : Aligned p first n o o') {call : SearchCall μ α}
    (placed : call.Placed) (room : call.cells n ≤ 2 ^ 64) :
    Stateful.Matches Eq (fun r r' => r'.1 = r.1 ∧ Aligned p first (call.cells n) r.2 r'.2)
      (o.perform call) (o'.perform call) := by
  cases call with
  | optimize budget domain m =>
      refine (matches_optimize (R := Aligned p first (max n budget.cells)) aligned.problem
        (aligned.place placed) (aligned.mono (Nat.le_max_left _ _))
        ((Nat.le_max_right _ _).trans room) (fun _ _ next => ?_) m).bind ?_
      · exact .placed (next.mono (Nat.sub_le_sub_left (Nat.le_max_right _ _) _))
      · rintro _ _ ⟨next⟩
        exact Stateful.matches_pure ⟨next.report _ _, next⟩
  | run budget m =>
      refine (aligned.run room m).bind ?_
      rintro _ _ ⟨next⟩
      exact Stateful.matches_pure ⟨next.report _ _, next⟩
  | restart =>
      refine aligned.restart.bind ?_
      rintro ⟨_, o₁⟩ ⟨answer, o₁'⟩ ⟨rfl, next⟩
      exact Stateful.matches_pure ⟨next.report _ _, next⟩

/-- The caller gets the same reports and hence makes the same calls. -/
theorem Aligned.serve {caller : Caller μ α} (placed : caller.Placed) (numbered : caller.Numbered) :
    ∀ {k : Nat} {reports : List (CallReport μ α)} {n : Nat} {o o' : Optimizer κ α},
      caller.cells reports = (caller reports).elim n (SearchCall.cells n) →
      Aligned p first n o o' →
      Stateful.Matches Eq Eq (serve caller k reports o) (serve caller k reports o') := by
  intro k
  induction k with
  | zero => exact fun _ _ => Stateful.matches_pure rfl
  | succ k ih =>
      intro reports n o o' counted aligned
      rw [Optimizer.serve, Optimizer.serve]
      cases next : caller reports with
      | none => exact Stateful.matches_pure rfl
      | some call =>
          rw [next] at counted
          have room : call.cells n ≤ 2 ^ 64 := counted.symm.trans_le (numbered reports)
          refine (aligned.perform (placed reports call next) room).bind ?_
          rintro ⟨_, o₁⟩ ⟨report, o₁'⟩ ⟨rfl, aligned'⟩
          refine ih ?_ aligned'
          rw [caller.cells_concat, counted]
          rfl

omit [RepresentingScalar α] [SplittingScalar α] in
theorem matches_ofParts (regular : Regular p config first) (bisector : Bisector α)
    (criterion : Criterion) :
    Checked.Matches
      (fun r r' => (∃ e, r = .error e ∧ r' = .error e) ∨
        ∃ o o', r = .ok o ∧ r' = .ok o' ∧ Aligned p first 0 o o')
      (ofParts p first bisector { config with secondary := none })
      (ofParts p first bisector { config with secondary := some criterion, percent := 0 }) := by
  rw [ofParts, ofParts]
  refine .ite (fun _ => .ok (Or.inl ⟨_, rfl, rfl⟩)) fun _ => ?_
  refine (matches_bufferOf p.arity config criterion).bind ?_
  rintro _ _ ⟨b, b', rfl, rfl, mirrors⟩
  refine .ok (Or.inr ⟨_, _, rfl, rfl, ?_⟩)
  exact .unplaced ⟨rfl, ⟨regular.answering, regular.shrinks, regular.tolerance, regular.target⟩,
    .first, rfl, some criterion, 0, b', mirrors, rfl⟩

/-- With probability zero a second criterion shows in nothing that a caller sees and in nothing that
is written down on the way, as long as the cells can be numbered. The contractor is one of the
library. -/
theorem second_order_unnoticed [SteppingScalar α] {σ : Type} [LpSolver σ α]
    {contractor : PlannedContractor σ α} {caller : Caller μ α} (answering : p.Answering)
    (fits : contractor.plan.Fits p.arity) (tolerance : 0 ≤ config.equalityTolerance)
    (target : ∀ v, IsNumber v → IsNumber (config.target v)) (placed : caller.Placed)
    (numbered : caller.Numbered) :
    ∀ (bisector : Bisector α) (criterion : Criterion) (n : Nat) (j : Journal α),
      (reports p contractor bisector { config with secondary := some criterion, percent := 0 }
          caller n).run j =
        (reports p contractor bisector { config with secondary := none } caller n).run j := by
  intro bisector criterion n j
  have regular : Regular p config contractor :=
    ⟨answering, PlannedContractor.shrinks_of_fits fits, tolerance, target⟩
  refine (Stateful.Matches.run_eq ?_ j).symm
  rw [reports, reports]
  refine (Stateful.matches_liftM (matches_ofParts regular bisector criterion)).bind ?_
  rintro _ _ (⟨e, rfl, rfl⟩ | ⟨o, o', rfl, rfl, aligned⟩)
  · exact Stateful.matches_pure rfl
  · refine (aligned.serve placed numbered ?_).bind ?_
    · rw [Caller.cells, List.inits, List.filterMap_cons]
      cases caller [] <;> rfl
    rintro answers _ rfl
    exact Stateful.matches_pure rfl

end Optimizer

/-! ## Affine problems -/

theorem SearchConfig.number_target_of_absoluteGoal [SubtractingScalar α]
    {config : SearchConfig α} (number : IsNumber config.absoluteGoal) {v : α}
    (hv : IsNumber v) : IsNumber (config.target v) := by
  cases finite : isFinite v with
  | true =>
      rw [target, finite]
      exact (value_min_le (SubtractingScalar.number_sub finite number)).1
  | false => exact (target_of_not_finite finite).symm ▸ hv

omit [OrderedScalar α] in
theorem Affine.eval_returns {f : Affine α} (constant : isFinite f.constant = true)
    (coeffs : ∀ c ∈ f.coeffs, isFinite c = true) (b : Box α) :
    ∃ image, f.eval b = .ok image := by
  rw [Affine.eval]
  split
  · exact ⟨_, rfl⟩
  · obtain ⟨image, found⟩ := Box.dot_ok (b := b) coeffs
    rw [bind_of_ok found, Interval.addScalar, Interval.point_ok constant]
    exact ⟨_, rfl⟩

namespace AboveQuarter

def checkedContractor : PlannedContractor (SingleRowSolver Float) Float :=
  .sequence [.check problem, .intersection ⟨[⟨0, 4⟩]⟩]

/-- A run that is stopped after its first iteration and resumed, and another one after a restart. -/
def stopAndRestart : Caller Monitor Float := fun reports =>
  match reports.length with
  | 0 => some (.optimize ⟨9, 8⟩ domain (.iterationLimit 1))
  | 1 => some (.run ⟨9, 8⟩ .idle)
  | 2 => some .restart
  | 3 => some (.run ⟨9, 8⟩ .idle)
  | _ => none

theorem answering : problem.Answering where
  constraint := by
    intro b _ _ c listed
    obtain rfl := List.mem_singleton.mp listed
    refine Affine.eval_returns (f := ⟨[1], -0.25⟩) ?_ (List.forall_mem_singleton.mpr ?_) b <;>
      decide +kernel
  objective _ _ found := Affine.valid_eval found

theorem placed_stopAndRestart : stopAndRestart.Placed := by
  intro reports call next
  rw [stopAndRestart] at next
  split at next
  · obtain rfl := Option.some.inj next
    exact valid_domain
  · obtain rfl := Option.some.inj next
    trivial
  · obtain rfl := Option.some.inj next
    trivial
  · obtain rfl := Option.some.inj next
    trivial
  · cases next

theorem numbered_stopAndRestart : stopAndRestart.Numbered := by
  have counted : ∀ reports, stopAndRestart.cells reports = [19, 38, 0].getD reports.length 19 := by
    intro reports
    induction reports using List.reverseRecOn with
    | nil => rfl
    | append_singleton reports report ih =>
        rw [Caller.cells_concat, ih, stopAndRestart, List.length_append, List.length_singleton]
        match reports.length with
        | 0 | 1 | 2 | _ + 3 => rfl
  intro reports
  rw [counted]
  match reports.length with
  | 0 | 1 | 2 => decide
  | _ + 3 => exact (by decide : 19 ≤ 2 ^ 64)

/-- The caller is told the same four reports, the last one with the minimum `1/4`. -/
theorem four_calls_unnoticed :
    problem.Answering ∧ checkedContractor.plan.Fits problem.arity ∧
    0 ≤ halving.equalityTolerance ∧ (∀ v, IsNumber v → IsNumber (halving.target v)) ∧
    stopAndRestart.Placed ∧ stopAndRestart.Numbered ∧ ∃ reports j,
      (Optimizer.reports problem checkedContractor (.roundRobin 0)
        { halving with secondary := some .feasibleGap, percent := 0 } stopAndRestart 5).run .empty =
          .ok (.ok reports, j) ∧
      (Optimizer.reports problem checkedContractor (.roundRobin 0)
        { halving with secondary := none } stopAndRestart 5).run .empty = .ok (.ok reports, j) ∧
      reports.length = 4 ∧ (reports.getLast?.any fun r => r.left.point == some [0.25]) = true := by
  have answer : ((Optimizer.reports problem checkedContractor (.roundRobin 0)
      { halving with secondary := none } stopAndRestart 5).run .empty).toOption.any
        (fun ran => ran.1.toOption.any fun reports => decide (reports.length = 4 ∧
          (reports.getLast?.any fun r => r.left.point == some [0.25]) = true)) = true := by
    decide +kernel
  obtain ⟨⟨_, j⟩, ran, answer₁⟩ := any_eq_true.mp answer
  obtain ⟨reports, rfl, answer₂⟩ := any_eq_true.mp answer₁
  obtain ⟨four, found⟩ := of_decide_eq_true answer₂
  have fits : checkedContractor.plan.Fits problem.arity := by
    refine ⟨trivial, ⟨List.forall_mem_singleton.mpr (Or.inr ?_), rfl⟩, trivial⟩
    refine Interval.proper_of_finite ?_ ?_ ?_ <;> decide +kernel
  have nonneg : 0 ≤ halving.equalityTolerance := by decide +kernel
  have target : ∀ v, IsNumber v → IsNumber (halving.target v) := fun v hv =>
    SearchConfig.number_target_of_absoluteGoal (by
      change Scalar.isNaN _ = false
      decide +kernel) hv
  have same := Optimizer.second_order_unnoticed answering fits nonneg target
    placed_stopAndRestart numbered_stopAndRestart (.roundRobin 0) .feasibleGap 5 .empty
  exact ⟨answering, fits, nonneg, target, placed_stopAndRestart, numbered_stopAndRestart, reports,
    j, same.trans ran, ran, four, found⟩

end AboveQuarter

end BoxSearch
