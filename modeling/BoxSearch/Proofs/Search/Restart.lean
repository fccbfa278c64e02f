import BoxSearch.Proofs.Search.Certificate
import BoxSearch.Proofs.Search.Resemblance
import BoxSearch.Proofs.Search.Setup

/-!
# A restart forgets everything

Whatever calls came before, a restart leads back to a search that looks like a new one made from
the same parts. So the next search of a domain answers as the first one would have.
-/
set_option autoImplicit false

namespace BoxSearch

open Scalar Checked
open Journaled (follows_pure)
open SearchMonitor (Patient)

variable {σ κ μ ν α : Type} [Scalar α] [SearchMonitor μ α] [SearchMonitor ν α]

section
variable [Contractor κ α] {R : κ → κ → Prop}

omit [Scalar α] in
theorem Contractor.Bisimulation.used {k l : κ} (bisimulation : Contractor.Bisimulation R)
    (self : R k k) (used : Contractor.Used k l) : R l l := by
  induction used with
  | first => exact self
  | contract _ success ih =>
      obtain ⟨r, same, -, related⟩ := (bisimulation.contract ih _ _ _).answer success
      obtain rfl := Except.ok.inj (success.symm.trans same)
      exact related
  | onIncumbent _ success ih =>
      obtain ⟨r, same, related⟩ := (bisimulation.onIncumbent ih _ _ _).answer success
      obtain rfl := Except.ok.inj (success.symm.trans same)
      exact related
  | restart _ success ih =>
      obtain ⟨r, same, related⟩ := (bisimulation.restart ih ih _ _).answer success
      obtain rfl := Except.ok.inj (success.symm.trans same)
      exact related

namespace Optimizer
variable {first o o' : Optimizer κ α} {dropped : List (Dropped α)}

/-- Searches that are left behind by calls of any kind, with any monitors and any results. -/
inductive Called (first : Optimizer κ α) : Optimizer κ α → Prop
  | begin : Called first first
  | run {μ : Type} [SearchMonitor μ α] {o o' : Optimizer κ α} {budget : Budget} {m m' : μ}
      {result : Except OptimizerError (Outcome α)} {j j' : Journal α} : Called first o →
      (o.run budget m).run j = .ok (⟨result, o', m'⟩, j') → Called first o'
  | restart {o o' : Optimizer κ α} {answer : Except OptimizerError Unit} {j j' : Journal α} :
      Called first o → o.restart.run j = .ok ((answer, o'), j') → Called first o'
  | optimize {μ : Type} [SearchMonitor μ α] {o o' : Optimizer κ α} {budget : Budget}
      {domain : Box α} {m m' : μ} {result : Except OptimizerError (Outcome α)}
      {j j' : Journal α} : Called first o →
      (o.optimize budget domain m).run j = .ok (⟨result, o', m'⟩, j') → Called first o'

theorem Called.history (called : Called first o) : ∃ dropped, History first o dropped := by
  induction called with
  | begin => exact ⟨[], .begin⟩
  | run _ success ih =>
      obtain ⟨_, history⟩ := ih
      obtain ⟨_, further⟩ := history.run success
      exact ⟨_, further⟩
  | restart _ success ih =>
      obtain ⟨_, history⟩ := ih
      exact history.restarted success
  | optimize _ success ih =>
      obtain ⟨_, history⟩ := ih
      exact history.optimize success

/-- After a reset, searches with the same parts look alike. -/
theorem Descends.resembles {k l : κ} (left : Descends first o) (right : Descends first o')
    (domain : o.domain = o'.domain) (related : R k l) : Resembles R (o.reset k) (o'.reset l) := by
  have buffers := CellBuffer.flush_eq_of_setup (left.setup.trans right.setup.symm)
  refine ⟨l, .init, 0, related, ?_⟩
  rw [Optimizer.reset, Optimizer.reset, ← buffers, left.problem, right.problem, left.config,
    right.config, left.finder, right.finder, left.bisector, right.bisector, domain]
  rfl

def rerun (budget : Budget) (o : Optimizer κ α) (m : μ) :
    Journaled α (Ended κ μ α (Except OptimizerError (Outcome α))) := do
  match ← o.restart with
  | (.error e, o) => return ⟨.error e, o, m⟩
  | (.ok _, o) => o.run budget m

theorem rerun_eq {domain : Box α} {budget : Budget} {m : μ} (known : o.domain = some domain) :
    rerun budget o m =
      Contractor.restart o.contractor >>= fun k => (o.reset k).run budget m := by
  rw [rerun, Optimizer.restart, known]
  simp

theorem optimize_eq {domain : Box α} {budget : Budget} {m : μ}
    (checked : o.problem.checkDomain domain = .ok ()) :
    o.optimize budget domain m = rerun budget { o with domain := some domain } m := by
  rw [Optimizer.optimize, checked]
  rfl

variable {budget budget' : Budget} {m : μ} {m' : ν}

theorem follows_rerun (bisimulation : Contractor.Bisimulation R)
    (self : R first.contractor first.contractor) (le : budget ≤ budget')
    (left : Descends first o) (right : Descends first o') (domain : o.domain = o'.domain)
    (patient : Patient m) (patient' : Patient m') :
    Journaled.Follows (fun e e' => e.report = e'.report) (rerun budget o m)
      (rerun budget' o' m') := by
  cases known : o.domain with
  | none =>
      rw [rerun, rerun, Optimizer.restart, Optimizer.restart, ← domain, known]
      exact follows_pure rfl
  | some place =>
      rw [rerun_eq known, rerun_eq (domain.symm.trans known)]
      refine (bisimulation.restart (bisimulation.used self left.used)
        (bisimulation.used self right.used)).bind ?_
      intro k l related
      have resembles := left.resembles right domain related
      exact fun j j' => (resembles.run bisimulation le rfl patient patient' j j').mono
        fun _ _ same => same.1

theorem follows_optimize (bisimulation : Contractor.Bisimulation R)
    (self : R first.contractor first.contractor) (le : budget ≤ budget')
    (left : Descends first o) (right : Descends first o') (domain : Box α)
    (patient : Patient m) (patient' : Patient m') :
    Journaled.Follows (fun e e' => e.report = e'.report) (o.optimize budget domain m)
      (o'.optimize budget' domain m') := by
  have problems := left.problem.trans right.problem.symm
  cases checked : o.problem.checkDomain domain with
  | error e =>
      rw [Optimizer.optimize, Optimizer.optimize, ← problems, checked]
      exact follows_pure rfl
  | ok _ =>
      rw [optimize_eq checked, optimize_eq (problems ▸ checked)]
      exact follows_rerun bisimulation self le { left with used := left.used }
        { right with used := right.used } rfl patient patient'

/-- The answer of a call apart from the time, or the fault that ended it. -/
def reportOf (call : Journaled α (Ended κ μ α (Except OptimizerError (Outcome α))))
    (j : Journal α) : Checked α (Except OptimizerError (Outcome α)) :=
  (call.run j).map fun r => r.1.report

omit [Scalar α] [SearchMonitor μ α] [SearchMonitor ν α] [Contractor κ α] in
theorem reportOf_eq {x : Journaled α (Ended κ μ α (Except OptimizerError (Outcome α)))}
    {y : Journaled α (Ended κ ν α (Except OptimizerError (Outcome α)))}
    (there : Journaled.Follows (fun e e' => e.report = e'.report) x y)
    (back : Journaled.Follows (fun e e' => e.report = e'.report) y x) (j j' : Journal α) :
    reportOf x j = reportOf y j' :=
  (there j j').map_eq (back j' j) fun _ _ same => same

/-- Whatever calls came before, a search of a domain with a patient monitor answers as the first
one would have, and so does a restart that is followed by a run. -/
theorem optimize_forgets [LpSolver σ α] [MemorylessSolver σ] {p : Problem α}
    {contractor : PlannedContractor σ α} {bisector : Bisector α} {config : SearchConfig α}
    {first o : Optimizer (PlannedContractor σ α) α}
    (made : ofParts p contractor bisector config = .ok (.ok first)) (called : Called first o)
    (patient : Patient m) (patient' : Patient m') (budget : Budget) (j j' : Journal α) :
    (∀ domain, reportOf (o.optimize budget domain m) j =
      reportOf (first.optimize budget domain m') j') ∧
    ∀ domain, o.domain = some domain →
      reportOf (rerun budget o m) j = reportOf (first.optimize budget domain m') j' := by
  have fresh : first.contractor = contractor ∧ first.domain = none := by
    obtain ⟨_, -, rfl⟩ := ofParts_eq_ok made
    exact ⟨rfl, rfl⟩
  have bisimulation := contractor.bisimulation
  have self : PlannedContractor.Twins contractor first.contractor first.contractor :=
    fresh.1.symm ▸ contractor.twins_self
  obtain ⟨_, history⟩ := called.history
  have left := history.descends
  have right : Descends first first := History.begin.descends
  constructor
  · intro domain
    exact reportOf_eq
      (follows_optimize bisimulation self budget.le_self left right domain patient patient')
      (follows_optimize bisimulation self budget.le_self right left domain patient' patient) j j'
  · intro domain known
    have checked := history.fits fresh.2 known
    rw [optimize_eq checked]
    have right' : Descends first { first with domain := some domain } :=
      { right with used := right.used }
    exact reportOf_eq
      (follows_rerun bisimulation self budget.le_self left right' known patient patient')
      (follows_rerun bisimulation self budget.le_self right' left known.symm patient' patient) j j'

end Optimizer

end

/-! ## A search with random points and a solver that counts -/

namespace AboveQuarter

def shaving : PlannedContractor (RecordedSolver (SingleRowSolver Float)) Float :=
  .relaxation (.ofParts ⟨1, none, [⟨(Affine.mk [1] (-0.125)).evaluator, .ge⟩]⟩ .standard) ⟨⟨⟩, []⟩
    (.check problem)

def splitting : SearchConfig Float := { settings with precision := 0.4, samples := 1 }

theorem stopped_and_resumed :
    ∃ (first o o' : Optimizer (PlannedContractor (RecordedSolver (SingleRowSolver Float)) Float)
        Float) (stopped outcome : Outcome Float) (m m' : Monitor) (j j' : Journal Float),
      Optimizer.ofParts problem shaving (.roundRobin 0) splitting = .ok (.ok first) ∧
      (first.optimize ⟨3, 8⟩ domain (Monitor.iterationLimit 1)).run .empty =
        .ok (⟨.ok stopped, o, m⟩, j) ∧
      (o.run ⟨3, 8⟩ Monitor.idle).run j = .ok (⟨.ok outcome, o', m'⟩, j') ∧
      o.statistics.iterations = 1 ∧ outcome.statistics.iterations = 2 ∧
      outcome.status = .exhausted := by
  have answer : ((Optimizer.ofParts problem shaving (.roundRobin 0) splitting).toOption.any
      fun made => made.toOption.any fun first =>
        ((first.optimize ⟨3, 8⟩ domain (Monitor.iterationLimit 1)).run .empty).toOption.any
          fun ran => ran.1.result.toOption.any fun _ =>
            ((ran.1.search.run ⟨3, 8⟩ Monitor.idle).run ran.2).toOption.any fun again =>
              again.1.result.toOption.any fun outcome =>
                decide (ran.1.search.statistics.iterations = 1 ∧
                  outcome.statistics.iterations = 2 ∧ outcome.status = .exhausted)) = true := by
    decide +kernel
  obtain ⟨_, made, answer₁⟩ := any_eq_true.mp answer
  obtain ⟨first, rfl, answer₂⟩ := any_eq_true.mp answer₁
  obtain ⟨⟨⟨_, o, m⟩, j⟩, begun, answer₃⟩ := any_eq_true.mp answer₂
  obtain ⟨stopped, rfl, answer₄⟩ := any_eq_true.mp answer₃
  obtain ⟨⟨⟨_, o', m'⟩, j'⟩, resumed, answer₅⟩ := any_eq_true.mp answer₄
  obtain ⟨outcome, rfl, answer₆⟩ := any_eq_true.mp answer₅
  exact ⟨first, o, o', stopped, outcome, m, m', j, j', made, begun, resumed,
    of_decide_eq_true answer₆⟩

/-- The search that was stopped is started anew, on its domain or on another one. -/
theorem search_forgotten :
    ∃ first o : Optimizer (PlannedContractor (RecordedSolver (SingleRowSolver Float)) Float) Float,
      Optimizer.ofParts problem shaving (.roundRobin 0) splitting = .ok (.ok first) ∧
      Optimizer.Called first o ∧ o.domain = some domain ∧ o.statistics.iterations = 1 ∧
      Patient Monitor.idle ∧
      (∀ place, Optimizer.reportOf (o.optimize ⟨3, 8⟩ place Monitor.idle) .empty =
        Optimizer.reportOf (first.optimize ⟨3, 8⟩ place Monitor.idle) .empty) ∧
      Optimizer.reportOf (Optimizer.rerun ⟨3, 8⟩ o Monitor.idle) .empty =
        Optimizer.reportOf (first.optimize ⟨3, 8⟩ domain Monitor.idle) .empty := by
  obtain ⟨first, o, _, _, _, _, _, _, _, made, begun, -, once, -⟩ := stopped_and_resumed
  have called : Optimizer.Called first o := .optimize .begin begun
  have known := Optimizer.domain_of_optimize begun
  have patient : Patient Monitor.idle := Monitor.patient_of_isPatient rfl
  obtain ⟨anew, again⟩ :=
    Optimizer.optimize_forgets made called patient patient ⟨3, 8⟩ .empty .empty
  exact ⟨first, o, made, called, known, once, patient, anew, again domain known⟩

end AboveQuarter

end BoxSearch
