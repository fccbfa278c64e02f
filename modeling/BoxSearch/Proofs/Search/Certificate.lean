import BoxSearch.Contractor.Plan
import BoxSearch.Linear.SingleRow
import BoxSearch.Proofs.Binary64.Sampling
import BoxSearch.Proofs.Interval.Enclosure
import BoxSearch.Proofs.Search.Reachable
import BoxSearch.Search.Monitor

/-!
# The incumbent is certified

As long as the contractor makes no box larger, a search has an incumbent exactly when it has an
upper bound, and the incumbent is a certified point of the domain with that value.
-/
set_option autoImplicit false

namespace BoxSearch

open Scalar Checked

namespace Optimizer
variable {κ α : Type} [Scalar α] [OrderedScalar α] [RepresentingScalar α] [SplittingScalar α]
  [ProbingScalar α] [Contractor κ α]

/-- Between any calls and iterations, there is an incumbent exactly when the bound is not infinite.
The incumbent is a point of the domain, its constraint enclosures are not empty and consist of
feasible values, and the bound is the upper end of the objective there. -/
theorem incumbent_certified {p : Problem α} {first : κ} {settings : SearchConfig α}
    {o : Optimizer κ α} (slopes : p.SlopePerVariable)
    (shrinks : Contractor.Shrinks p.arity first) (reached : Reachable p first settings o) :
    (o.point = none ↔ o.loup = infinity) ∧ ∀ place, o.point = some place →
      place.length = p.arity ∧ ∃ domain, o.domain = some domain ∧
        (Candidate.mk o.loup place).Certified p settings.equalityTolerance domain := by
  have placed := reached.placed shrinks
  rcases placed.incumbent slopes with ⟨none, top⟩ | ⟨place, domain, found, known, below, certified⟩
  · refine ⟨⟨fun _ => top, fun _ => none⟩, fun place found => ?_⟩
    cases none.symm.trans found
  · have bounded : o.loup ≠ infinity := by
      intro top
      rw [top, OrderedScalar.lt_iff] at below
      exact below.2.2.false
    refine ⟨⟨fun none => ?_, fun top => absurd top bounded⟩, fun place' found' => ?_⟩
    · cases none.symm.trans found
    · obtain rfl := Option.some.inj (found.symm.trans found')
      exact ⟨(Box.length_of_containsPoint certified.inside).trans (placed.fits known).2,
        domain, known, certified⟩

end Optimizer

/-! ## A contractor that narrows boxes -/

namespace PlannedContractor
variable {σ α : Type} [Scalar α] [OrderedScalar α] [LpSolver σ α]

omit [OrderedScalar α] in
theorem plan_of_used {first k : PlannedContractor σ α} (used : Contractor.Used first k) :
    k.plan = first.plan := by
  induction used with
  | first => rfl
  | contract _ success ih =>
      obtain ⟨_, _, -, success⟩ := run_bind_eq_ok.mp success
      obtain ⟨same, -⟩ := run_pure_eq_ok.mp success
      exact (congrArg (fun answer => answer.2.plan) same).symm.trans ih
  | onIncumbent _ success ih =>
      obtain ⟨_, _, -, success⟩ := run_bind_eq_ok.mp success
      obtain ⟨rfl, -⟩ := run_pure_eq_ok.mp success
      exact ih
  | restart _ success ih =>
      obtain ⟨_, _, -, success⟩ := run_bind_eq_ok.mp success
      obtain ⟨rfl, -⟩ := run_pure_eq_ok.mp success
      exact ih

theorem shrinks_intersection {measurement : Box α} (valid : measurement.Valid) :
    Contractor.Shrinks measurement.dim
      (intersection measurement : PlannedContractor σ α) := by
  intro k k' b b' j j' used valid_b dim success
  obtain ⟨plan, memory⟩ := k
  obtain rfl : plan = .intersection measurement := plan_of_used used
  obtain ⟨⟨outcome, _⟩, _, met, success⟩ := run_bind_eq_ok.mp success
  obtain ⟨met, -⟩ := run_pure_eq_ok.mp met
  obtain ⟨same, -⟩ := run_pure_eq_ok.mp success
  have narrowed : ContractorPlan.meet b measurement = .narrowed b' :=
    (congrArg Prod.fst met).trans (congrArg Prod.fst same)
  rw [ContractorPlan.meet] at narrowed
  split at narrowed
  · cases narrowed
  · rename_i live
    obtain rfl := Narrowing.narrowed.inj narrowed
    exact Or.inr (Box.within_intersect valid_b valid dim (Bool.eq_false_iff.mpr live))

end PlannedContractor

namespace AboveQuarter

def problem : Problem Float :=
  ⟨1, some (Affine.mk [1] 0).evaluator, [⟨(Affine.mk [1] (-0.25)).evaluator, .ge⟩]⟩

def domain : Box Float := ⟨[⟨0, 1⟩]⟩

def settings : SearchConfig Float := { SearchConfig.standard with precision := 2, samples := 0 }

def contractor : PlannedContractor (SingleRowSolver Float) Float := .intersection ⟨[⟨0.25, 4⟩]⟩

theorem valid_domain : domain.Valid := by
  refine List.forall_mem_singleton.mpr (Or.inr (Interval.proper_of_finite ?_ ?_ ?_)) <;>
    decide +kernel

theorem slopes : problem.SlopePerVariable := Affine.slopePerVariable rfl rfl

theorem shrinks : Contractor.Shrinks problem.arity contractor := by
  refine PlannedContractor.shrinks_intersection (List.forall_mem_singleton.mpr
    (Or.inr (Interval.proper_of_finite ?_ ?_ ?_))) <;> decide +kernel

theorem reaches_quarter : ∃ o, Optimizer.Reachable problem contractor settings o ∧
    o.point = some [0.25] := by
  have answer : ((Optimizer.ofParts problem contractor (.roundRobin 0) settings).toOption.any
      fun made => made.toOption.any fun o =>
        ((o.optimize ⟨3, 8⟩ domain Monitor.idle).run .empty).toOption.any fun ran =>
          decide (ran.1.search.point = some [0.25])) = true := by decide +kernel
  obtain ⟨_, made, answer₁⟩ := any_eq_true.mp answer
  obtain ⟨o, rfl, answer₂⟩ := any_eq_true.mp answer₁
  obtain ⟨_, ran, answer₃⟩ := any_eq_true.mp answer₂
  exact ⟨_, .optimize (.begin made) valid_domain ran, of_decide_eq_true answer₃⟩

/-- The minimum is certified, with a bound that is not infinite. -/
theorem quarter_certified :
    problem.SlopePerVariable ∧ Contractor.Shrinks problem.arity contractor ∧
    ∃ o, Optimizer.Reachable problem contractor settings o ∧ o.point = some [0.25] ∧
      o.loup ≠ infinity ∧ ∃ domain, o.domain = some domain ∧
        (Candidate.mk o.loup [0.25]).Certified problem settings.equalityTolerance domain := by
  obtain ⟨o, reached, found⟩ := reaches_quarter
  obtain ⟨bounded, certified⟩ := Optimizer.incumbent_certified slopes shrinks reached
  refine ⟨slopes, shrinks, o, reached, found, fun top => ?_, (certified _ found).2⟩
  cases found.symm.trans (bounded.mpr top)

end AboveQuarter

end BoxSearch
