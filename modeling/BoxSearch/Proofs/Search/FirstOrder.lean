import Mathlib.Analysis.Calculus.Deriv.Add
import Mathlib.Analysis.Calculus.Deriv.Comp
import Mathlib.Analysis.Calculus.Deriv.Pi
import Mathlib.Analysis.Calculus.LocalExtr.Basic
import Mathlib.Analysis.Calculus.FDeriv.Pi
import BoxSearch.Proofs.Search.Certificate

/-!
# The first-order test

At a least value of a differentiable function the partial derivative along a variable is zero,
unless the point is on an end of the domain in that variable. A box is dropped when one variable
keeps away from both ends all over the box and has slopes of one sign there. No point of the box is
then a minimizer over the domain, although the better points may lie outside of the box, where
nothing is known about the slopes.
-/
set_option autoImplicit false

namespace BoxSearch

open OrderedScalar Scalar

/-! ## Slopes along one variable -/

/-- A function that is least at a point among its neighbours along one variable has no slope
there. -/
theorem fderiv_single_eq_zero {n : Nat} {f : (Fin n → ℝ) → ℝ} {x : Fin n → ℝ} {j : Fin n}
    (differentiable : DifferentiableAt ℝ f x)
    (least : ∀ᶠ t in nhds (x j), f x ≤ f (Function.update x j t)) :
    fderiv ℝ f x (Pi.single j 1) = 0 := by
  have moved : HasDerivAt (Function.update x j) (Pi.single j 1) (x j) := hasDerivAt_update x j (x j)
  have same : Function.update x j (x j) = x := Function.update_eq_self j x
  have slope : HasDerivAt (fun t => f (Function.update x j t)) (fderiv ℝ f x (Pi.single j 1))
      (x j) := by
    refine HasFDerivAt.comp_hasDerivAt (x j) ?_ moved
    rw [same]
    exact differentiable.hasFDerivAt
  refine IsLocalMin.hasDerivAt_eq_zero (least.mono fun t below => ?_) slope
  simpa only [same] using below

variable {κ α : Type} [Scalar α] [OrderedScalar α] {n : Nat}

/-- Around a real that keeps away from the ends of an interval lie only reals of the interval. -/
theorem Interval.eventually_mem {x whole : Interval α} {p : ℝ} (member : p ∈ x)
    (below : whole.lo < x.lo) (above : x.hi < whole.hi) : ∀ᶠ t in nhds p, t ∈ whole := by
  rw [lt_iff] at below above
  have between : (p : EReal) ∈ Set.Ioo (value whole.lo) (value whole.hi) :=
    ⟨below.2.2.trans_le member.lo_le, member.le_hi.trans_lt above.2.2⟩
  filter_upwards [continuous_coe_real_ereal.continuousAt.preimage_mem_nhds
    (isOpen_Ioo.mem_nhds between)] with t near
  exact ⟨below.1, above.2.1, near.1.le, near.2.le⟩

theorem Box.getElem_mem {b : Box α} {x : Fin n → ℝ} {j : Nat} {z : Interval α}
    (member : List.ofFn x ∈ b) (found : b.components[j]? = some z) :
    ∃ i : Fin n, i = j ∧ x i ∈ z := by
  obtain ⟨t, position, inside⟩ := Box.mem_component (Checked.elementAt_eq_ok.mpr found) member
  obtain ⟨bounded, rfl⟩ := List.getElem?_eq_some_iff.mp position
  rw [List.getElem_ofFn] at inside
  exact ⟨⟨j, by simpa using bounded⟩, rfl, inside⟩

theorem Box.update_mem {b : Box α} {x : Fin n → ℝ} {j : Fin n} {z : Interval α} {t : ℝ}
    (member : List.ofFn x ∈ b) (found : b.components[(j : Nat)]? = some z) (inside : t ∈ z) :
    List.ofFn (Function.update x j t) ∈ b := by
  have same : List.ofFn (Function.update x j t) = (List.ofFn x).set j t := by
    refine List.ext_getElem (by simp) fun i hi hi' => ?_
    simp only [List.getElem_ofFn, List.getElem_set, Function.update_apply, Fin.ext_iff]
    simp only [eq_comm]
  rw [same]
  exact Box.set_mem member found inside

/-! ## Functions with enclosed slopes -/

/-- The function is differentiable around the domain, and the gradient over a box holds the partial
derivatives at the points of the box. -/
structure Evaluator.EnclosesPartials (F : Evaluator α) (domain : Box α) (f : (Fin n → ℝ) → ℝ) :
    Prop where
  differentiable : ∃ U : Set (Fin n → ℝ), IsOpen U ∧ (∀ x, List.ofFn x ∈ domain → x ∈ U) ∧
    DifferentiableOn ℝ f U
  partial_mem : ∀ {b gradient : Box α} {x : Fin n → ℝ} {j : Fin n} {slope : Interval α},
    F.gradient b = .ok gradient → List.ofFn x ∈ b → List.ofFn x ∈ domain →
    gradient.components[(j : Nat)]? = some slope → fderiv ℝ f x (Pi.single j 1) ∈ slope

theorem Evaluator.EnclosesPartials.differentiableAt {F : Evaluator α} {domain : Box α}
    {f : (Fin n → ℝ) → ℝ} (encloses : F.EnclosesPartials domain f) {x : Fin n → ℝ}
    (member : List.ofFn x ∈ domain) : DifferentiableAt ℝ f x := by
  obtain ⟨U, isOpen, around, smooth⟩ := encloses.differentiable
  exact smooth.differentiableAt (isOpen.mem_nhds (around x member))

/-! ## The test -/

namespace Optimizer
variable {o : Optimizer κ α} {F : Evaluator α} {domain b : Box α} {f : (Fin n → ℝ) → ℝ}

omit [OrderedScalar α] in
/-- A successful test names a variable with its component of the box, of the domain and of the
gradient. -/
theorem gradientExcludesZero_eq_ok (objective : o.problem.objective = some F)
    (initial : o.domain = some domain) (excluded : o.gradientExcludesZero b = .ok true) :
    ∃ (gradient : Box α) (j : Nat) (x whole slope : Interval α), F.gradient b = .ok gradient ∧
      b.components[j]? = some x ∧ domain.components[j]? = some whole ∧
      gradient.components[j]? = some slope ∧ whole.lo < x.lo ∧ x.hi < whole.hi ∧
      slope.contains 0 = false := by
  rw [gradientExcludesZero, objective, initial] at excluded
  obtain ⟨gradient, found, excluded⟩ := Checked.bind_eq_ok.mp excluded
  split at excluded
  · cases Except.ok.inj excluded
  · obtain ⟨⟨x, whole, slope⟩, listed, sharp⟩ := List.any_eq_true.mp (Except.ok.inj excluded)
    obtain ⟨j, position⟩ := List.getElem?_of_mem listed
    obtain ⟨at_b, position⟩ := List.getElem?_zip_eq_some.mp position
    obtain ⟨at_domain, at_gradient⟩ := List.getElem?_zip_eq_some.mp position
    simp only [Bool.and_eq_true, decide_eq_true_eq, Bool.not_eq_true'] at sharp
    exact ⟨gradient, j, x, whole, slope, found, at_b, at_domain, at_gradient, sharp.1.1, sharp.1.2,
      sharp.2⟩

/-- No point of a box that the test excludes is a minimizer over the domain. -/
theorem exists_lt_of_gradientExcludesZero (objective : o.problem.objective = some F)
    (initial : o.domain = some domain) (encloses : F.EnclosesPartials domain f)
    (within : ∀ x : Fin n → ℝ, List.ofFn x ∈ b → List.ofFn x ∈ domain)
    (excluded : o.gradientExcludesZero b = .ok true) :
    ∀ x : Fin n → ℝ, List.ofFn x ∈ b → ∃ y : Fin n → ℝ, List.ofFn y ∈ domain ∧ f y < f x := by
  intro x member
  obtain ⟨gradient, j, side, whole, slope, found, at_b, at_domain, at_gradient, below, above,
    sharp⟩ := gradientExcludesZero_eq_ok objective initial excluded
  obtain ⟨i, rfl, inside⟩ := Box.getElem_mem member at_b
  by_contra none_better
  push Not at none_better
  have least : ∀ᶠ t in nhds (x i), f x ≤ f (Function.update x i t) := by
    refine (Interval.eventually_mem inside below above).mono fun t near => ?_
    exact none_better _ (Box.update_mem (within x member) at_domain near)
  have flat := fderiv_single_eq_zero (encloses.differentiableAt (within x member)) least
  have zero_mem := encloses.partial_mem found member (within x member) at_gradient
  rw [flat] at zero_mem
  have contained := Interval.contains_of_mem zero_mem number_zero value_zero
  rw [sharp] at contained
  cases contained

end Optimizer

/-! ## Affine objectives -/

theorem Affine.enclosesPartials (F : Affine α) (domain : Box α) :
    F.evaluator.EnclosesPartials domain fun x : Fin F.coeffs.length → ℝ =>
      ∑ j, real (F.coeffs.get j) * x j + real F.constant := by
  have slopes : ∀ x : Fin F.coeffs.length → ℝ, HasFDerivAt
      (fun x : Fin F.coeffs.length → ℝ => ∑ j, real (F.coeffs.get j) * x j + real F.constant)
      (∑ j, real (F.coeffs.get j) • ContinuousLinearMap.proj (R := ℝ) (φ := fun _ => ℝ) j) x :=
    fun x => (HasFDerivAt.fun_sum fun j _ => (hasFDerivAt_apply j x).const_mul _).add_const _
  constructor
  · exact ⟨Set.univ, isOpen_univ, fun x _ => Set.mem_univ x,
      fun x _ => (slopes x).differentiableAt.differentiableWithinAt⟩
  · intro b gradient x j slope found _ _ position
    obtain ⟨a, coefficient, made⟩ := Affine.components_gradient found position
    have same : F.coeffs[(j : Nat)] = a := by
      rw [List.getElem?_eq_getElem j.isLt] at coefficient
      exact Option.some.inj coefficient
    rw [(slopes x).fderiv]
    simpa [Pi.single_apply, same] using (Interval.mem_point made).2

namespace Slanted

def slant : Affine Float := ⟨[1, -2], 0⟩

def problem : Problem Float := ⟨2, some slant.evaluator, []⟩

def domain : Box Float := ⟨[.entire, .zero]⟩

def segment : Box Float := ⟨[⟨1, 2⟩, .zero]⟩

theorem segment_within (x : Fin 2 → ℝ) (member : List.ofFn x ∈ segment) : List.ofFn x ∈ domain := by
  rw [List.ofFn_succ, List.ofFn_succ, List.ofFn_zero] at member ⊢
  cases member with
  | cons _ rest => exact .cons (Interval.mem_entire _) rest

/-- The variable `y` is on both ends of the domain, and `x` has no ends. -/
theorem segment_improved :
    ∃ o : Optimizer (PlannedContractor (SingleRowSolver Float) Float) Float,
      o.problem.objective = some slant.evaluator ∧ o.domain = some domain ∧
      o.gradientExcludesZero segment = .ok true ∧
      ∀ x : Fin 2 → ℝ, List.ofFn x ∈ segment → ∃ y : Fin 2 → ℝ, List.ofFn y ∈ domain ∧
        ∑ j, real (slant.coeffs.get j) * y j + real slant.constant <
          ∑ j, real (slant.coeffs.get j) * x j + real slant.constant := by
  have answer : ((Optimizer.ofParts problem AboveQuarter.contractor (.roundRobin 0)
      AboveQuarter.settings).toOption.any fun made => made.toOption.any fun first =>
        (({ first with domain := some domain }).gradientExcludesZero segment).toOption.any
          id) = true := by decide +kernel
  obtain ⟨_, made, answer₁⟩ := Checked.any_eq_true.mp answer
  obtain ⟨first, rfl, answer₂⟩ := Checked.any_eq_true.mp answer₁
  obtain ⟨_, excluded, rfl⟩ := Checked.any_eq_true.mp answer₂
  obtain ⟨_, -, rfl⟩ := Optimizer.ofParts_eq_ok made
  exact ⟨_, rfl, rfl, excluded, Optimizer.exists_lt_of_gradientExcludesZero rfl rfl
    (slant.enclosesPartials domain) segment_within excluded⟩

end Slanted

end BoxSearch
