import BoxSearch.Proofs.Interval.Parts
import BoxSearch.Proofs.Search.Incumbent

/-!
# Certified candidates

Whichever way a finder comes to a point, it does not leave the box that it was asked about: random
draws stay between their bounds, and steps along a line are cut off at the border. So a candidate
is a point of the box that satisfies the constraints for sure, with the upper end of the objective
there as its value.
-/
set_option autoImplicit false

namespace BoxSearch

open OrderedScalar Scalar Checked

/-- A step from a finite number gives a number and a part of a finite number is finite, halving
stays in the unit interval and ends at zero, and draws stay between their bounds. -/
class ProbingScalar (α : Type) [Scalar α] : Prop where
  number_step : ∀ {x s d : α}, isFinite x = true → isFinite s = true → isFinite d = true →
    IsNumber (x + s * d)
  isFinite_part : ∀ {f x : α}, 0 ≤ f → f ≤ 1 → isFinite x = true → isFinite (f * x) = true
  half_mem : ∀ {f : α}, 0 ≤ f → f ≤ 1 → 0 ≤ f * 0.5 ∧ f * 0.5 ≤ 1
  exists_halved_le : ∃ k, (IncumbentFinder.halved k : α) ≤ 0
  uniform_mem : ∀ {g g' : Random.Generator} {lo hi v : α}, lo < hi →
    isFinite (hi - lo) = true → g.uniform lo hi = some (v, g') → lo ≤ v ∧ v ≤ hi

variable {α : Type} [Scalar α] [OrderedScalar α]

/-- The constraint enclosures at the point are not empty and consist of feasible values, where
equalities admit a tolerance. -/
def Problem.CertainlyFeasible (p : Problem α) (tolerance : α) (point : List α) : Prop :=
  ∀ c ∈ p.constraints, ∃ place image feasible, Box.point point = .ok place ∧
    c.function.eval place = .ok image ∧ image.isEmpty = false ∧
    c.op.feasible tolerance = .ok feasible ∧ image.isSubset feasible = true

/-- A point of a box that satisfies the constraints, with the upper end of the objective there. -/
structure Candidate.Certified (p : Problem α) (tolerance : α) (b : Box α) (c : Candidate α) :
    Prop where
  inside : b.containsPoint c.point = true
  feasible : p.CertainlyFeasible tolerance c.point
  value : ∃ objective image, p.objective = some objective ∧
    objective.evalPoint c.point = .ok image ∧ image.isEmpty = false ∧ c.value = image.hi

/-- The objective has one slope per variable, none of which is a malformed interval. -/
def Problem.SlopePerVariable (p : Problem α) : Prop :=
  ∀ {objective : Evaluator α} {b gradient : Box α}, p.objective = some objective →
    objective.gradient b = .ok gradient → gradient.dim = p.arity ∧ gradient.Valid

theorem Affine.slopePerVariable {p : Problem α} {f : Affine α}
    (given : p.objective = some f.evaluator) (arity : f.coeffs.length = p.arity) :
    p.SlopePerVariable := by
  intro objective b gradient given' found
  obtain rfl := Option.some.inj (given.symm.trans given')
  obtain ⟨xs, points, found⟩ := bind_eq_ok.mp found
  obtain rfl := Except.ok.inj found
  have aligned := List.forall₂_iff_get.mp (forall₂_of_mapM points)
  refine ⟨aligned.1.symm.trans arity, fun x hx => ?_⟩
  obtain ⟨i, hi, rfl⟩ := List.getElem_of_mem hx
  exact Or.inr (Interval.proper_of_point (aligned.2 i (aligned.1 ▸ hi) hi))

omit [OrderedScalar α] in
theorem Constraint.subset_of_certainlySatisfied {c : Constraint α} {image : Interval α}
    {tolerance : α} (satisfied : c.certainlySatisfied image tolerance = .ok true) :
    image.isEmpty = false ∧
      ∃ feasible, c.op.feasible tolerance = .ok feasible ∧ image.isSubset feasible = true := by
  rw [certainlySatisfied] at satisfied
  split at satisfied
  · cases Except.ok.inj satisfied
  · rename_i live
    obtain ⟨feasible, made, subset⟩ := bind_eq_ok.mp satisfied
    exact ⟨Bool.eq_false_iff.mpr live, feasible, made, Except.ok.inj subset⟩

namespace IncumbentFinder
variable {f : IncumbentFinder α} {p : Problem α} {objective : Evaluator α} {b region : Box α}
  {point : List α}

/-! ## Pinned components -/

theorem inside_pinned : ∀ {xs gs : List (Interval α)}, (∀ x ∈ xs, x.Proper) →
    List.Forall₂ Interval.Inside (pinned xs gs) xs := by
  intro xs
  induction xs with
  | nil =>
      intro gs _
      cases gs <;> exact .nil
  | cons x xs ih =>
      intro gs proper
      obtain ⟨proper_x, rest⟩ := List.forall_mem_cons.mp proper
      cases gs with
      | nil => exact List.forall₂_same.mpr fun y hy => (proper y hy).inside
      | cons g gs =>
          refine .cons ?_ (ih rest)
          split
          · rename_i lower
            exact Interval.inside_point lower.2
              (Interval.contains_iff.mpr ⟨le_refl proper_x.lo_number, proper_x.lo_le_hi⟩)
          · split
            · rename_i upper
              exact Interval.inside_point upper.2
                (Interval.contains_iff.mpr ⟨proper_x.lo_le_hi, le_refl proper_x.hi_number⟩)
            · exact proper_x.inside

theorem within_of_pinMonotone (proper : ∀ x ∈ b.components, x.Proper)
    (success : pinMonotone objective b = .ok region) : region.Within b := by
  obtain ⟨gradient, -, success⟩ := bind_eq_ok.mp success
  split at success
  · exact Except.ok.inj success ▸ Box.within_self proper
  · exact Except.ok.inj success ▸ inside_pinned proper

/-! ## Random points -/

variable [RepresentingScalar α] [ProbingScalar α]

theorem contains_sampleComponent {x : Interval α} {v : α} {g g' : Random.Generator}
    (proper : x.Proper) (success : sampleComponent x g = .ok (v, g')) : x.contains v = true := by
  rw [sampleComponent] at success
  split at success
  · rename_i room
    split at success
    · rename_i drawn
      obtain rfl := Except.ok.inj success
      exact Interval.contains_iff.mpr (ProbingScalar.uniform_mem room.1 room.2 drawn)
    · cases success
  · obtain ⟨middle, central, success⟩ := bind_eq_ok.mp success
    obtain ⟨rfl, -⟩ := Prod.mk.inj (Except.ok.inj success)
    exact proper.contains_mid central

theorem contains_samplePoint : ∀ {xs : List (Interval α)} {vs : List α}
    {g g' : Random.Generator}, (∀ x ∈ xs, x.Proper) → samplePoint xs g = .ok (vs, g') →
    List.Forall₂ (fun x v => x.contains v = true) xs vs := by
  intro xs
  induction xs with
  | nil =>
      intro vs g g' _ success
      obtain ⟨rfl, -⟩ := Prod.mk.inj (Except.ok.inj success)
      exact .nil
  | cons x xs ih =>
      intro vs g g' proper success
      obtain ⟨proper_x, rest⟩ := List.forall_mem_cons.mp proper
      obtain ⟨⟨v, g₁⟩, drawn, success⟩ := bind_eq_ok.mp success
      obtain ⟨⟨vs', g₂⟩, others, success⟩ := bind_eq_ok.mp success
      obtain ⟨rfl, -⟩ := Prod.mk.inj (Except.ok.inj success)
      exact .cons (contains_sampleComponent proper_x drawn) (ih rest others)

/-! ## Steps along a line -/

omit [RepresentingScalar α] in
theorem halved_mem (k : Nat) : (0 : α) ≤ halved k ∧ (halved k : α) ≤ 1 := by
  induction k with
  | zero =>
      change (0 : α) ≤ 1 ∧ (1 : α) ≤ 1
      refine ⟨le_iff.mpr ⟨number_zero, number_one, ?_⟩, le_refl number_one⟩
      rw [value_zero, value_one]
      exact zero_le_one
  | succ k ih =>
      rw [halved_succ]
      exact ProbingScalar.half_mem ih.1 ih.2

omit [RepresentingScalar α] in
theorem contains_stepPoint {step : α} (finite : isFinite step = true) :
    ∀ {xs ds : List α} {rs : List (Interval α)}, xs.length = rs.length →
    ds.length = rs.length → (∀ x ∈ xs, isFinite x = true) → (∀ d ∈ ds, isFinite d = true) →
    (∀ r ∈ rs, r.Proper) →
    List.Forall₂ (fun r v => r.contains v = true) rs (stepPoint step xs ds rs) := by
  intro xs ds rs
  induction rs generalizing xs ds with
  | nil =>
      intro no_xs no_ds _ _ _
      obtain rfl := List.eq_nil_of_length_eq_zero no_xs
      exact .nil
  | cons r rs ih =>
      intro size_xs size_ds finite_xs finite_ds proper
      obtain ⟨x, xs, rfl⟩ := List.exists_cons_of_length_eq_add_one size_xs
      obtain ⟨d, ds, rfl⟩ := List.exists_cons_of_length_eq_add_one size_ds
      obtain ⟨finite_x, finite_xs⟩ := List.forall_mem_cons.mp finite_xs
      obtain ⟨finite_d, finite_ds⟩ := List.forall_mem_cons.mp finite_ds
      obtain ⟨proper_r, proper⟩ := List.forall_mem_cons.mp proper
      refine .cons (Interval.contains_iff.mpr ?_) (ih (Nat.succ.inj size_xs)
        (Nat.succ.inj size_ds) finite_xs finite_ds proper)
      exact clamp_mem proper_r.lo_number proper_r.hi_number
        (ProbingScalar.number_step finite_x finite finite_d) proper_r.lo_le_hi

omit [OrderedScalar α] [RepresentingScalar α] [ProbingScalar α] in
theorem isFinite_of_point {place : Box α} (made : Box.point point = .ok place) :
    ∀ x ∈ point, isFinite x = true := by
  obtain ⟨xs, points, -⟩ := bind_eq_ok.mp made
  intro x hx
  obtain ⟨i, hi, rfl⟩ := List.getElem_of_mem hx
  have aligned := List.forall₂_iff_get.mp (forall₂_of_mapM points)
  have at_i := aligned.2 i hi (aligned.1 ▸ hi)
  rw [Interval.point] at at_i
  split at at_i
  · assumption
  · cases at_i

omit [ProbingScalar α] in
/-- The opposite of the middle of bounded slopes is a finite direction. -/
theorem direction_of_mid {gradient : Box α} {middle : List α} (valid : gradient.Valid)
    (bounded : gradient.components.any Interval.isUnbounded = false)
    (central : gradient.mid = .ok middle) :
    middle.length = gradient.dim ∧ ∀ d ∈ middle.map fun g => -g, isFinite d = true := by
  have aligned := List.forall₂_iff_get.mp (forall₂_of_mapM central)
  refine ⟨aligned.1.symm, fun d hd => ?_⟩
  obtain ⟨g, hg, rfl⟩ := List.mem_map.mp hd
  obtain ⟨i, hi, rfl⟩ := List.getElem_of_mem hg
  have inside : i < gradient.components.length := aligned.1 ▸ hi
  have at_i := aligned.2 i inside hi
  have member := List.getElem_mem inside
  have live : gradient.components[i].isEmpty = false := by
    rw [Interval.mid] at at_i
    split at at_i
    · cases at_i
    · rename_i live
      exact Bool.eq_false_iff.mpr live
  have proper := (valid _ member).proper_of_not_empty live
  rw [List.any_eq_false] at bounded
  exact isFinite_neg (proper.isFinite_mid (Bool.eq_false_iff.mpr (bounded _ member)) at_i)

/-! ## Certificates -/

theorem Offered.containsPoint (offered : Offered objective region point)
    (proper : ∀ r ∈ region.components, r.Proper) (dim : region.dim = p.arity)
    (given : p.objective = some objective) (slopes : p.SlopePerVariable) :
    region.containsPoint point = true := by
  induction offered with
  | mid central => exact Box.containsPoint_mid proper central
  | sample drawn => exact Box.containsPoint_iff.mpr (contains_samplePoint proper drawn)
  | @step start middle place gradient longest k _ made found bounded central finite ih =>
      obtain ⟨gradient_dim, valid⟩ := slopes given found
      obtain ⟨length, direction⟩ := direction_of_mid valid bounded central
      obtain ⟨nonneg, small⟩ := halved_mem (α := α) k
      refine Box.containsPoint_iff.mpr (contains_stepPoint
        (ProbingScalar.isFinite_part nonneg small finite) (Box.length_of_containsPoint ih) ?_
        (isFinite_of_point made) direction proper)
      rw [List.length_map, length, gradient_dim, ← dim]
      rfl

/-- What a finder returns is certified for the box that it was asked about. -/
theorem certified_of_find {f' : IncumbentFinder α} {halvings : Nat} {loup : α}
    {best : Candidate α} (valid : b.Valid) (dim : b.dim = p.arity) (slopes : p.SlopePerVariable)
    (success : f.find p halvings b loup = .ok (some best, f')) :
    best.Certified p f.equalityTolerance b := by
  obtain ⟨objective, region, given, live, choice, promising⟩ := promising_of_find success
  have proper := valid.proper live
  have within : region.Within b := by
    rcases choice with rfl | pinned
    · exact Box.within_self proper
    · exact within_of_pinMonotone proper pinned
  obtain ⟨bound, -, improved⟩ := promising.improves
  obtain ⟨⟨image, found, not_empty, same⟩, -, satisfied⟩ := improvement_eq_ok improved
  refine ⟨within.containsPoint (promising.offered.containsPoint within.proper
    (within.dim.trans dim) given slopes), fun c hc => ?_, objective, image, given, found,
    not_empty, same⟩
  obtain ⟨place, image', made, found', certain⟩ := satisfied c hc
  obtain ⟨not_empty', feasible, allowed, subset⟩ := c.subset_of_certainlySatisfied certain
  exact ⟨place, image', feasible, made, found', not_empty', allowed, subset⟩

end IncumbentFinder

theorem Candidate.Certified.mono {p : Problem α} {tolerance : α} {b b' : Box α} {c : Candidate α}
    (certified : c.Certified p tolerance b) (within : b.Within b') : c.Certified p tolerance b' :=
  { certified with inside := within.containsPoint certified.inside }

end BoxSearch
