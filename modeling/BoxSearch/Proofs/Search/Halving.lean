import Mathlib.Data.List.TFAE
import BoxSearch.Proofs.Search.Termination

/-!
# Halving without end

A line probe halves its step until a trial improves or the factor of the step is below a tolerance.
Factors end at zero. Below a positive tolerance this ends every probe after the same number of
trials, and a tolerance that is not a number ends it before the first one. Any other tolerance is
never undercut, so that a probe in which no trial improves goes on for good.
-/
set_option autoImplicit false

namespace BoxSearch

open OrderedScalar Scalar Checked

namespace IncumbentFinder

section
variable {α : Type} [Scalar α] [OrderedScalar α] [ProbingScalar α] {f : IncumbentFinder α}
  {p : Problem α} {objective : Evaluator α} {region : Box α} {start : Candidate α}

theorem le_halved_of_nonpos {tolerance : α} (nonpos : tolerance ≤ 0) (k : Nat) :
    tolerance ≤ halved k :=
  le_trans nonpos (halved_mem k).1

/-- A tolerance that is not below zero or equal to it is undercut after some halvings. -/
theorem exists_not_le_halved {tolerance : α} (above : ¬tolerance ≤ 0) :
    ∃ k, ¬tolerance ≤ halved k := by
  obtain ⟨last, low⟩ := ProbingScalar.exists_halved_le (α := α)
  exact ⟨last, fun long => above (le_trans long low)⟩

theorem halveSteps_eq_budget (nonpos : f.probeTolerance ≤ 0)
    (never : ∀ point, f.improvement p objective point start.value = .ok none)
    (direction : List α) (longest : α) : ∀ n k : Nat,
      f.halveSteps p objective region start direction longest n (halved k) = .error .budget := by
  intro n
  induction n with
  | zero => exact fun k => rfl
  | succ n ih =>
      intro k
      rw [halveSteps, if_pos (le_halved_of_nonpos nonpos k)]
      dsimp only
      rw [never, ← halved_succ]
      exact ih (k + 1)

end

/-! ## A constant whose slope is not known -/

def flat : Evaluator Float where
  arity := 1
  eval _ := .ok .one
  evalPoint _ := .ok .one
  gradient _ := .ok ⟨[⟨-1, 3⟩]⟩
  derivative _ _ := .ok ⟨-1, 3⟩
  isLinear := false
  dependsOn _ := .ok true

def flatProblem : Problem Float := ⟨1, some flat, []⟩

def unit : Box Float := ⟨[⟨0, 1⟩]⟩

theorem gradient_flat (b : Box Float) : flat.gradient b = .ok ⟨[⟨-1, 3⟩]⟩ := rfl

theorem value_flat : (Interval.one : Interval Float).isEmpty = false ∧ (1 : Float) < infinity := by
  decide +kernel

theorem slope_flat : ((⟨[⟨-1, 3⟩]⟩ : Box Float).isEmpty = false ∧
    (⟨[⟨-1, 3⟩]⟩ : Box Float).components.any Interval.isUnbounded = false) ∧
    ¬(0 : Float) ≤ -1 ∧ ¬(3 : Float) ≤ 0 := by decide +kernel

theorem finishes_flat : flat.Finishes where
  eval _ := finishes_ok _
  evalPoint _ := finishes_ok _
  gradient _ := finishes_ok _

variable {f : IncumbentFinder Float}

theorem improvement_flat (point : List Float) (bound : Float) :
    f.improvement flatProblem flat point bound =
      .ok (if (1 : Float) < bound then some 1 else none) := by
  change (if (Interval.one : Interval Float).isEmpty || !decide ((1 : Float) < bound) then pure none
    else pure (some 1) : Checked Float (Option Float)) = _
  rw [value_flat.1]
  by_cases better : (1 : Float) < bound
  · simp [better]
    rfl
  · simp [better]
    rfl

theorem unit_bounded : (∀ x ∈ unit.components, x.isUnbounded = false) ∧
    ∀ x ∈ unit.components, x.Proper := by
  constructor
  · exact List.forall_mem_singleton.mpr (by decide +kernel)
  · exact List.forall_mem_singleton.mpr (Interval.proper_of_finite (by decide +kernel)
      (by decide +kernel) (by decide +kernel))

theorem samplePoint_unit (g : Random.Generator) :
    ∃ point g', samplePoint unit.components g = .ok (point, g') := by
  have room : (0 : Float) < 1 ∧ isFinite ((1 : Float) - 0) = true := by decide +kernel
  have narrow : isFinite (((1 : Float) - 0) / Random.unitTop) = true := by decide +kernel
  change ∃ point g', (sampleComponent ⟨0, 1⟩ g >>= fun _ => _) = _
  rw [sampleComponent, if_pos room, Random.Generator.uniform]
  dsimp only
  rw [if_pos narrow]
  exact ⟨_, _, rfl⟩

theorem considerSamples_flat (c : Candidate Float) : ∀ (n : Nat) (g : Random.Generator),
    ∃ g', f.considerSamples flatProblem flat unit n (some c, 1) g = .ok ((some c, 1), g') := by
  intro n
  induction n with
  | zero => exact fun g => ⟨g, rfl⟩
  | succ n ih =>
      intro g
      obtain ⟨point, g₁, drawn⟩ := samplePoint_unit g
      obtain ⟨g₂, rest⟩ := ih g₁
      have kept : f.consider flatProblem flat (some c, 1) point = .ok (some c, 1) := by
        rw [consider, improvement_flat, if_neg (not_lt_self 1)]
        rfl
      refine ⟨g₂, ?_⟩
      rw [considerSamples, drawn]
      change (f.consider flatProblem flat (some c, 1) point >>= fun _ => _) = _
      rw [kept]
      exact rest

theorem exists_line_unit : ∃ point place middle, unit.mid = .ok point ∧
    Box.point point = .ok place ∧ (⟨[⟨-1, 3⟩]⟩ : Box Float).mid = .ok middle ∧
    (!isFinite (longestStep (middle.map fun g => -g) point unit.components infinity) ||
      decide (longestStep (middle.map fun g => -g) point unit.components infinity ≤ 0)) =
        false := by
  have answer : (unit.mid.toOption.any fun point => (Box.point point).toOption.any fun _ =>
      (⟨[⟨-1, 3⟩]⟩ : Box Float).mid.toOption.any fun middle =>
        !(!isFinite (longestStep (middle.map fun g => -g) point unit.components infinity) ||
          decide (longestStep (middle.map fun g => -g) point unit.components infinity ≤ 0))) =
      true := by decide +kernel
  obtain ⟨point, central, answer₁⟩ := any_eq_true.mp answer
  obtain ⟨place, made, answer₂⟩ := any_eq_true.mp answer₁
  obtain ⟨middle, slope, answer₃⟩ := any_eq_true.mp answer₂
  exact ⟨point, place, middle, central, made, slope, Bool.not_eq_true' _ ▸ answer₃⟩

theorem probeLine_flat (nonpos : f.probeTolerance ≤ 0) {point : List Float}
    (central : unit.mid = .ok point) (halvings : Nat) :
    f.probeLine flatProblem flat unit halvings ⟨1, point⟩ = .error .budget := by
  obtain ⟨point', place, middle, central', made, slope, long⟩ := exists_line_unit
  obtain rfl : point = point' := Except.ok.inj (central.symm.trans central')
  have regular : ((⟨[⟨-1, 3⟩]⟩ : Box Float).isEmpty ||
      (⟨[⟨-1, 3⟩]⟩ : Box Float).components.any Interval.isUnbounded) = false :=
    Bool.or_eq_false_iff.mpr slope_flat.1
  rw [probeLine, bind_of_ok made, bind_of_ok (gradient_flat place)]
  dsimp only
  rw [if_neg (ne_true_of_eq_false regular), bind_of_ok slope]
  split
  · rename_i short
    exact absurd short (ne_true_of_eq_false long)
  · refine halveSteps_eq_budget nonpos (fun point => ?_) _ _ _ 0
    rw [improvement_flat, if_neg (not_lt_self 1)]

theorem pinMonotone_flat (x : Interval Float) : pinMonotone flat ⟨[x]⟩ = .ok ⟨[x]⟩ := by
  obtain ⟨⟨full, -⟩, ascending, descending⟩ := slope_flat
  have kept : pinned [x] [(⟨-1, 3⟩ : Interval Float)] = [x] := by
    rw [pinned]
    split
    · rename_i rising
      exact absurd rising.1 ascending
    · split
      · rename_i falling
        exact absurd falling.1 descending
      · rfl
  rw [pinMonotone, bind_of_ok (gradient_flat _), if_neg (ne_true_of_eq_false full), kept]
  rfl

theorem find_flat_eq {x : Interval Float} (live : (⟨[x]⟩ : Box Float).isEmpty = false)
    (halvings : Nat) (loup : Float) : f.find flatProblem halvings ⟨[x]⟩ loup =
      f.findIn flatProblem flat halvings loup ⟨[x]⟩ := by
  have given : flatProblem.objective = some flat := rfl
  have free : flatProblem.constraints.isEmpty = true := rfl
  rw [find_eq f given, if_neg (ne_true_of_eq_false live), if_pos free,
    bind_of_ok (pinMonotone_flat x)]

/-- Without a positive tolerance no number of halvings is enough for the constant. -/
theorem find_flat (nonpos : f.probeTolerance ≤ 0) (halvings : Nat) :
    f.find flatProblem halvings unit infinity = .error .budget := by
  have live : unit.isEmpty = false := Box.live_of_proper unit_bounded.2
  obtain ⟨point, -, -, central, -⟩ := exists_line_unit
  have first : f.consider flatProblem flat (none, infinity) point = .ok (some ⟨1, point⟩, 1) := by
    rw [consider, improvement_flat, if_pos value_flat.2]
    rfl
  obtain ⟨g, sampled⟩ := considerSamples_flat (f := f) ⟨1, point⟩ f.samples f.generator
  have probed := probeLine_flat (f := { f with generator := g }) nonpos central halvings
  have searched : f.find flatProblem halvings unit infinity =
      f.findIn flatProblem flat halvings infinity unit := find_flat_eq live halvings infinity
  rw [searched, findIn, bind_of_ok central, bind_of_ok first, bind_of_ok sampled]
  exact bind_of_error probed _

/-- The search for a better incumbent ends on every bounded box exactly if the tolerance is not zero
or less, and then with a number of halvings that depends on nothing else. -/
theorem find_ends_tfae (f : IncumbentFinder Float) : List.TFAE [
    ¬f.probeTolerance ≤ 0,
    ∃ enough, ∀ halvings, enough ≤ halvings → ∀ p : Problem Float, p.Finishes →
      ∀ (b : Box Float) (loup : Float), Finishes (f.find p halvings b loup),
    ∀ p : Problem Float, p.Finishes → ∀ (b : Box Float) (loup : Float), b.Valid →
      b.isEmpty = false → (∀ x ∈ b.components, x.isUnbounded = false) →
      ∃ halvings, Finishes (f.find p halvings b loup)] := by
  tfae_have 1 → 2 := by
    intro above
    obtain ⟨last, small⟩ := exists_not_le_halved above
    exact ⟨last + 1, fun halvings enough p finishes b loup =>
      finishes_find finishes ⟨last, enough, small⟩ b loup⟩
  tfae_have 2 → 3 := by
    rintro ⟨enough, ends⟩ p finishes b loup - - -
    exact ⟨enough, ends enough le_rfl p finishes b loup⟩
  tfae_have 3 → 1 := by
    intro ends nonpos
    obtain ⟨bounded, proper⟩ := unit_bounded
    obtain ⟨halvings, finishes⟩ := ends flatProblem (List.forall_mem_singleton.mpr finishes_flat)
      unit infinity (fun x hx => Or.inr (proper x hx)) (Box.live_of_proper proper) bounded
    exact finishes (find_flat nonpos halvings)
  tfae_finish

/-- With tolerance zero and no random points no number of halvings is enough. -/
theorem find_never_ends : ¬∃ halvings, Finishes
    ((ofSettings 0 0 1e-8 1 : IncumbentFinder Float).find flatProblem halvings unit infinity) := by
  rintro ⟨halvings, finishes⟩
  exact finishes (find_flat (by decide +kernel) halvings)

end IncumbentFinder

end BoxSearch
