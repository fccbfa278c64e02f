import BoxSearch.Proofs.Contractor.AffineRows
import BoxSearch.Proofs.Search.Bisection
import BoxSearch.Proofs.Search.Halving
import BoxSearch.Proofs.Search.SecondOrder

/-!
# Points that a finder tries

A search for a better incumbent in a box asks about the box, parts of it and its finite points only:
its answer does not change when all other questions stop the run. Two kinds of boxes are too large
for it. A component whose width is finite but close to the largest number has no random point, and
along an unbounded component a line can lead to a point at infinity.
-/
set_option autoImplicit false

namespace BoxSearch

open OrderedScalar Scalar Checked

variable {α : Type} [Scalar α]

/-- The width is finite, but not the scale by which random numbers of the interval are drawn. -/
def Interval.Overwide (x : Interval α) : Prop :=
  (x.lo < x.hi ∧ isFinite (x.hi - x.lo) = true) ∧
    isFinite ((x.hi - x.lo) / Random.unitTop) = false

variable [OrderedScalar α]

/-! ## Questions about one box -/

/-- The function answers over every box that is not empty, with one slope per variable, and at every
finite point. -/
structure Evaluator.Total (F : Evaluator α) (n : Nat) : Prop where
  eval : ∀ {b : Box α}, b.Valid → b.isEmpty = false → b.dim = n → ∃ image, F.eval b = .ok image
  evalPoint : ∀ {point : List α}, (∀ v ∈ point, isFinite v = true) → point.length = n →
    ∃ image, F.evalPoint point = .ok image
  gradient : ∀ {b : Box α}, b.Valid → b.isEmpty = false → b.dim = n →
    ∃ gradient, F.gradient b = .ok gradient ∧ gradient.dim = n ∧ gradient.Valid

def Problem.Total (p : Problem α) : Prop := ∀ F ∈ p.functions, F.Total p.arity

open Classical in
/-- The function for questions about parts of a box and its finite points. Any other question stops
the run. -/
noncomputable def Evaluator.confined (F : Evaluator α) (b : Box α) : Evaluator α :=
  { F with
    eval := fun c => if c.Within b then F.eval c else .error .position
    evalPoint := fun point => do
      let place ← Box.point point
      if place.Within b then F.evalPoint point else .error .position
    gradient := fun c => if c.Within b then F.gradient c else .error .position }

noncomputable def Problem.confined (p : Problem α) (b : Box α) : Problem α :=
  ⟨p.arity, p.objective.map (·.confined b),
    p.constraints.map fun c => ⟨c.function.confined b, c.op⟩⟩

namespace Problem
variable {p : Problem α} {F : Evaluator α}

theorem objective_confined (given : p.objective = some F) (b : Box α) :
    (p.confined b).objective = some (F.confined b) := congrArg (Option.map _) given

theorem length_constraints_confined (p : Problem α) (b : Box α) :
    (p.confined b).constraints.length = p.constraints.length := List.length_map _

theorem isEmpty_constraints_confined (p : Problem α) (b : Box α) :
    (p.confined b).constraints.isEmpty = p.constraints.isEmpty := by simp [confined]

end Problem

namespace Evaluator
variable {F : Evaluator α} {b c : Box α} {point : List α}

theorem eval_confined (within : c.Within b) : (F.confined b).eval c = F.eval c := if_pos within

theorem gradient_confined (within : c.Within b) : (F.confined b).gradient c = F.gradient c :=
  if_pos within

theorem evalPoint_confined (made : Box.point point = .ok c) (within : c.Within b) :
    (F.confined b).evalPoint point = F.evalPoint point :=
  (bind_of_ok made _).trans (if_pos within)

end Evaluator

/-! ## Finite and infinite points -/

/-- The coordinates are intervals of their own, unless one of them is infinite. -/
theorem points_cases : ∀ {xs : List (Interval α)} {vs : List α}, (∀ x ∈ xs, x.Proper) →
    List.Forall₂ (fun x v => x.contains v = true) xs vs →
    (∃ zs, vs.mapM Interval.point = .ok zs ∧ List.Forall₂ Interval.Inside zs xs) ∨
      ∃ v, vs.mapM Interval.point = .error (.nonFinitePoint v) ∧ IsNumber v ∧
        isFinite v = false ∧ ∃ x ∈ xs, x.isUnbounded = true := by
  intro xs
  induction xs with
  | nil =>
      intro vs _ inside
      cases inside
      exact Or.inl ⟨[], rfl, .nil⟩
  | cons x xs ih =>
      intro vs proper inside
      cases inside with
      | @cons _ v _ vs member others =>
        have proper_x := proper x List.mem_cons_self
        have proper_xs : ∀ y ∈ xs, y.Proper := fun y hy => proper y (List.mem_cons_of_mem x hy)
        rw [List.mapM_cons, Interval.point]
        by_cases finite : isFinite v = true
        · rw [if_pos finite]
          rcases ih proper_xs others with
            ⟨zs, made, within⟩ | ⟨u, failed, number, infinite, y, hy, wide⟩
          · refine Or.inl ⟨⟨v, v⟩ :: zs, ?_, .cons (Interval.inside_point finite member) within⟩
            rw [made]
            rfl
          · refine Or.inr ⟨u, ?_, number, infinite, y, List.mem_cons_of_mem x hy, wide⟩
            rw [failed]
            rfl
        · rw [if_neg finite]
          have number : IsNumber v := (le_iff.mp (Interval.contains_iff.mp member).1).2.1
          refine Or.inr ⟨v, rfl, number, by simpa using finite, x, List.mem_cons_self, ?_⟩
          by_contra bounded
          exact finite (proper_x.isFinite_of_contains (by simpa using bounded) member)

theorem Box.point_cases {b : Box α} {point : List α} (proper : ∀ x ∈ b.components, x.Proper)
    (member : b.containsPoint point = true) :
    (∃ place, Box.point point = .ok place ∧ place.Within b) ∨
      ∃ v, Box.point point = .error (.nonFinitePoint v) ∧ IsNumber v ∧ isFinite v = false ∧
        ∃ x ∈ b.components, x.isUnbounded = true := by
  rcases points_cases proper (containsPoint_iff.mp member) with
    ⟨zs, made, within⟩ | ⟨v, failed, rest⟩
  · exact Or.inl ⟨⟨zs⟩, bind_of_ok made _, within⟩
  · exact Or.inr ⟨v, bind_of_error failed _, rest⟩

/-! ## Two searches in step -/

/-- A part of a search, and the same part with confined functions. Both give one answer or fail to
draw a random point, or the confined one comes to a point at infinity. -/
inductive Probes (b : Box α) (samples : Nat) {β : Type} : Checked α β → Checked α β → Prop
  | answer (r : β) : Probes b samples (.ok r) (.ok r)
  | draw : samples ≠ 0 → (∃ x ∈ b.components, x.Overwide) →
      Probes b samples (.error .drawRange) (.error .drawRange)
  | beyond {x : Checked α β} {v : α} : IsNumber v → isFinite v = false →
      (∃ x ∈ b.components, x.isUnbounded = true) → Probes b samples x (.error (.nonFinitePoint v))

namespace Probes
variable {b : Box α} {samples : Nat} {β γ : Type} {x y : Checked α β}

omit [OrderedScalar α] in
theorem bind {f g : β → Checked α γ} (first : Probes b samples x y)
    (rest : ∀ r, x = .ok r → y = .ok r → Probes b samples (f r) (g r)) :
    Probes b samples (x >>= f) (y >>= g) := by
  cases first with
  | answer r => exact rest r rfl rfl
  | draw sampled wide => exact .draw sampled wide
  | beyond number infinite wide => exact .beyond number infinite wide

omit [OrderedScalar α] in
theorem same {r : β} {f g : β → Checked α γ} (success : x = .ok r)
    (rest : Probes b samples (f r) (g r)) : Probes b samples (x >>= f) (x >>= g) := by
  rw [bind_of_ok success, bind_of_ok success]
  exact rest

end Probes

namespace IncumbentFinder
variable {f : IncumbentFinder α} {p : Problem α} {F : Evaluator α} {b region : Box α}
  {point : List α} {samples : Nat}

/-! ## Trials -/

omit [OrderedScalar α] in
theorem run_allSatisfied_succ {q : Problem α} {place : Box α} {c : Constraint α}
    {image : Interval α} {tolerance : α} {i : Nat} {answer : Bool}
    (found : q.constraint i = .ok c) (evaluated : c.function.eval place = .ok image)
    (tested : c.certainlySatisfied image tolerance = .ok answer) (n : Nat) (log : List Target) :
    (Evaluable.allSatisfied q tolerance (n + 1) i (PlainBox.mk place)).run log =
      if answer then (Evaluable.allSatisfied q tolerance n (i + 1) (PlainBox.mk place)).run
        (log ++ [.constraint i])
      else .ok ((false, PlainBox.mk place), log ++ [.constraint i]) := by
  have asked : (Evaluable.constraintImage q i (PlainBox.mk place)).run log =
      .ok ((image, PlainBox.mk place), log ++ [.constraint i]) := by
    refine run_bind_eq_ok.mpr ⟨image, _, ?_, rfl⟩
    rw [Problem.run_measureConstraint, Problem.evalConstraint, bind_of_ok found, evaluated]
    rfl
  rw [Evaluable.allSatisfied, StateT.run_bind, bind_of_ok asked]
  dsimp only
  rw [Stateful.run_lookup_bind, bind_of_ok found, Stateful.run_lookup_bind, bind_of_ok tested]
  cases answer <;> rfl

theorem exists_allSatisfied {tolerance : α} (nonneg : 0 ≤ tolerance) (total : p.Total)
    {place : Box α} (within : place.Within b) (dim : b.dim = p.arity) :
    ∀ (n i : Nat) (log : List Target), i + n = p.constraints.length →
      ∃ r, (Evaluable.allSatisfied p tolerance n i (PlainBox.mk place)).run log = .ok r ∧
        (Evaluable.allSatisfied (p.confined b) tolerance n i (PlainBox.mk place)).run log =
          .ok r := by
  intro n
  induction n with
  | zero => exact fun i log _ => ⟨_, rfl, rfl⟩
  | succ n ih =>
      intro i log size
      have inside : i < p.constraints.length := by omega
      have found : p.constraint i = .ok p.constraints[i] :=
        elementAt_eq_ok.mpr (List.getElem?_eq_getElem inside)
      have found' : (p.confined b).constraint i =
          .ok ⟨p.constraints[i].function.confined b, p.constraints[i].op⟩ := by
        refine elementAt_eq_ok.mpr ?_
        simp [Problem.confined, List.getElem?_eq_getElem inside]
      obtain ⟨image, evaluated⟩ := (total _ (Problem.mem_functions_of_constraint found)).eval
        within.valid (Box.live_of_proper within.proper) (within.dim.trans dim)
      obtain ⟨values, feasible⟩ := Comparison.feasible_returns p.constraints[i].op nonneg
      obtain ⟨answer, tested⟩ :
          ∃ answer, p.constraints[i].certainlySatisfied image tolerance = .ok answer := by
        rw [Constraint.certainlySatisfied]
        split
        · exact ⟨false, rfl⟩
        · exact ⟨image.isSubset values, bind_of_ok feasible _⟩
      rw [run_allSatisfied_succ found evaluated tested,
        run_allSatisfied_succ found' ((Evaluator.eval_confined within).trans evaluated) tested]
      cases answer with
      | true => exact ih (i + 1) _ (by omega)
      | false => exact ⟨_, rfl, rfl⟩

theorem exists_certainlyFeasible {tolerance : α} (nonneg : 0 ≤ tolerance) (total : p.Total)
    {place : Box α} (within : place.Within b) (dim : b.dim = p.arity) :
    ∃ r, (Evaluable.certainlyFeasible p tolerance (PlainBox.mk place)).value = .ok r ∧
      (Evaluable.certainlyFeasible (p.confined b) tolerance (PlainBox.mk place)).value = .ok r := by
  obtain ⟨⟨r, log⟩, plain, confined⟩ :=
    exists_allSatisfied nonneg total within dim p.constraints.length 0 [] (by omega)
  refine ⟨r, Evaluation.value_eq_ok.mpr ⟨log, plain⟩, Evaluation.value_eq_ok.mpr ⟨log, ?_⟩⟩
  rw [Evaluable.certainlyFeasible.eq_1, Problem.length_constraints_confined]
  exact confined

theorem probes_improvement (nonneg : 0 ≤ f.equalityTolerance) (total : p.Total)
    (given : p.objective = some F) (proper : ∀ x ∈ b.components, x.Proper)
    (dim : b.dim = p.arity) (member : b.containsPoint point = true) (bound : α) :
    Probes b samples (f.improvement p F point bound)
      (f.improvement (p.confined b) (F.confined b) point bound) := by
  rcases Box.point_cases proper member with
    ⟨place, made, within⟩ | ⟨v, failed, number, infinite, wide⟩
  · obtain ⟨image, evaluated⟩ := (total F (Problem.mem_functions given)).evalPoint
      (isFinite_of_point made) ((Box.length_of_containsPoint member).trans dim)
    rw [improvement, improvement, Evaluator.evalPoint_confined made within, bind_of_ok evaluated,
      bind_of_ok evaluated]
    rw [Problem.isEmpty_constraints_confined]
    split
    · exact .answer _
    · split
      · exact .answer _
      · refine .same made ?_
        obtain ⟨r, plain, confined⟩ := exists_certainlyFeasible nonneg total within dim
        rw [bind_of_ok plain, bind_of_ok confined]
        exact .answer _
  · have stopped : f.improvement (p.confined b) (F.confined b) point bound =
        .error (.nonFinitePoint v) := bind_of_error (bind_of_error failed _) _
    rw [stopped]
    exact .beyond number infinite wide

theorem probes_consider (nonneg : 0 ≤ f.equalityTolerance) (total : p.Total)
    (given : p.objective = some F) (proper : ∀ x ∈ b.components, x.Proper)
    (dim : b.dim = p.arity) (member : b.containsPoint point = true)
    (state : Option (Candidate α) × α) :
    Probes b samples (f.consider p F state point)
      (f.consider (p.confined b) (F.confined b) state point) := by
  refine (probes_improvement nonneg total given proper dim member state.2).bind fun answer _ _ => ?_
  cases answer <;> exact .answer _

/-! ## Random points -/

omit [OrderedScalar α] in
theorem sampleComponent_of_overwide {x : Interval α} (wide : x.Overwide)
    (g : Random.Generator) : sampleComponent x g = .error .drawRange := by
  have broad : ¬isFinite ((x.hi - x.lo) / Random.unitTop) = true := ne_true_of_eq_false wide.2
  rw [sampleComponent, if_pos wide.1, Random.Generator.uniform]
  dsimp only
  rw [if_neg broad]

omit [OrderedScalar α] in
theorem sampleComponent_cases {x : Interval α} (live : x.isEmpty = false)
    (g : Random.Generator) : (∃ r, sampleComponent x g = .ok r) ∨
      sampleComponent x g = .error .drawRange ∧ x.Overwide := by
  by_cases room : x.lo < x.hi ∧ isFinite (x.hi - x.lo) = true
  · by_cases narrow : isFinite ((x.hi - x.lo) / Random.unitTop) = true
    · rw [sampleComponent, if_pos room, Random.Generator.uniform]
      simp [narrow]
    · have wide : x.Overwide := ⟨room, by simpa using narrow⟩
      exact Or.inr ⟨sampleComponent_of_overwide wide g, wide⟩
  · obtain ⟨v, central⟩ := Interval.exists_mid live
    rw [sampleComponent, if_neg room, bind_of_ok central]
    exact Or.inl ⟨_, rfl⟩

omit [OrderedScalar α] in
theorem samplePoint_cases : ∀ {xs : List (Interval α)} (g : Random.Generator),
    (∀ x ∈ xs, x.isEmpty = false) → (∃ r, samplePoint xs g = .ok r) ∨
      samplePoint xs g = .error .drawRange ∧ ∃ x ∈ xs, x.Overwide := by
  intro xs
  induction xs with
  | nil => exact fun g _ => Or.inl ⟨_, rfl⟩
  | cons x xs ih =>
      intro g live
      rw [samplePoint]
      rcases sampleComponent_cases (live x List.mem_cons_self) g with
        ⟨⟨v, g₁⟩, drawn⟩ | ⟨failed, wide⟩
      · rw [bind_of_ok drawn]
        rcases ih g₁ fun y hy => live y (List.mem_cons_of_mem x hy) with
          ⟨⟨vs, g₂⟩, others⟩ | ⟨failed, y, hy, wide⟩
        · exact Or.inl ⟨_, bind_of_ok others _⟩
        · exact Or.inr ⟨bind_of_error failed _, y, List.mem_cons_of_mem x hy, wide⟩
      · exact Or.inr ⟨bind_of_error failed _, x, List.mem_cons_self, wide⟩

theorem mem_of_mem_pinned : ∀ {xs gs : List (Interval α)} {x : Interval α}, x ∈ pinned xs gs →
    x.Overwide → x ∈ xs := by
  have single : ∀ v : α, ¬(⟨v, v⟩ : Interval α).Overwide := fun v wide => not_lt_self v wide.1.1
  intro xs
  induction xs with
  | nil =>
      intro gs x listed
      cases gs <;> exact fun _ => listed
  | cons y xs ih =>
      intro gs x listed wide
      cases gs with
      | nil => exact listed
      | cons g gs =>
        rcases List.mem_cons.mp listed with same | listed
        · split at same
          · exact absurd (same ▸ wide) (single _)
          · split at same
            · exact absurd (same ▸ wide) (single _)
            · simp [same]
        · exact List.mem_cons_of_mem y (ih listed wide)

/-- Pinning leaves no component that is too wide and was not there before. -/
theorem mem_of_mem_pinMonotone {x : Interval α} (pinned : pinMonotone F b = .ok region)
    (listed : x ∈ region.components) (wide : x.Overwide) : x ∈ b.components := by
  obtain ⟨gradient, -, pinned⟩ := bind_eq_ok.mp pinned
  split at pinned
  · exact Except.ok.inj pinned ▸ listed
  · obtain rfl := Except.ok.inj pinned
    exact mem_of_mem_pinned listed wide

omit [OrderedScalar α] in
theorem exists_pinMonotone {gradient : Box α} (found : F.gradient b = .ok gradient) :
    ∃ region, pinMonotone F b = .ok region := by
  rw [pinMonotone, bind_of_ok found]
  split
  · exact ⟨_, rfl⟩
  · exact ⟨_, rfl⟩

theorem pinMonotone_confined (whole : b.Within b) :
    pinMonotone (F.confined b) b = pinMonotone F b := by
  rw [pinMonotone, pinMonotone, Evaluator.gradient_confined whole]

/-! ## Steps -/

theorem probes_halveSteps {last : Nat} {start : Candidate α} {direction : List α} {longest : α}
    (nonneg : 0 ≤ f.equalityTolerance) (total : p.Total) (given : p.objective = some F)
    (proper : ∀ x ∈ b.components, x.Proper) (dim : b.dim = p.arity)
    (small : ¬f.probeTolerance ≤ halved last)
    (steps : ∀ k, b.containsPoint
      (stepPoint (halved k * longest) start.point direction region.components) = true) :
    ∀ {n k : Nat}, k ≤ last → last < k + n →
      Probes b samples (f.halveSteps p F region start direction longest n (halved k))
        (f.halveSteps (p.confined b) (F.confined b) region start direction longest n
          (halved k)) := by
  intro n
  induction n with
  | zero => omega
  | succ n ih =>
      intro k reached enough
      rw [halveSteps, halveSteps]
      by_cases long : f.probeTolerance ≤ halved k
      · have before : k ≠ last := fun same => small (same ▸ long)
        rw [if_pos long, if_pos long]
        refine (probes_improvement nonneg total given proper dim (steps k) _).bind
          fun answer _ _ => ?_
        cases answer with
        | none =>
            rw [← halved_succ]
            exact ih (by omega) (by omega)
        | some v => exact .answer _
      · rw [if_neg long, if_neg long]
        exact .answer _

theorem slopePerVariable_confined (total : p.Total) (dim : b.dim = p.arity) :
    (p.confined b).SlopePerVariable := by
  intro objective c gradient given found
  obtain ⟨F, objective_F, rfl⟩ := Option.map_eq_some_iff.mp given
  by_cases within : c.Within b
  · rw [Evaluator.gradient_confined within] at found
    obtain ⟨gradient', found', slopes, valid⟩ := (total F
      (Problem.mem_functions objective_F)).gradient within.valid (Box.live_of_proper within.proper)
        (within.dim.trans dim)
    obtain rfl : gradient' = gradient := Except.ok.inj (found'.symm.trans found)
    exact ⟨slopes, valid⟩
  · have stopped : (F.confined b).gradient c = .error .position := if_neg within
    rw [stopped] at found
    cases found

section
variable [RepresentingScalar α] [ProbingScalar α] {loup : α}

theorem probes_considerSamples (nonneg : 0 ≤ f.equalityTolerance) (total : p.Total)
    (given : p.objective = some F) (proper : ∀ x ∈ b.components, x.Proper)
    (dim : b.dim = p.arity) (within : region.Within b)
    (kept : ∀ x ∈ region.components, x.Overwide → x ∈ b.components) :
    ∀ (n : Nat) (state : Option (Candidate α) × α) (g : Random.Generator), (n ≠ 0 → samples ≠ 0) →
      Probes b samples (f.considerSamples p F region n state g)
        (f.considerSamples (p.confined b) (F.confined b) region n state g) := by
  intro n
  induction n with
  | zero => exact fun state g _ => .answer _
  | succ n ih =>
      intro state g sampled
      rw [considerSamples, considerSamples]
      rcases samplePoint_cases g fun x hx => (within.proper x hx).isEmpty_eq_false with
        ⟨⟨point, g₁⟩, drawn⟩ | ⟨failed, x, hx, wide⟩
      · have member : b.containsPoint point = true := within.containsPoint
          (Box.containsPoint_iff.mpr (contains_samplePoint within.proper drawn))
        refine .same drawn ?_
        exact (probes_consider nonneg total given proper dim member state).bind
          fun state' _ _ => ih state' g₁ fun _ => sampled (by omega)
      · rw [bind_of_error failed, bind_of_error failed]
        exact .draw (sampled (by omega)) ⟨x, kept x hx wide, wide⟩

theorem probes_probeLine {halvings : Nat} {start : Candidate α} {place : Box α}
    (nonneg : 0 ≤ f.equalityTolerance) (total : p.Total) (given : p.objective = some F)
    (dim : b.dim = p.arity) (within : region.Within b)
    (enough : EnoughHalvings f.probeTolerance halvings)
    (member : region.containsPoint start.point = true)
    (made : Box.point start.point = .ok place) (inside : place.Within b)
    (proper : ∀ x ∈ b.components, x.Proper) :
    Probes b samples (f.probeLine p F region halvings start)
      (f.probeLine (p.confined b) (F.confined b) region halvings start) := by
  obtain ⟨gradient, found, slopes, valid⟩ := (total F (Problem.mem_functions given)).gradient
    inside.valid (Box.live_of_proper inside.proper) (inside.dim.trans dim)
  rw [probeLine, probeLine, bind_of_ok made, bind_of_ok made, Evaluator.gradient_confined inside]
  refine .same found ?_
  dsimp only
  split
  · exact .answer _
  · rename_i regular
    rw [Bool.not_eq_true, Bool.or_eq_false_iff] at regular
    obtain ⟨middle, central⟩ : ∃ middle, gradient.mid = .ok middle :=
      mapM_ok fun g hg => Interval.exists_mid (valid.proper regular.1 g hg).isEmpty_eq_false
    obtain ⟨length, direction⟩ := direction_of_mid valid regular.2 central
    refine .same central ?_
    split
    · exact .answer _
    · rename_i bounded
      rw [Bool.not_eq_true, Bool.or_eq_false_iff, Bool.not_eq_false'] at bounded
      obtain ⟨last, below, small⟩ := enough
      refine probes_halveSteps (k := 0) nonneg total given proper dim small (fun k => ?_)
        (Nat.zero_le last) (by omega)
      obtain ⟨positive, le_one⟩ := halved_mem (α := α) k
      refine within.containsPoint (Box.containsPoint_iff.mpr (contains_stepPoint
        (ProbingScalar.isFinite_part positive le_one bounded.1)
        (Box.length_of_containsPoint member) ?_ (isFinite_of_point made) direction within.proper))
      rw [List.length_map, length, slopes, ← dim, ← within.dim]
      rfl

/-! ## Searches -/

theorem probes_findIn {halvings : Nat} (nonneg : 0 ≤ f.equalityTolerance) (total : p.Total)
    (given : p.objective = some F) (dim : b.dim = p.arity)
    (enough : EnoughHalvings f.probeTolerance halvings)
    (proper : ∀ x ∈ b.components, x.Proper) (within : region.Within b)
    (kept : ∀ x ∈ region.components, x.Overwide → x ∈ b.components) :
    Probes b f.samples (f.findIn p F halvings loup region)
      (f.findIn (p.confined b) (F.confined b) halvings loup region) := by
  obtain ⟨middle, central⟩ : ∃ middle, region.mid = .ok middle :=
    mapM_ok fun x hx => Interval.exists_mid (within.proper x hx).isEmpty_eq_false
  have member := within.containsPoint (Box.containsPoint_mid within.proper central)
  rw [findIn, findIn]
  refine .same central ?_
  refine (probes_consider nonneg total given proper dim member _).bind
    fun state _ considered => ?_
  refine (probes_considerSamples nonneg total given proper dim within kept f.samples state
    f.generator id).bind ?_
  rintro ⟨⟨best, bound⟩, generator⟩ - sampled
  cases best with
  | none => exact .answer _
  | some start =>
      have untried : Improving f (p.confined b) (F.confined b) region loup (none, loup) :=
        ⟨by simp, Or.inl rfl⟩
      have promising := ((untried.consider (.mid central) considered).considerSamples
        sampled).best start rfl
      have inside := Offered.containsPoint (p := p.confined b) promising.offered within.proper
        (within.dim.trans dim) (Problem.objective_confined given b)
        (slopePerVariable_confined total dim)
      obtain ⟨_, -, improved⟩ := promising.improves
      obtain ⟨⟨_, evaluated, -⟩, -⟩ := improvement_eq_ok improved
      obtain ⟨place, made, evaluated⟩ := bind_eq_ok.mp evaluated
      have part : place.Within b := by
        by_contra outside
        rw [if_neg outside] at evaluated
        cases evaluated
      exact (probes_probeLine (f := { f with generator }) nonneg total given dim within enough
        inside made part proper).bind fun _ _ _ => .answer _

theorem probes_find {halvings : Nat} (nonneg : 0 ≤ f.equalityTolerance) (total : p.Total)
    (dim : b.dim = p.arity) (enough : EnoughHalvings f.probeTolerance halvings)
    (proper : ∀ x ∈ b.components, x.Proper) :
    Probes b f.samples (f.find p halvings b loup) (f.find (p.confined b) halvings b loup) := by
  cases given : p.objective with
  | none =>
      have given' : (p.confined b).objective = none := congrArg (Option.map _) given
      rw [find, find, given, given']
      exact .answer _
  | some F =>
      rw [find_eq f given, find_eq f (Problem.objective_confined given b),
        Problem.isEmpty_constraints_confined]
      split
      · exact .answer _
      · split
        · have whole := Box.within_self proper
          obtain ⟨gradient, found, -⟩ := (total F (Problem.mem_functions given)).gradient
            whole.valid (Box.live_of_proper proper) dim
          obtain ⟨region, pinned⟩ := exists_pinMonotone found
          rw [pinMonotone_confined whole, bind_of_ok pinned, bind_of_ok pinned]
          exact probes_findIn nonneg total given dim enough proper
            (within_of_pinMonotone proper pinned) fun x => mem_of_mem_pinMonotone pinned
        · exact probes_findIn nonneg total given dim enough proper (Box.within_self proper)
            fun x hx _ => hx

/-- A search in a box comes to an end without a fault, and everything it asks about lies in the box
and is finite, apart from two kinds of boxes: a random point cannot be drawn from a component that
is too wide, and a point of an unbounded box can be infinite. -/
theorem find_asks_within (positive : 0 < f.probeTolerance) (nonneg : 0 ≤ f.equalityTolerance)
    (total : p.Total) (valid : b.Valid) (live : b.isEmpty = false) (dim : b.dim = p.arity) :
    ∃ enough, ∀ halvings, enough ≤ halvings → ∀ loup : α,
      (∃ r, f.find p halvings b loup = .ok r ∧ f.find (p.confined b) halvings b loup = .ok r) ∨
      (f.samples ≠ 0 ∧ (∃ x ∈ b.components, x.Overwide) ∧
        f.find p halvings b loup = .error .drawRange ∧
        f.find (p.confined b) halvings b loup = .error .drawRange) ∨
      ∃ v, (∃ x ∈ b.components, x.isUnbounded = true) ∧ IsNumber v ∧ isFinite v = false ∧
        f.find (p.confined b) halvings b loup = .error (.nonFinitePoint v) := by
  have above : ¬f.probeTolerance ≤ 0 := fun low =>
    (lt_iff.mp positive).2.2.not_ge (le_iff.mp low).2.2
  obtain ⟨last, small⟩ := exists_not_le_halved above
  refine ⟨last + 1, fun halvings enough loup => ?_⟩
  have probes : Probes b f.samples (f.find p halvings b loup)
      (f.find (p.confined b) halvings b loup) :=
    probes_find nonneg total dim ⟨last, enough, small⟩ (valid.proper live)
  generalize f.find p halvings b loup = plain at probes
  generalize f.find (p.confined b) halvings b loup = confined at probes
  cases probes with
  | answer r => exact Or.inl ⟨r, rfl, rfl⟩
  | draw sampled wide => exact Or.inr (Or.inl ⟨sampled, wide, rfl, rfl⟩)
  | beyond number infinite wide => exact Or.inr (Or.inr ⟨_, wide, number, infinite, rfl⟩)

end

end IncumbentFinder

/-! ## Affine problems in binary64 -/

theorem Affine.total (F : Affine α) (constant : isFinite F.constant = true)
    (coeffs : ∀ c ∈ F.coeffs, isFinite c = true) : F.evaluator.Total F.coeffs.length where
  eval _ _ _ := F.eval_returns constant coeffs _
  evalPoint := by
    intro point finite _
    obtain ⟨image, evaluated⟩ := F.eval_returns constant coeffs ⟨point.map fun v => ⟨v, v⟩⟩
    exact ⟨image, (bind_of_ok (Box.point_ok finite) _).trans evaluated⟩
  gradient := by
    intro b _ _ _
    have made := Box.point_ok coeffs
    have slopes : Problem.SlopePerVariable ⟨F.coeffs.length, some F.evaluator, []⟩ :=
      Affine.slopePerVariable rfl rfl
    exact ⟨_, made, slopes (b := b) rfl made⟩

namespace AboveQuarter

theorem total : problem.Total := by
  refine List.forall_mem_cons.mpr ⟨?_, List.forall_mem_singleton.mpr ?_⟩
  · exact Affine.total ⟨[1], 0⟩ (by decide +kernel)
      (List.forall_mem_singleton.mpr (by decide +kernel))
  · exact Affine.total ⟨[1], -0.25⟩ (by decide +kernel)
      (List.forall_mem_singleton.mpr (by decide +kernel))

theorem find_returns : (0 : Float) < SearchConfig.standard.probeTolerance ∧
    (0 : Float) ≤ SearchConfig.standard.equalityTolerance ∧ problem.Total ∧ domain.Valid ∧
    domain.isEmpty = false ∧ domain.dim = problem.arity ∧
    ∃ enough, ∀ halvings, enough ≤ halvings → ∀ loup, ∃ r,
      (IncumbentFinder.ofConfig .standard).find problem halvings domain loup = .ok r ∧
      (IncumbentFinder.ofConfig .standard).find (problem.confined domain) halvings domain loup =
        .ok r := by
  have positive : (0 : Float) < SearchConfig.standard.probeTolerance := by decide +kernel
  have nonneg : (0 : Float) ≤ SearchConfig.standard.equalityTolerance := by decide +kernel
  have live : domain.isEmpty = false := by decide +kernel
  refine ⟨positive, nonneg, total, valid_domain, live, rfl, ?_⟩
  obtain ⟨enough, asks⟩ := IncumbentFinder.find_asks_within (f := .ofConfig .standard) positive
    nonneg total valid_domain live rfl
  refine ⟨enough, fun halvings above loup => ?_⟩
  rcases asks halvings above loup with returned | ⟨-, ⟨x, hx, wide⟩, -⟩ | ⟨-, ⟨x, hx, wide⟩, -⟩
  · exact returned
  · rw [List.mem_singleton.mp hx] at wide
    exact absurd wide.2 (by decide +kernel)
  · rw [List.mem_singleton.mp hx] at wide
    exact absurd wide (by decide +kernel)

end AboveQuarter

namespace IncumbentFinder

theorem find_flat_wide {f : IncumbentFinder Float} (sampled : f.samples ≠ 0) (halvings : Nat) :
    f.find flatProblem halvings ⟨[⟨0, largest⟩]⟩ 0 = .error .drawRange := by
  have live : (⟨[⟨0, largest⟩]⟩ : Box Float).isEmpty = false := by decide +kernel
  have wide : (⟨0, largest⟩ : Interval Float).Overwide := by
    change ((0 : Float) < largest ∧ isFinite (largest - 0 : Float) = true) ∧
      isFinite ((largest - 0 : Float) / Random.unitTop) = false
    decide +kernel
  obtain ⟨middle, central⟩ : ∃ middle, (⟨[⟨0, largest⟩]⟩ : Box Float).mid = .ok middle :=
    mapM_ok (List.forall_mem_singleton.mpr (Interval.exists_mid (by decide +kernel)))
  have first : f.consider flatProblem flat (none, 0) middle = .ok (none, 0) := by
    have worse : ¬(1 : Float) < 0 := by decide +kernel
    rw [consider, improvement_flat, if_neg worse]
    rfl
  obtain ⟨n, count⟩ := Nat.exists_eq_succ_of_ne_zero sampled
  rw [find_flat_eq live, findIn, bind_of_ok central, bind_of_ok first, count]
  exact bind_of_error (bind_of_error (bind_of_error (sampleComponent_of_overwide wide _) _) _) _

/-- The largest number as a width is finite, but no random point can be drawn. -/
theorem find_draws_nothing : ¬∃ halvings r, (ofSettings 1 0.1 1e-8 1 : IncumbentFinder Float).find
    flatProblem halvings ⟨[⟨0, largest⟩]⟩ 0 = .ok r := by
  rintro ⟨halvings, r, success⟩
  rw [find_flat_wide Nat.one_ne_zero] at success
  cases success

def outward : Problem Float :=
  ⟨2, some (Affine.mk [-1e300, -1] 0).evaluator, [⟨(Affine.mk [0, -1] 0).evaluator, .le⟩]⟩

/-- The line from the representative point leads to an infinite `x`. -/
example : (match (ofSettings 0 0.1 1e-8 1 : IncumbentFinder Float).find outward 9
    ⟨[⟨0, infinity⟩, ⟨0, 1⟩]⟩ infinity with
  | .error (.nonFinitePoint v) => v == infinity
  | _ => false) = true := by decide +kernel

end IncumbentFinder

end BoxSearch
