import BoxSearch.Proofs.Model.Evaluation
import BoxSearch.Proofs.Scalar.Order
import BoxSearch.Search.Incumbent

/-!
# Better incumbents

A finder tries the representative point of a region, random points and points on a line, and
returns the last one whose value is certainly below that of the others and the incumbent. A better
incumbent should also lower the target of the search, which is a condition on the settings: both
margins are rounded.
-/
set_option autoImplicit false

namespace BoxSearch

open OrderedScalar Scalar Checked

variable {α : Type} [Scalar α] [OrderedScalar α]

theorem Scalar.lt_trans {x y z : α} (first : x < y) (second : y < z) : x < z := by
  rw [lt_iff] at first second ⊢
  exact ⟨first.1, second.2.1, first.2.2.trans second.2.2⟩

/-! ## Candidates -/

namespace IncumbentFinder
variable {f f' : IncumbentFinder α} {p : Problem α} {objective : Evaluator α} {region b : Box α}
  {loup bound v : α} {point : List α}

def halved (k : Nat) : α := (fun factor : α => factor * 0.5)^[k] 1

inductive Offered (objective : Evaluator α) (region : Box α) : List α → Prop
  | mid {point : List α} : region.mid = .ok point → Offered objective region point
  | sample {point : List α} {g g' : Random.Generator} :
      samplePoint region.components g = .ok (point, g') → Offered objective region point
  | step {start middle : List α} {place gradient : Box α} {longest : α} (k : Nat) :
      Offered objective region start → Box.point start = .ok place →
      objective.gradient place = .ok gradient →
      gradient.components.any Interval.isUnbounded = false → gradient.mid = .ok middle →
      isFinite longest = true → Offered objective region
        (stepPoint (halved k * longest) start (middle.map fun g => -g) region.components)

/-- A point of the region with its value, found to be better than the incumbent. -/
structure Promising (f : IncumbentFinder α) (p : Problem α) (objective : Evaluator α)
    (region : Box α) (loup : α) (c : Candidate α) : Prop where
  offered : Offered objective region c.point
  improves : ∃ bound, (bound = loup ∨ bound < loup) ∧
    f.improvement p objective c.point bound = .ok (some c.value)

omit [OrderedScalar α] in
/-- A value below the bound is the upper end of the objective, at a point that satisfies every
constraint for sure. -/
theorem improvement_eq_ok (success : f.improvement p objective point bound = .ok (some v)) :
    (∃ image, objective.evalPoint point = .ok image ∧ image.isEmpty = false ∧ v = image.hi) ∧
      v < bound ∧ ∀ c ∈ p.constraints, ∃ place image, Box.point point = .ok place ∧
        c.function.eval place = .ok image ∧
        c.certainlySatisfied image f.equalityTolerance = .ok true := by
  obtain ⟨image, found, success⟩ := bind_eq_ok.mp success
  dsimp only at success
  split at success
  · cases Except.ok.inj success
  · rename_i better
    simp only [Bool.or_eq_true, Bool.not_eq_true', decide_eq_false_iff_not, not_or,
      Bool.not_eq_true, not_not] at better
    split at success
    · rename_i free
      obtain rfl := Option.some.inj (Except.ok.inj success)
      rw [List.isEmpty_iff] at free
      refine ⟨⟨image, found, better.1, rfl⟩, better.2, ?_⟩
      rw [free]
      exact List.forall_mem_nil _
    · obtain ⟨place, made, success⟩ := bind_eq_ok.mp success
      obtain ⟨⟨answer, _⟩, tested, success⟩ := bind_eq_ok.mp success
      have answered := Except.ok.inj success
      split at answered
      · rename_i feasible
        obtain rfl := Option.some.inj answered
        obtain rfl : answer = true := feasible
        obtain ⟨log, tested⟩ := Evaluation.value_eq_ok.mp tested
        refine ⟨⟨image, found, better.1, rfl⟩, better.2, fun c hc => ?_⟩
        obtain ⟨image', found', satisfied⟩ :=
          Evaluable.satisfied_of_certainlyFeasible (PlainBox.truthful p) trivial tested c hc
        exact ⟨place, image', made, found', satisfied⟩
      · cases answered

theorem Promising.lt {c : Candidate α} (promising : Promising f p objective region loup c) :
    c.value < loup := by
  obtain ⟨bound, choice, improved⟩ := promising.improves
  have better := (improvement_eq_ok improved).2.1
  rcases choice with rfl | below
  · exact better
  · exact Scalar.lt_trans better below

/-- Every candidate is better than the incumbent, and later ones have to be better still. -/
structure Improving (f : IncumbentFinder α) (p : Problem α) (objective : Evaluator α)
    (region : Box α) (loup : α) (state : Option (Candidate α) × α) : Prop where
  best : ∀ c, state.1 = some c → Promising f p objective region loup c
  bound : state.2 = loup ∨ state.2 < loup

theorem Improving.consider {state state' : Option (Candidate α) × α}
    (improving : Improving f p objective region loup state)
    (offered : Offered objective region point)
    (success : f.consider p objective state point = .ok state') :
    Improving f p objective region loup state' := by
  obtain ⟨answer, tried, success⟩ := bind_eq_ok.mp success
  cases answer with
  | none => exact Except.ok.inj success ▸ improving
  | some v =>
      obtain rfl := Except.ok.inj success
      have promising : Promising f p objective region loup ⟨v, point⟩ :=
        ⟨offered, state.2, improving.bound, tried⟩
      refine ⟨fun c same => ?_, Or.inr promising.lt⟩
      obtain rfl := Option.some.inj same
      exact promising

theorem Improving.considerSamples : ∀ {n : Nat} {state state' : Option (Candidate α) × α}
    {g g' : Random.Generator}, Improving f p objective region loup state →
    f.considerSamples p objective region n state g = .ok (state', g') →
    Improving f p objective region loup state' := by
  intro n
  induction n with
  | zero =>
      intro state state' g g' improving success
      obtain ⟨rfl, -⟩ := Prod.mk.inj (Except.ok.inj success)
      exact improving
  | succ n ih =>
      intro state state' g g' improving success
      obtain ⟨⟨point, g₁⟩, sampled, success⟩ := bind_eq_ok.mp success
      obtain ⟨state₁, considered, success⟩ := bind_eq_ok.mp success
      exact ih (improving.consider (.sample sampled) considered) success

omit [OrderedScalar α] in
theorem halved_succ (k : Nat) : (halved (k + 1) : α) = halved k * 0.5 :=
  Function.iterate_succ_apply' _ k 1

omit [OrderedScalar α] in
/-- The steps end at the start or at a better point behind one of them. -/
theorem of_halveSteps {start best : Candidate α} {direction : List α} {longest : α} :
    ∀ {n k : Nat},
    f.halveSteps p objective region start direction longest n (halved k) = .ok best →
    best = start ∨ ∃ k v,
      best = ⟨v, stepPoint (halved k * longest) start.point direction region.components⟩ ∧
      f.improvement p objective best.point start.value = .ok (some best.value) := by
  intro n
  induction n with
  | zero =>
      intro k success
      cases success
  | succ n ih =>
      intro k success
      rw [halveSteps] at success
      split at success
      · obtain ⟨answer, tried, success⟩ := bind_eq_ok.mp success
        cases answer with
        | none =>
            rw [← halved_succ] at success
            exact ih success
        | some v =>
            obtain rfl := Except.ok.inj success
            exact Or.inr ⟨k, v, rfl, tried⟩
      · exact Or.inl (Except.ok.inj success).symm

theorem Promising.probeLine {halvings : Nat} {start best : Candidate α}
    (promising : Promising f p objective region loup start)
    (success : f.probeLine p objective region halvings start = .ok best) :
    Promising f p objective region loup best := by
  obtain ⟨place, made, success⟩ := bind_eq_ok.mp success
  obtain ⟨gradient, found, success⟩ := bind_eq_ok.mp success
  dsimp only at success
  split at success
  · exact Except.ok.inj success ▸ promising
  · rename_i regular
    obtain ⟨middle, central, success⟩ := bind_eq_ok.mp success
    split at success
    · exact Except.ok.inj success ▸ promising
    · rename_i bounded
      rw [Bool.not_eq_true, Bool.or_eq_false_iff] at regular bounded
      rw [Bool.not_eq_false'] at bounded
      rcases of_halveSteps (k := 0) success with rfl | ⟨k, v, rfl, improved⟩
      · exact promising
      · exact ⟨.step k promising.offered made found regular.2 central bounded.1, start.value,
          Or.inr promising.lt, improved⟩

def findIn (f : IncumbentFinder α) (p : Problem α) (objective : Evaluator α) (halvings : Nat)
    (loup : α) (region : Box α) : Checked α (Option (Candidate α) × IncumbentFinder α) := do
  let state ← f.consider p objective (none, loup) (← region.mid)
  let ((best, _), generator) ←
    f.considerSamples p objective region f.samples state f.generator
  let f := { f with generator }
  match best with
  | none => return (none, f)
  | some start => return (some (← f.probeLine p objective region halvings start), f)

omit [OrderedScalar α] in
theorem find_eq (f : IncumbentFinder α) (given : p.objective = some objective) (halvings : Nat)
    (b : Box α) (loup : α) : f.find p halvings b loup =
      if b.isEmpty then pure (none, f) else
        (if p.constraints.isEmpty then pinMonotone objective b else pure b) >>=
          f.findIn p objective halvings loup := by
  rw [find, given]
  dsimp only
  split
  · rfl
  · split <;> rfl

theorem Promising.of_findIn {halvings : Nat} {best : Candidate α}
    (success : f.findIn p objective halvings loup region = .ok (some best, f')) :
    Promising f p objective region loup best := by
  obtain ⟨middle, central, success⟩ := bind_eq_ok.mp success
  obtain ⟨state, considered, success⟩ := bind_eq_ok.mp success
  obtain ⟨⟨⟨best', bound⟩, generator⟩, sampled, success⟩ := bind_eq_ok.mp success
  have start : Improving f p objective region loup (none, loup) := ⟨by simp, Or.inl rfl⟩
  have improving := (start.consider (.mid central) considered).considerSamples sampled
  cases best' with
  | none => cases Except.ok.inj success
  | some first =>
      obtain ⟨last, probed, success⟩ := bind_eq_ok.mp success
      obtain ⟨same, -⟩ := Prod.mk.inj (Except.ok.inj success)
      have promising := improving.best first rfl
      have last_promising : Promising { f with generator } p objective region loup last :=
        Promising.probeLine ⟨promising.offered, promising.improves⟩ probed
      exact Option.some.inj same ▸ ⟨last_promising.offered, last_promising.improves⟩

/-- What a search for a better incumbent looks at, and what it comes back with. -/
theorem promising_of_find {halvings : Nat} {best : Candidate α}
    (success : f.find p halvings b loup = .ok (some best, f')) :
    ∃ objective region, p.objective = some objective ∧ b.isEmpty = false ∧
      (region = b ∨ pinMonotone objective b = .ok region) ∧
      Promising f p objective region loup best := by
  cases given : p.objective with
  | none =>
      rw [find, given] at success
      cases Except.ok.inj success
  | some objective =>
      rw [find_eq f given] at success
      split at success
      · cases Except.ok.inj success
      · rename_i live
        obtain ⟨region, chosen, success⟩ := bind_eq_ok.mp success
        refine ⟨objective, region, rfl, Bool.eq_false_iff.mpr live, ?_, .of_findIn success⟩
        split at chosen
        · exact Or.inr chosen
        · exact Or.inl (Except.ok.inj chosen).symm

theorem lt_of_find {halvings : Nat} {best : Candidate α}
    (success : f.find p halvings b loup = .ok (some best, f')) : best.value < loup := by
  obtain ⟨_, _, -, -, -, promising⟩ := promising_of_find success
  exact promising.lt

omit [OrderedScalar α] in
theorem settings_of_find {halvings : Nat} {found : Option (Candidate α)}
    (success : f.find p halvings b loup = .ok (found, f')) :
    ∃ generator, f' = { f with generator } := by
  cases given : p.objective with
  | none =>
      rw [find, given] at success
      exact ⟨f.generator, (Prod.mk.inj (Except.ok.inj success)).2.symm⟩
  | some objective =>
      rw [find_eq f given] at success
      split at success
      · exact ⟨f.generator, (Prod.mk.inj (Except.ok.inj success)).2.symm⟩
      · obtain ⟨region, -, success⟩ := bind_eq_ok.mp success
        obtain ⟨middle, -, success⟩ := bind_eq_ok.mp success
        obtain ⟨state, -, success⟩ := bind_eq_ok.mp success
        obtain ⟨⟨⟨best, bound⟩, generator⟩, -, success⟩ := bind_eq_ok.mp success
        cases best with
        | none => exact ⟨generator, (Prod.mk.inj (Except.ok.inj success)).2.symm⟩
        | some first =>
            obtain ⟨last, -, success⟩ := bind_eq_ok.mp success
            exact ⟨generator, (Prod.mk.inj (Except.ok.inj success)).2.symm⟩

end IncumbentFinder

/-! ## Targets -/

namespace SearchConfig
variable {config : SearchConfig α} {l l' : α}

/-- A better incumbent does not have a higher target. -/
def Monotone (config : SearchConfig α) : Prop :=
  ∀ l l' : α, isFinite l = true → isFinite l' = true → l ≤ l' →
    config.target l ≤ config.target l'

omit [OrderedScalar α] in
theorem target_of_not_finite (infinite : isFinite l = false) : config.target l = l := by
  rw [target, infinite]
  rfl

theorem Monotone.number_target (monotone : config.Monotone) (number : IsNumber l) :
    IsNumber (config.target l) := by
  cases finite : isFinite l with
  | true =>
      have same : l ≤ l := le_iff.mpr ⟨number, number, le_rfl⟩
      exact (le_iff.mp (monotone l l finite finite same)).1
  | false => exact (target_of_not_finite finite).symm ▸ number

theorem infinite_cases (number : IsNumber l) (infinite : isFinite l = false) :
    value l = ⊤ ∨ value l = ⊥ := by
  rw [Bool.eq_false_iff, Ne, isFinite_iff] at infinite
  by_contra finite
  rw [not_or] at finite
  exact infinite ⟨number, finite⟩

theorem Monotone.value_target_le (monotone : config.Monotone) (hl : IsNumber l)
    (hl' : IsNumber l') (below : value l ≤ value l') :
    value (config.target l) ≤ value (config.target l') := by
  cases finite : isFinite l with
  | false =>
      rw [target_of_not_finite finite]
      rcases infinite_cases hl finite with top | bottom
      · have top' : value l' = ⊤ := top_le_iff.mp (top ▸ below)
        have infinite : isFinite l' = false := by
          rw [Bool.eq_false_iff, Ne, isFinite_iff]
          exact fun h => h.2.1 top'
        rw [target_of_not_finite infinite]
        exact below
      · exact bottom ▸ bot_le
  | true =>
      cases finite' : isFinite l' with
      | false =>
          rw [target_of_not_finite finite']
          rcases infinite_cases hl' finite' with top | bottom
          · exact top ▸ le_top
          · have bottom' : value l = ⊥ := le_bot_iff.mp (bottom ▸ below)
            exact absurd bottom' (isFinite_iff.mp finite).2.2
      | true => exact (le_iff.mp (monotone l l' finite finite' (le_iff.mpr ⟨hl, hl', below⟩))).2.2

end SearchConfig

end BoxSearch
