import BoxSearch.Proofs.Model.Enclosure
import BoxSearch.Proofs.Search.Candidates
import BoxSearch.Proofs.Search.Reachable

/-!
# Iterations finish

Apart from the line probe, no part of an iteration has a step budget, and a line probe needs only
so many halvings as lead below a positive tolerance. So an iteration with that many comes to an
end, with a result or with a fault of another kind.
-/
set_option autoImplicit false

namespace BoxSearch

open OrderedScalar Scalar Checked

/-! ## Computations -/

namespace Checked
variable {σ α β γ : Type}

def Finishes (x : Checked α β) : Prop := x ≠ .error .budget

theorem finishes_ok (b : β) : Finishes (.ok b : Checked α β) := nofun

theorem finishes_error {e : Fault α} (other : e ≠ .budget) : Finishes (.error e : Checked α β) :=
  fun out => other (Except.error.inj out)

theorem Finishes.bind {x : Checked α β} {f : β → Checked α γ} (first : Finishes x)
    (rest : ∀ b, x = .ok b → Finishes (f b)) : Finishes (x >>= f) := by
  cases x with
  | error e => exact fun out => first (congrArg _ (Except.error.inj out))
  | ok b => exact rest b rfl

theorem Finishes.map {x : Checked α β} (finishes : Finishes x) (f : β → γ) :
    Finishes (f <$> x) := by
  rw [map_eq_pure_bind]
  exact finishes.bind fun _ _ => finishes_ok _

theorem finishes_mapM {f : β → Checked α γ} (each : ∀ b, Finishes (f b)) :
    ∀ xs : List β, Finishes (xs.mapM f) := by
  intro xs
  induction xs with
  | nil => exact finishes_ok _
  | cons x xs ih =>
      rw [List.mapM_cons]
      exact (each x).bind fun y _ => ih.bind fun ys _ => finishes_ok _

theorem finishes_run_bind {x : StateT σ (Except (Fault α)) β}
    {f : β → StateT σ (Except (Fault α)) γ} {s : σ} (first : Finishes (x.run s))
    (rest : ∀ b t, x.run s = .ok (b, t) → Finishes ((f b).run t)) : Finishes ((x >>= f).run s) := by
  rw [StateT.run_bind]
  exact first.bind fun r ran => rest r.1 r.2 ran

theorem finishes_run_liftM {x : Checked α β} {s : σ} (finishes : Finishes x) :
    Finishes ((liftM x : StateT σ (Except (Fault α)) β).run s) := by
  cases x with
  | error e => exact fun out => finishes (congrArg _ (Except.error.inj out))
  | ok b => exact finishes_ok (b, s)

theorem finishes_run_pure (b : β) (s : σ) :
    Finishes ((pure b : StateT σ (Except (Fault α)) β).run s) :=
  finishes_ok (b, s)

theorem finishes_elementAt (xs : List β) (i : Nat) : Finishes (elementAt xs i : Checked α β) := by
  rw [elementAt]
  split
  · exact finishes_ok _
  · exact finishes_error (by simp)

theorem finishes_value {e : Evaluation α β} (finishes : Finishes (e.run [])) :
    Finishes e.value :=
  finishes.bind fun r _ => finishes_ok r.1

end Checked

/-! ## Boxes -/

section Boxes
variable {α : Type} [Scalar α]

theorem Interval.finishes_point (x : α) : Finishes (Interval.point x) := by
  rw [Interval.point]
  split
  · exact finishes_ok _
  · exact finishes_error (by simp)

theorem Interval.finishes_mid (x : Interval α) : Finishes x.mid := by
  rw [Interval.mid]
  split
  · exact finishes_error (by simp)
  · split
    · exact finishes_ok _
    · exact finishes_ok _
    · exact finishes_ok _
    · split <;> exact finishes_ok _

theorem Interval.finishes_splitPoint (x : Interval α) (ratio : α) :
    Finishes (x.splitPoint ratio) := by
  have inward : ∀ first : α, Finishes (if first ≤ x.lo ∨ x.hi ≤ first then
      if x.lo < 0.5 * x.lo + 0.5 * x.hi ∧ 0.5 * x.lo + 0.5 * x.hi < x.hi then
        pure (0.5 * x.lo + 0.5 * x.hi)
      else pure (Scalar.nextUp x.lo)
    else pure first : Checked α α) := by
    intro first
    split
    · split
      · exact finishes_ok _
      · exact finishes_ok _
    · exact finishes_ok _
  rw [Interval.splitPoint]
  split
  · exact x.finishes_mid.bind fun first _ => inward first
  · exact (finishes_ok _).bind fun first _ => inward first

theorem Interval.finishes_bisect (x : Interval α) (ratio : α) : Finishes (x.bisect ratio) := by
  rw [Interval.bisect]
  split
  · exact finishes_error (by simp)
  · dsimp only
    split
    · exact finishes_error (by simp)
    · exact (x.finishes_splitPoint ratio).bind fun _ _ => finishes_ok _

theorem Box.finishes_point (p : List α) : Finishes (Box.point p) :=
  (finishes_mapM Interval.finishes_point p).bind fun _ _ => finishes_ok _

theorem Box.finishes_mid (b : Box α) : Finishes b.mid :=
  finishes_mapM Interval.finishes_mid b.components

theorem Box.finishes_bisect (b : Box α) (var : Nat) (ratio : α) : Finishes (b.bisect var ratio) :=
  (finishes_elementAt _ _).bind fun x _ =>
    (x.finishes_bisect ratio).bind fun _ _ => finishes_ok _

theorem Comparison.finishes_feasible (op : Comparison) (tolerance : α) :
    Finishes (op.feasible tolerance) := by
  cases op with
  | le => exact finishes_ok _
  | ge => exact finishes_ok _
  | eq =>
      rw [Comparison.feasible, Interval.ofBounds]
      split
      · exact finishes_ok _
      · exact finishes_error (by simp)

theorem Affine.finishes_eval (f : Affine α) (b : Box α) : Finishes (f.eval b) := by
  rw [Affine.eval]
  split
  · exact finishes_ok _
  · have term : ∀ t : Interval α × α, Finishes (t.1.mulScalar t.2) := fun t =>
      (Interval.finishes_point t.2).bind fun _ _ => finishes_ok _
    have scaled : Finishes (b.dot f.coeffs) :=
      (finishes_mapM term _).bind fun _ _ => finishes_ok _
    exact scaled.bind fun _ _ => (Interval.finishes_point f.constant).bind fun _ _ => finishes_ok _

theorem Constraint.finishes_certainlySatisfied (c : Constraint α) (image : Interval α)
    (tolerance : α) : Finishes (c.certainlySatisfied image tolerance) := by
  rw [Constraint.certainlySatisfied]
  split
  · exact finishes_ok _
  · exact (c.op.finishes_feasible tolerance).bind fun _ _ => finishes_ok _

theorem Constraint.finishes_certainlyViolated (c : Constraint α) (image : Interval α) :
    Finishes (c.certainlyViolated image) := by
  rw [Constraint.certainlyViolated]
  split
  · exact finishes_ok _
  · exact (c.op.finishes_feasible 0).bind fun _ _ => finishes_ok _

end Boxes

/-! ## Evaluations -/

section Evaluations
variable {α : Type} [Scalar α]

structure Evaluator.Finishes (F : Evaluator α) : Prop where
  eval : ∀ b, Checked.Finishes (F.eval b)
  evalPoint : ∀ p, Checked.Finishes (F.evalPoint p)
  gradient : ∀ b, Checked.Finishes (F.gradient b)

theorem Affine.finishes (f : Affine α) : f.evaluator.Finishes where
  eval := f.finishes_eval
  evalPoint p := (Box.finishes_point p).bind fun b _ => f.finishes_eval b
  gradient _ := Box.finishes_point f.coeffs

def Problem.Finishes (p : Problem α) : Prop := ∀ F ∈ p.functions, F.Finishes

variable {p : Problem α}

omit [Scalar α] in
theorem Problem.mem_functions {F : Evaluator α} (given : p.objective = some F) :
    F ∈ p.functions :=
  List.mem_append_left _ (given ▸ List.mem_singleton_self F)

omit [Scalar α] in
theorem Problem.mem_functions_of_constraint {c : Constraint α} {i : Nat}
    (found : p.constraint i = .ok c) : c.function ∈ p.functions :=
  List.mem_append_right _ (List.mem_map_of_mem (List.mem_of_getElem? (elementAt_eq_ok.mp found)))

omit [Scalar α] in
theorem Problem.Finishes.objective (finishes : p.Finishes) {F : Evaluator α}
    (given : p.objective = some F) : F.Finishes :=
  finishes F (Problem.mem_functions given)

omit [Scalar α] in
theorem Problem.Finishes.constraint (finishes : p.Finishes) {c : Constraint α} {i : Nat}
    (found : p.constraint i = .ok c) : c.function.Finishes :=
  finishes _ (Problem.mem_functions_of_constraint found)

theorem Problem.Finishes.measureObjective (finishes : p.Finishes) (b : Box α)
    (log : List Target) : Checked.Finishes ((p.measureObjective b).run log) := by
  have asked : Checked.Finishes (p.evalObjective b) := by
    rw [Problem.evalObjective]
    split
    · rename_i F given
      exact (finishes.objective given).eval b
    · exact finishes_ok _
  rw [Problem.measureObjective]
  split
  · exact finishes_run_bind (finishes_ok _) fun _ _ _ => finishes_run_liftM asked
  · exact finishes_run_liftM asked

omit [Scalar α] in
theorem Problem.Finishes.measureConstraint (finishes : p.Finishes) (b : Box α) (i : Nat)
    (log : List Target) : Checked.Finishes ((p.measureConstraint b i).run log) :=
  finishes_run_bind (finishes_run_liftM (finishes_elementAt _ _)) fun _ _ found =>
    finishes_run_bind (finishes_ok _) fun _ _ _ => finishes_run_liftM
      ((finishes.constraint (run_liftM_eq_ok.mp found).1).eval b)

theorem CachedBox.finishes_objectiveImage (finishes : p.Finishes) (b : CachedBox α)
    (log : List Target) : Checked.Finishes ((b.objectiveImage p).run log) := by
  rw [CachedBox.objectiveImage]
  split
  · exact finishes_run_pure _ _
  · exact finishes_run_bind (finishes.measureObjective _ _) fun _ _ _ => finishes_run_pure _ _

omit [Scalar α] in
theorem CachedBox.finishes_constraintImage (finishes : p.Finishes) (i : Nat) (b : CachedBox α)
    (log : List Target) : Checked.Finishes ((b.constraintImage p i).run log) := by
  refine finishes_run_bind (finishes_run_liftM (finishes_elementAt _ _)) fun slot _ _ => ?_
  cases slot with
  | some image => exact finishes_run_pure _ _
  | none =>
      exact finishes_run_bind (finishes.measureConstraint _ _ _) fun _ _ _ =>
        finishes_run_pure _ _

namespace Evaluable
variable {β : Type} [Evaluable β α]

theorem finishes_anyViolated
    (images : ∀ i (b : β) log, Checked.Finishes ((constraintImage p i b).run log)) :
    ∀ (n i : Nat) (b : β) (log : List Target),
      Checked.Finishes ((anyViolated p n i b).run log) := by
  intro n
  induction n with
  | zero => exact fun i b log => finishes_run_pure _ _
  | succ n ih =>
      intro i b log
      refine finishes_run_bind (images i b log) fun r _ _ => ?_
      refine finishes_run_bind (finishes_run_liftM (finishes_elementAt _ _)) fun c _ _ => ?_
      refine finishes_run_bind (finishes_run_liftM (c.finishes_certainlyViolated r.1))
        fun violated _ _ => ?_
      cases violated with
      | true => exact finishes_run_pure _ _
      | false => exact ih _ _ _

theorem finishes_allSatisfied {tolerance : α}
    (images : ∀ i (b : β) log, Checked.Finishes ((constraintImage p i b).run log)) :
    ∀ (n i : Nat) (b : β) (log : List Target),
      Checked.Finishes ((allSatisfied p tolerance n i b).run log) := by
  intro n
  induction n with
  | zero => exact fun i b log => finishes_run_pure _ _
  | succ n ih =>
      intro i b log
      refine finishes_run_bind (images i b log) fun r _ _ => ?_
      refine finishes_run_bind (finishes_run_liftM (finishes_elementAt _ _)) fun c _ _ => ?_
      refine finishes_run_bind (finishes_run_liftM (c.finishes_certainlySatisfied r.1 tolerance))
        fun satisfied _ _ => ?_
      cases satisfied with
      | true => exact ih _ _ _
      | false => exact finishes_run_pure _ _

end Evaluable

namespace Cell

theorem finishes_objective (finishes : p.Finishes) (c : Cell α) :
    Checked.Finishes (c.objective p) :=
  (finishes_value (c.box.finishes_objectiveImage finishes [])).bind fun _ _ => finishes_ok _

theorem finishes_certainlyInfeasible (finishes : p.Finishes) (c : Cell α) :
    Checked.Finishes (c.certainlyInfeasible p) := by
  refine Finishes.bind (finishes_value ?_) fun _ _ => finishes_ok _
  rw [Evaluable.certainlyInfeasible]
  split
  · exact finishes_run_pure _ _
  · exact Evaluable.finishes_anyViolated
      (fun i b log => CachedBox.finishes_constraintImage finishes i b log) _ _ _ _

theorem finishes_shares (finishes : p.Finishes) (tolerance : α) :
    ∀ (n i : Nat) (acc : α) (b : CachedBox α) (log : List Target),
      Checked.Finishes ((shares p tolerance n i acc b).run log) := by
  intro n
  induction n with
  | zero => exact fun i acc b log => finishes_run_pure _ _
  | succ n ih =>
      intro i acc b log
      refine finishes_run_bind (CachedBox.finishes_constraintImage finishes i b log) fun r _ _ => ?_
      refine finishes_run_bind (finishes_run_liftM (finishes_elementAt _ _)) fun c _ _ => ?_
      exact finishes_run_bind (finishes_run_liftM (c.op.finishes_feasible tolerance))
        fun _ _ _ => ih _ _ _ _

theorem finishes_feasibleShare (finishes : p.Finishes) (tolerance : α) (c : Cell α) :
    Checked.Finishes (c.feasibleShare p tolerance) := by
  rw [feasibleShare]
  split
  · exact finishes_ok _
  · exact (finishes_value (finishes_shares finishes tolerance _ _ _ _ _)).bind
      fun _ _ => finishes_ok _

theorem finishes_bisect (c : Cell α) (var : Nat) (ratio : α) :
    Checked.Finishes (c.bisect var ratio) :=
  (c.domain.finishes_bisect var ratio).bind fun _ _ => finishes_ok _

end Cell

/-! ## Candidates -/

namespace IncumbentFinder
variable {f : IncumbentFinder α} {objective : Evaluator α}

theorem finishes_pinMonotone (finishes : objective.Finishes) (b : Box α) :
    Checked.Finishes (pinMonotone objective b) := by
  refine (finishes.gradient b).bind fun gradient _ => ?_
  split
  · exact finishes_ok _
  · exact finishes_ok _

theorem finishes_improvement (finishes : p.Finishes) (ends : objective.Finishes) (point : List α)
    (bound : α) : Checked.Finishes (f.improvement p objective point bound) := by
  have images : ∀ i (b : PlainBox α) log,
      Checked.Finishes ((Evaluable.constraintImage p i b).run log) := fun i b log =>
    finishes_run_bind (finishes.measureConstraint b.domain i log) fun _ _ _ =>
      finishes_run_pure _ _
  refine (ends.evalPoint point).bind fun value _ => ?_
  dsimp only
  split
  · exact finishes_ok _
  · split
    · exact finishes_ok _
    · refine (Box.finishes_point point).bind fun b _ => ?_
      exact (finishes_value (Evaluable.finishes_allSatisfied images _ _ _ _)).bind
        fun _ _ => finishes_ok _

theorem finishes_sampleComponent (x : Interval α) (g : Random.Generator) :
    Checked.Finishes (sampleComponent x g) := by
  rw [sampleComponent]
  split
  · split
    · exact finishes_ok _
    · exact finishes_error (by simp)
  · exact x.finishes_mid.bind fun _ _ => finishes_ok _

theorem finishes_samplePoint : ∀ (xs : List (Interval α)) (g : Random.Generator),
    Checked.Finishes (samplePoint xs g) := by
  intro xs
  induction xs with
  | nil => exact fun g => finishes_ok _
  | cons x xs ih =>
      exact fun g => (finishes_sampleComponent x g).bind fun _ _ =>
        (ih _).bind fun _ _ => finishes_ok _

theorem finishes_consider (finishes : p.Finishes) (ends : objective.Finishes)
    (state : Option (Candidate α) × α) (point : List α) :
    Checked.Finishes (f.consider p objective state point) := by
  refine (finishes_improvement finishes ends point state.2).bind fun answer _ => ?_
  cases answer with
  | none => exact finishes_ok _
  | some value => exact finishes_ok _

theorem finishes_considerSamples (finishes : p.Finishes) (ends : objective.Finishes)
    (region : Box α) : ∀ (n : Nat) (state : Option (Candidate α) × α) (g : Random.Generator),
      Checked.Finishes (f.considerSamples p objective region n state g) := by
  intro n
  induction n with
  | zero => exact fun state g => finishes_ok _
  | succ n ih =>
      exact fun state g => (finishes_samplePoint region.components g).bind fun _ _ =>
        (finishes_consider finishes ends state _).bind fun _ _ => ih _ _

theorem finishes_halveSteps {last : Nat} (finishes : p.Finishes) (ends : objective.Finishes)
    (small : ¬f.probeTolerance ≤ halved last) (region : Box α) (start : Candidate α)
    (direction : List α) (longest : α) : ∀ {n k : Nat}, k ≤ last → last < k + n →
      Checked.Finishes (f.halveSteps p objective region start direction longest n (halved k)) := by
  intro n
  induction n with
  | zero => omega
  | succ n ih =>
      intro k reached enough
      rw [halveSteps]
      split
      · rename_i long
        have before : k ≠ last := fun same => small (same ▸ long)
        refine (finishes_improvement finishes ends _ _).bind fun answer _ => ?_
        cases answer with
        | none =>
            rw [← halved_succ]
            exact ih (by omega) (by omega)
        | some value => exact finishes_ok _
      · exact finishes_ok _

/-- The factors of a line probe get below the tolerance in that many trials. -/
def EnoughHalvings (tolerance : α) (halvings : Nat) : Prop :=
  ∃ last < halvings, ¬tolerance ≤ halved last

theorem finishes_probeLine {halvings : Nat} (finishes : p.Finishes) (ends : objective.Finishes)
    (enough : EnoughHalvings f.probeTolerance halvings) (region : Box α) (start : Candidate α) :
    Checked.Finishes (f.probeLine p objective region halvings start) := by
  refine (Box.finishes_point start.point).bind fun b _ => ?_
  refine (ends.gradient b).bind fun gradient _ => ?_
  dsimp only
  split
  · exact finishes_ok _
  · refine gradient.finishes_mid.bind fun middle _ => ?_
    split
    · exact finishes_ok _
    · obtain ⟨last, below, small⟩ := enough
      exact finishes_halveSteps (k := 0) finishes ends small region start _ _ (Nat.zero_le last)
        (by omega)

theorem finishes_findIn {halvings : Nat} (finishes : p.Finishes) (ends : objective.Finishes)
    (enough : EnoughHalvings f.probeTolerance halvings) (loup : α) (region : Box α) :
    Checked.Finishes (f.findIn p objective halvings loup region) := by
  refine region.finishes_mid.bind fun middle _ => ?_
  refine (finishes_consider finishes ends _ middle).bind fun state _ => ?_
  refine (finishes_considerSamples finishes ends region _ state _).bind
    fun ⟨⟨best, _⟩, generator⟩ _ => ?_
  cases best with
  | none => exact finishes_ok _
  | some start =>
      exact (finishes_probeLine (f := { f with generator }) finishes ends enough
        region start).bind fun _ _ => finishes_ok _

theorem finishes_find {halvings : Nat} (finishes : p.Finishes)
    (enough : EnoughHalvings f.probeTolerance halvings) (b : Box α) (loup : α) :
    Checked.Finishes (f.find p halvings b loup) := by
  cases given : p.objective with
  | none =>
      rw [find, given]
      exact finishes_ok _
  | some objective =>
      have ends := finishes.objective given
      rw [find_eq f given]
      split
      · exact finishes_ok _
      · refine Checked.Finishes.bind ?_ fun region _ =>
          finishes_findIn finishes ends enough loup region
        split
        · exact finishes_pinMonotone ends b
        · exact finishes_ok b

end IncumbentFinder

/-! ## Iterations -/

namespace Optimizer
variable {κ : Type} {o : Optimizer κ α}

theorem finishes_storeCell (o : Optimizer κ α) (lower : α) (c : Cell α) :
    Checked.Finishes (o.storeCell lower c) := by
  rw [storeCell]
  split <;> exact finishes_ok _

theorem finishes_pushCell (finishes : o.problem.Finishes) (c : Cell α) (lower : α) :
    Checked.Finishes (o.pushCell c lower) := by
  rw [pushCell_eq]
  refine Checked.Finishes.bind ?_ fun d _ => finishes_storeCell o lower d
  split
  · exact (Cell.finishes_feasibleShare finishes _ c).map _
  · exact finishes_ok c

theorem finishes_pushRoot (finishes : o.problem.Finishes) (domain : Box α) :
    Checked.Finishes (o.pushRoot domain) := by
  rw [pushRoot]
  split
  · exact finishes_ok _
  · exact (Cell.finishes_objective finishes _).bind fun _ _ => finishes_pushCell finishes _ _

theorem finishes_gradientExcludesZero (finishes : o.problem.Finishes) (b : Box α) :
    Checked.Finishes (o.gradientExcludesZero b) := by
  rw [gradientExcludesZero]
  split
  · rename_i objective domain given known
    refine ((finishes.objective given).gradient b).bind fun gradient _ => ?_
    split
    · exact finishes_ok _
    · exact finishes_ok _
  · exact finishes_ok _

end Optimizer

namespace Iteration
variable {κ : Type} {t : Iteration κ α} {c : Cell α}

theorem finishes_addChild (finishes : t.search.problem.Finishes) (c : Cell α) :
    Checked.Finishes (t.addChild c) := by
  refine (Cell.finishes_objective finishes c).bind fun ⟨image, child⟩ _ => ?_
  dsimp only
  split
  · exact finishes_ok _
  · split
    · exact finishes_ok _
    · exact (Optimizer.finishes_pushCell finishes child image.lo).bind fun _ _ => finishes_ok _

variable [Contractor κ α]

theorem finishes_branch (finishes : t.search.problem.Finishes) (c : Cell α) (lower : α) :
    Checked.Finishes (t.branch c lower) := by
  rw [branch]
  dsimp only
  split
  · exact finishes_ok _
  · refine (Cell.finishes_bisect c _ _).bind fun answer halves => ?_
    obtain ⟨left, right⟩ := answer
    refine Finishes.bind (finishes_addChild ?_ left) fun t₁ opened => ?_
    · exact finishes
    obtain ⟨⟨l, r⟩, -, halves⟩ := bind_eq_ok.mp halves
    obtain ⟨rfl, rfl⟩ := Prod.mk.inj (Except.ok.inj halves)
    obtain ⟨_, _, -, effects⟩ :=
      effects_addChild (b := c.domain) (CachedBox.current_ofDomain _ l) opened
    have same : t₁.search.problem = t.search.problem :=
      congrArg (fun given => given.1) effects.unfolds.given
    exact finishes_addChild (same ▸ finishes) _

end Iteration

end Evaluations

section Contractors
variable {κ α : Type} [Scalar α] [Contractor κ α]

/-- Every call of the contractor comes to an end, in any state that calls bring it into. -/
structure Contractor.Finishes (first : κ) : Prop where
  contract : ∀ {k : κ}, Used first k → ∀ (b : Box α) (j : Journal α),
    Checked.Finishes ((Contractor.contract k b).run j)
  onIncumbent : ∀ {k : κ}, Used first k → ∀ (v : α) (j : Journal α),
    Checked.Finishes ((Contractor.onIncumbent k v).run j)
  restart : ∀ {k : κ}, Used first k → ∀ j : Journal α,
    Checked.Finishes ((Contractor.restart k).run j)

namespace Iteration
variable {first : κ} {o : Optimizer κ α} {t : Iteration κ α} {halvings : Nat}

open IncumbentFinder

theorem finishes_explore (finishes : t.search.problem.Finishes)
    (ends : Contractor.Finishes first) (used : Contractor.Used first t.search.contractor)
    (enough : EnoughHalvings t.search.finder.probeTolerance halvings)
    (c : Cell α) (image : Interval α) (j : Journal α) :
    Checked.Finishes ((t.explore halvings c image).run j) := by
  refine finishes_run_bind (finishes_run_liftM (finishes_find finishes enough _ _))
    fun ⟨found, finder⟩ j₁ tried => ?_
  cases found with
  | none =>
      exact finishes_run_liftM
        (finishes_branch (t := t.modify fun o => { o with finder }) finishes c _)
  | some candidate =>
      refine finishes_run_bind ?_ fun t₁ j₂ improved => ?_
      · exact finishes_run_bind (ends.onIncumbent used _ _) fun _ _ _ => finishes_run_pure _ _
      · have same : t₁.search.problem = t.search.problem :=
          problem_of_improve (t := t.modify fun o => { o with finder }) improved
        split
        · exact finishes_run_pure _ _
        · exact finishes_run_liftM (finishes_branch (same ▸ finishes) c _)

theorem finishes_examine (finishes : t.search.problem.Finishes)
    (ends : Contractor.Finishes first) (used : Contractor.Used first t.search.contractor)
    (enough : EnoughHalvings t.search.finder.probeTolerance halvings)
    (c : Cell α) (j : Journal α) : Checked.Finishes ((t.examine halvings c).run j) := by
  rw [examine]
  split
  · exact finishes_run_pure _ _
  · refine finishes_run_bind (finishes_run_liftM (Cell.finishes_certainlyInfeasible finishes c)) ?_
    rintro ⟨violated, d⟩ _ -
    dsimp only
    split
    · exact finishes_run_pure _ _
    · refine finishes_run_bind (finishes_run_liftM (Cell.finishes_objective finishes d)) ?_
      rintro ⟨image, e⟩ _ -
      dsimp only
      split
      · exact finishes_run_pure _ _
      · split
        · refine finishes_run_bind (finishes_run_liftM
            (Optimizer.finishes_gradientExcludesZero finishes _)) fun flat _ _ => ?_
          split
          · exact finishes_run_pure _ _
          · exact finishes_explore finishes ends used enough e image _
        · exact finishes_explore finishes ends used enough e image _

theorem finishes_run (finishes : o.problem.Finishes) (ends : Contractor.Finishes first)
    (used : Contractor.Used first o.contractor)
    (enough : EnoughHalvings o.finder.probeTolerance halvings)
    (j : Journal α) : Checked.Finishes ((Iteration.run halvings o).run j) := by
  rw [Iteration.run]
  split
  · exact finishes_run_pure _ _
  · rename_i c o₁ taken
    obtain ⟨buffer, -, same, -⟩ := Optimizer.alike_takeCell taken
    have problem : o₁.problem = o.problem := congrArg (fun core => core.1.1) same
    have contractor : o₁.contractor = o.contractor := congrArg (fun core => core.2.1) same
    have tolerance : o₁.finder.probeTolerance = o.finder.probeTolerance :=
      congrArg (fun core => core.1.2.2.2.1) same
    rw [← problem] at finishes
    rw [← contractor] at used
    rw [← tolerance] at enough
    refine finishes_run_bind (ends.contract used _ _) ?_
    rintro ⟨narrowing, k⟩ j₁ contracted
    have examined : ∀ d : Cell α, Checked.Finishes
        (((ofSearch { o₁ with contractor := k }).examine halvings d).run j₁) := fun d =>
      finishes_examine (t := ofSearch { o₁ with contractor := k }) finishes ends
        (used.contract contracted) enough d j₁
    cases narrowing with
    | failed e => exact finishes_run_pure _ _
    | noSolution => exact finishes_run_pure _ _
    | narrowed b => exact finishes_run_bind (examined _) fun _ _ _ => finishes_run_pure _ _
    | unavailable => exact finishes_run_bind (examined _) fun _ _ _ => finishes_run_pure _ _

end Iteration

namespace Optimizer
variable {p : Problem α} {first : κ} {settings : SearchConfig α} {o : Optimizer κ α}

theorem Configured.finishes_iteration [OrderedScalar α] {halvings : Nat}
    (configured : o.Configured p first settings) (finishes : p.Finishes)
    (ends : Contractor.Finishes first)
    (enough : IncumbentFinder.EnoughHalvings settings.probeTolerance halvings)
    (j : Journal α) : Checked.Finishes ((Iteration.run halvings o).run j) := by
  rw [← configured.problem] at finishes
  rw [← configured.probeTolerance] at enough
  exact Iteration.finishes_run finishes ends configured.used enough j

theorem finishes_restart (ends : Contractor.Finishes first)
    (used : Contractor.Used first o.contractor) (j : Journal α) :
    Checked.Finishes (o.restart.run j) := by
  rw [restart]
  split
  · exact finishes_run_pure _ _
  · exact finishes_run_bind (ends.restart used j) fun _ _ _ => finishes_run_pure _ _

variable {μ : Type} [SearchMonitor μ α]

omit [Scalar α] in
theorem finishes_tell (m : μ) (e : SearchEvent α) (s : Statistics) (j : Journal α) :
    Checked.Finishes ((tell m e s).run j) :=
  finishes_ok _

omit [Scalar α] in
theorem finishes_tellAll (events : List (SearchEvent α × Statistics)) : ∀ (m : μ) (j : Journal α),
    Checked.Finishes ((tellAll m events).run j) := by
  induction events with
  | nil => exact fun m j => finishes_run_pure _ _
  | cons e events ih =>
      intro m j
      rw [tellAll, List.foldlM_cons]
      exact finishes_run_bind (finishes_tell _ _ _ _) fun m _ _ => ih m _

end Optimizer

end Contractors

end BoxSearch
