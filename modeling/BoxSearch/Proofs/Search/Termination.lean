import Mathlib.Algebra.Order.BigOperators.Group.List
import BoxSearch.Proofs.Interval.Span
import BoxSearch.Proofs.Search.Certificate
import BoxSearch.Proofs.Search.Finishing

/-!
# The search terminates

An iteration takes out a cell and opens parts of it that weigh less together. So the weight of the
open cells bounds how many iterations are left, whatever the precision and the contractor are.
-/
set_option autoImplicit false

namespace BoxSearch

open OrderedScalar Scalar Checked

variable {κ α : Type} [Scalar α] [OrderedScalar α] [LevelledScalar α]

/-! ## Weights -/

theorem Box.sum_weight_lt_of_splits [RepresentingScalar α] [SplittingScalar α] {b : Box α}
    {parts : List (Box α)} (proper : ∀ x ∈ b.components, x.Proper)
    (splits : b.Splits parts) : (parts.map Box.weight).sum < b.weight := by
  rcases splits with rfl | ⟨var, ratio, left, right, bisected, some_of⟩
  · exact b.weight_pos
  · have fewer := (some_of.map Box.weight).sum_le_sum fun _ _ => Nat.zero_le _
    rw [List.map_cons, List.map_singleton, List.sum_pair] at fewer
    exact fewer.trans_lt (Box.weight_lt_of_bisect proper bisected)

def CellBuffer.weight (b : CellBuffer α) : Nat := (b.cells.map fun c => c.domain.weight).sum

namespace CellBuffer
variable {b b' : CellBuffer α} {c : Cell α}

theorem Faithful.weight_push (faithful : b.Faithful) (success : b.push c = .ok b') :
    b'.weight = c.domain.weight + b.weight :=
  ((faithful.push success).2.map _).sum_eq

theorem Faithful.weight_pop (faithful : b.Faithful) (success : b.pop = .ok (c, b')) :
    b.weight = c.domain.weight + b'.weight :=
  ((faithful.pop success).2.map _).sum_eq

theorem Faithful.weight_evict_le (faithful : b.Faithful) (loup bound : α) :
    ((b.setIncumbent loup).evict bound).2.weight ≤ b.weight := by
  obtain ⟨lowered, same⟩ := faithful.setIncumbent loup
  obtain ⟨cells, rest, some_of⟩ := (lowered.evict bound).2.trans same.subperm
  rw [weight, ← (rest.map _).sum_eq]
  exact (some_of.map _).sum_le_sum fun _ _ => Nat.zero_le _

end CellBuffer

namespace Optimizer
variable {p : Problem α} {first : κ} {settings : SearchConfig α} {o o' : Optimizer κ α}
  {b : Box α} {parts : List (Box α)}

def weight (o : Optimizer κ α) : Nat := o.buffer.weight

omit [OrderedScalar α] in
theorem weight_of_alike (same : o.Alike o') : o'.weight = o.weight :=
  congrArg CellBuffer.weight same.2

variable [Contractor κ α]

theorem Unfolds.weight_le (faithful : o.buffer.Faithful) (unfolds : Unfolds b o parts o') :
    o'.buffer.Faithful ∧ o'.weight ≤ (parts.map Box.weight).sum + o.weight := by
  induction unfolds with
  | alike same =>
      refine ⟨same.2 ▸ faithful, ?_⟩
      rw [weight_of_alike same]
      exact Nat.le_add_left _ _
  | opens pushed _ =>
      refine ⟨(faithful.push pushed).1, ?_⟩
      rw [List.map_singleton, List.sum_singleton]
      exact (faithful.weight_push pushed).le
  | improves _ _ buffer =>
      rw [weight, buffer]
      exact ⟨((faithful.setIncumbent _).1.evict _).1,
        (faithful.weight_evict_le _ _).trans (Nat.le_add_left _ _)⟩
  | trans _ _ ih₁ ih₂ =>
      obtain ⟨faithful₁, first⟩ := ih₁ faithful
      obtain ⟨faithful₂, second⟩ := ih₂ faithful₁
      refine ⟨faithful₂, ?_⟩
      rw [List.map_append, List.sum_append]
      omega

variable [RepresentingScalar α] [SplittingScalar α]

theorem Placed.weight_lt (placed : o.Placed p first settings)
    (shrinks : Contractor.Shrinks p.arity first) (expands : o.Expands o') :
    o'.weight < o.weight := by
  obtain @⟨o₁, c, b, parts, popped, narrows, given, -, -, live, splits, unfolds⟩ := expands
  obtain ⟨faithful, cells⟩ := placed.faithful.pop popped
  obtain ⟨domain, known, within⟩ := placed.nested _ (cells.mem_iff.mpr List.mem_cons_self)
  have lighter : (parts.map Box.weight).sum < c.domain.weight := by
    -- An empty box may come out of the contractor as anything, but then nothing is opened.
    by_cases none : parts = []
    · exact none ▸ c.domain.weight_pos
    · have inside := shrinks.within placed.used (Box.within_self within.proper)
        (within.dim.trans (placed.fits known).2) narrows (live none)
      exact (Box.sum_weight_lt_of_splits inside.proper splits).trans_le inside.weight_le
  have taken := placed.faithful.weight_pop popped
  have opened := (unfolds.weight_le faithful).2
  rw [weight, weight] at opened ⊢
  omega

/-! ## Loops -/

variable [ProbingScalar α] {halvings : Nat}

open IncumbentFinder

section Monitored
variable {μ : Type} [SearchMonitor μ α]

/-- A loop stops before it has iterated more often than the open cells weigh. -/
theorem finishes_loop (finishes : p.Finishes) (ends : Contractor.Finishes first)
    (shrinks : Contractor.Shrinks p.arity first)
    (enough : EnoughHalvings settings.probeTolerance halvings) :
    ∀ {n : Nat} {o : Optimizer κ α} (m : μ) (j : Journal α), o.Placed p first settings →
      o.weight < n → Checked.Finishes ((loop halvings n o m).run j) := by
  intro n
  induction n with
  | zero => omega
  | succ n ih =>
      intro o m j placed light
      rw [loop]
      split
      · exact finishes_run_pure _ _
      · refine finishes_run_bind (finishes_tell _ _ _ _) fun m₁ j₁ _ => ?_
        refine finishes_run_bind (finishes_ok _) ?_
        rintro ⟨reason, m₂⟩ j₂ -
        cases reason with
        | some reason => exact finishes_run_pure _ _
        | none =>
            refine finishes_run_bind (placed.finishes_iteration finishes ends enough _) ?_
            rintro ⟨error, t⟩ j₃ iterated
            refine finishes_run_bind (finishes_ok _) fun _ j₄ _ => ?_
            refine finishes_run_bind (finishes_tellAll _ _ _) fun m₃ j₅ _ => ?_
            cases error with
            | some e => exact finishes_run_pure _ _
            | none =>
                rcases Iteration.expands_of_run iterated with expands | ⟨failed, -⟩
                · have lighter := placed.weight_lt shrinks expands
                  exact ih m₃ j₅ (placed.expands shrinks expands) (by omega)
                · exact absurd rfl failed

theorem finishes_search {budget : Budget} (finishes : p.Finishes) (ends : Contractor.Finishes first)
    (shrinks : Contractor.Shrinks p.arity first)
    (enough : EnoughHalvings settings.probeTolerance budget.halvings)
    (placed : o.Placed p first settings) (light : o.weight < budget.iterations) (m : μ)
    (j : Journal α) : Checked.Finishes ((search budget o m).run j) := by
  have running : o.Alike { o with status := .running } := ⟨rfl, rfl⟩
  refine finishes_run_bind (finishes_ok _) fun start j₁ _ => ?_
  refine finishes_run_bind (finishes_tell _ _ _ _) fun m₁ j₂ _ => ?_
  refine finishes_run_bind (finishes_loop finishes ends shrinks enough m₁ j₂
    (placed.alike running) light) fun ⟨ending, o₁, m₂⟩ j₃ _ => ?_
  refine finishes_run_bind (finishes_ok _) fun now j₄ _ => ?_
  cases ending with
  | error e => exact finishes_run_bind (finishes_tell _ _ _ _) fun _ _ _ => finishes_run_pure _ _
  | ok status =>
      exact finishes_run_bind (finishes_tell _ _ _ _) fun _ _ _ => finishes_run_pure _ _

/-- What the open cells and the domain weigh together. -/
def load (o : Optimizer κ α) : Nat := o.weight + o.domain.elim 0 Box.weight

theorem finishes_run {budget : Budget} (finishes : p.Finishes) (ends : Contractor.Finishes first)
    (shrinks : Contractor.Shrinks p.arity first)
    (enough : EnoughHalvings settings.probeTolerance budget.halvings)
    (placed : o.Placed p first settings) (light : o.load < budget.iterations) (m : μ)
    (j : Journal α) : Checked.Finishes ((o.run budget m).run j) := by
  rw [Optimizer.run]
  split
  · exact finishes_run_pure _ _
  · rename_i domain known
    rw [load, known] at light
    have lighter : o.weight < budget.iterations := (Nat.le_add_right _ _).trans_lt light
    split
    · exact finishes_run_pure _ _
    · exact finishes_run_pure _ _
    · refine finishes_run_bind (finishes_run_liftM (finishes_pushRoot ?_ domain))
        fun o₁ j₁ pushed => ?_
      · rw [placed.problem]
        exact finishes
      · have pushed := (run_liftM_eq_ok.mp pushed).1
        obtain ⟨opened, some_of, -, unfolds⟩ := unfolds_pushRoot pushed
        have fewer := (some_of.map Box.weight).sum_le_sum fun _ _ => Nat.zero_le _
        rw [List.map_singleton, List.sum_singleton] at fewer
        have heavier := (unfolds.weight_le placed.faithful).2
        dsimp only [Option.elim] at light
        exact finishes_search finishes ends shrinks enough (placed.pushRoot known pushed)
          (by omega) m j₁
    · exact finishes_search finishes ends shrinks enough placed lighter m j
    · exact finishes_search finishes ends shrinks enough placed lighter m j

theorem finishes_optimize {budget : Budget} {domain : Box α} (finishes : p.Finishes)
    (ends : Contractor.Finishes first) (shrinks : Contractor.Shrinks p.arity first)
    (enough : EnoughHalvings settings.probeTolerance budget.halvings)
    (valid : domain.Valid) (placed : o.Placed p first settings)
    (light : domain.weight < budget.iterations) (m : μ) (j : Journal α) :
    Checked.Finishes ((o.optimize budget domain m).run j) := by
  rw [Optimizer.optimize]
  split
  · exact finishes_run_pure _ _
  · rename_i checked
    have configured := placed.toConfigured.onDomain valid checked
    refine finishes_run_bind (finishes_restart ends configured.used j) ?_
    rintro ⟨error, o₁⟩ j₁ restarted
    cases error with
    | error e => exact finishes_run_pure _ _
    | ok _ =>
        obtain ⟨fresh, none, known⟩ := configured.restart rfl restarted
        have alone : o₁.load = domain.weight := by
          rw [load, weight, CellBuffer.weight, none, known]
          exact Nat.zero_add _
        exact finishes_run finishes ends shrinks enough fresh (alone ▸ light) m j₁

end Monitored

/-- The search terminates: between calls, and within them between iterations, no sequence of
iterations goes on forever, and a call comes to an end with any budget that is large enough,
whatever the monitor does. -/
theorem terminates (positive : 0 < settings.probeTolerance) (finishes : p.Finishes)
    (ends : Contractor.Finishes first) (shrinks : Contractor.Shrinks p.arity first) :
    WellFounded (fun o' o : Optimizer κ α => Reachable p first settings o ∧ o.Steps o') ∧
    ∀ o : Optimizer κ α, Reachable p first settings o →
      (∃ enough : Budget, ∀ budget : Budget, enough.iterations ≤ budget.iterations →
        enough.halvings ≤ budget.halvings → ∀ (μ : Type) [SearchMonitor μ α] (m : μ)
          (j : Journal α), Checked.Finishes ((o.run budget m).run j)) ∧
      ∀ domain : Box α, domain.Valid → ∃ enough : Budget, ∀ budget : Budget,
        enough.iterations ≤ budget.iterations → enough.halvings ≤ budget.halvings →
          ∀ (μ : Type) [SearchMonitor μ α] (m : μ) (j : Journal α),
            Checked.Finishes ((o.optimize budget domain m).run j) := by
  -- Halving one often enough gives zero, which is below any positive tolerance.
  obtain ⟨last, low⟩ := ProbingScalar.exists_halved_le (α := α)
  have small : ¬settings.probeTolerance ≤ halved last := fun long =>
    (lt_iff.mp positive).2.2.not_ge (le_iff.mp (le_trans long low)).2.2
  refine ⟨?_, fun o reached => ?_⟩
  · refine Subrelation.wf (fun {o' o} related => ?_) (measure (weight (κ := κ) (α := α))).wf
    obtain ⟨reached, steps⟩ := related
    cases steps with
    | iterate _ _ success =>
        rcases Iteration.expands_of_run success with expands | ⟨failed, -⟩
        · exact (reached.placed shrinks).weight_lt shrinks expands
        · exact absurd rfl failed
  · have placed := reached.placed shrinks
    refine ⟨⟨⟨o.load + 1, last + 1⟩, fun budget iterations halvings μ _ m j => ?_⟩,
      fun domain valid => ⟨⟨domain.weight + 1, last + 1⟩,
        fun budget iterations halvings μ _ m j => ?_⟩⟩
    · exact finishes_run finishes ends shrinks ⟨last, halvings, small⟩ placed iterations m j
    · exact finishes_optimize finishes ends shrinks ⟨last, halvings, small⟩ valid placed
        iterations m j

end Optimizer

omit [OrderedScalar α] [LevelledScalar α] in
theorem PlannedContractor.finishes_intersection {σ : Type} [LpSolver σ α] (measurement : Box α) :
    Contractor.Finishes (intersection measurement : PlannedContractor σ α) where
  contract := by
    rintro ⟨plan, memory⟩ used b j
    obtain rfl : plan = .intersection measurement := plan_of_used used
    exact finishes_run_bind (finishes_run_pure _ _) fun _ _ _ => finishes_run_pure _ _
  onIncumbent := by
    rintro ⟨plan, memory⟩ used v j
    obtain rfl : plan = .intersection measurement := plan_of_used used
    exact finishes_run_bind (finishes_run_pure _ _) fun _ _ _ => finishes_run_pure _ _
  restart := by
    rintro ⟨plan, memory⟩ used j
    obtain rfl : plan = .intersection measurement := plan_of_used used
    exact finishes_run_bind (finishes_run_pure _ _) fun _ _ _ => finishes_run_pure _ _

namespace AboveQuarter

def thorough : SearchConfig Float := { SearchConfig.standard with precision := 0 }

/-- The search of the whole line comes to an end, without any precision to stop at. -/
theorem line_terminates :
    0 < thorough.probeTolerance ∧ problem.Finishes ∧ Contractor.Finishes contractor ∧
    Contractor.Shrinks problem.arity contractor ∧
    ∃ o, Optimizer.Reachable problem contractor thorough o ∧ (Box.entire 1 : Box Float).Valid ∧
      ∃ enough : Budget, ∀ budget : Budget, enough.iterations ≤ budget.iterations →
        enough.halvings ≤ budget.halvings → ∀ (m : Monitor) (j : Journal Float),
          Finishes ((o.optimize budget (Box.entire 1) m).run j) := by
  have positive : 0 < thorough.probeTolerance := by decide +kernel
  have finishes : problem.Finishes := by
    intro F hF
    rcases List.mem_pair.mp hF with rfl | rfl
    · exact Affine.finishes _
    · exact Affine.finishes _
  have ends : Contractor.Finishes contractor := PlannedContractor.finishes_intersection _
  obtain ⟨o, made⟩ : ∃ o, Optimizer.ofParts problem contractor (.roundRobin 0) thorough =
    .ok (.ok o) := ⟨_, rfl⟩
  have valid : (Box.entire 1 : Box Float).Valid :=
    List.forall_mem_singleton.mpr Interval.valid_entire
  obtain ⟨-, finds⟩ := Optimizer.terminates positive finishes ends shrinks
  obtain ⟨enough, covers⟩ := (finds o (.begin made)).2 _ valid
  exact ⟨positive, finishes, ends, shrinks, o, .begin made, valid, enough,
    fun budget iterations halvings m j => covers budget iterations halvings Monitor m j⟩

end AboveQuarter

end BoxSearch
