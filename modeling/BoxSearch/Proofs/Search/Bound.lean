import BoxSearch.Proofs.Scalar.ExtendedInt
import BoxSearch.Proofs.Search.Run

/-!
# The lower bound of every search

At the end of each call the lower bound is one of the objective over the feasible points of the
domain, as long as a better incumbent does not raise the target. After the error of a linear
program that only holds outside of the cell that was being processed: the cell has left the search
and nothing remembers it, so that a later run may find the domain infeasible.
-/
set_option autoImplicit false

namespace BoxSearch

open OrderedScalar Scalar Checked

variable {κ α : Type} [Scalar α] [OrderedScalar α] [Contractor κ α]

/-- No box loses a feasible point whose objective is up to the least value that the contractor was
told since its last restart. -/
def Contractor.Keeps (p : Problem α) (reading : Evaluator α → List ℝ → ℝ) (first : κ) : Prop :=
  ∀ (k k' : κ) (g : EReal) (b : Box α) (outcome : Narrowing α) (j j' : Journal α),
    Told first k g → (Contractor.contract k b).run j = .ok ((outcome, k'), j') →
    ∀ F, p.objective = some F → ∀ x ∈ b, p.Feasible reading x → (reading F x : EReal) ≤ g →
    outcome.Retains x

omit [Contractor κ α] in
theorem valid_evalObjective {p : Problem α} {reading : Evaluator α → List ℝ → ℝ}
    (encloses : ∀ F ∈ p.functions, F.EnclosesRange p.arity (reading F)) {b : Box α}
    {image : Interval α} (success : p.evalObjective b = .ok image) : image.Valid := by
  rw [Problem.evalObjective] at success
  split at success
  · rename_i F objective
    have listed : F ∈ p.functions := by simp [Problem.functions, objective]
    exact (encloses F listed).valid success
  · obtain rfl := Except.ok.inj success
    split
    · exact Interval.valid_empty
    · exact Or.inr (Interval.proper_of_mem (Interval.mem_entire 0))

section
variable {p : Problem α} {contractor : κ} {config : SearchConfig α}
  {reading : Evaluator α → List ℝ → ℝ} {F : Evaluator α} {x : List ℝ}

theorem exists_point (monotone : config.Monotone)
    (encloses : ∀ F ∈ p.functions, F.EnclosesRange p.arity (reading F))
    (keeps : Contractor.Keeps p reading contractor) (objective : p.objective = some F)
    (size : x.length = p.arity) (feasible : p.Feasible reading x) :
    ∃ q : Point ⟨p, config, contractor, valid_evalObjective encloses, monotone⟩,
      q.place = x ∧ q.height = reading F x := by
  have listed : F ∈ p.functions := by simp [Problem.functions, objective]
  refine ⟨⟨x, reading F x, fun {b image} member found => ?_, fun {b} member refuted => ?_,
    fun told below contracted member => ?_⟩, rfl, rfl⟩
  · change p.evalObjective b = .ok image at found
    rw [Problem.evalObjective, objective] at found
    exact (encloses F listed).mem member size found
  · obtain ⟨c, hc, image, found, violated⟩ := refuted
    have listed : c.function ∈ p.functions :=
      List.mem_append_right _ (List.mem_map_of_mem hc)
    exact Constraint.not_accepts_of_certainlyViolated violated
      ((encloses _ listed).mem member size found) (feasible c hc)
  · exact keeps _ _ _ _ _ _ _ told contracted F objective x member feasible below

/-- The lower bound holds at a feasible point that is in no lost box and in no cell let go by the
first-order test. -/
theorem Optimizer.Reliable.uplo_le [SplittingScalar α] {o : Optimizer κ α}
    {cells : List (Cell α)} {lost : List (Box α)} {domain : Box α} (monotone : config.Monotone)
    (encloses : ∀ F ∈ p.functions, F.EnclosesRange p.arity (reading F))
    (keeps : Contractor.Keeps p reading contractor)
    (reliable : Reliable ⟨p, config, contractor, valid_evalObjective encloses, monotone⟩ o cells
      lost) (objective : p.objective = some F) (known : o.domain = some domain)
    (inside : x ∈ domain) (feasible : p.Feasible reading x)
    (outside : p.constraints = [] → ∀ c ∈ cells, x ∉ c.domain) (spared : ∀ b ∈ lost, x ∉ b) :
    value o.uplo ≤ reading F x := by
  have size : x.length = p.arity := (Box.length_of_mem inside).trans (reliable.arity known)
  obtain ⟨q, rfl, height⟩ := exists_point monotone encloses keeps objective size feasible
  by_cases begun : o.status = .init
  · rw [(reliable.fresh begun).2]
    exact bot_le
  · rcases reliable.settles begun known q inside spared with accounts | ⟨free, c, hc, held⟩
    · exact height ▸ accounts.uplo_le
    · exact absurd held (outside free c hc)

end

/-! ## A search among integers -/

instance : SplittingScalar ExtendedInt where
  number_interpolate _ _ _ _ _ := ExtendedInt.isNumber _

structure WidthLimit where
  limit : ExtendedInt

instance : Contractor WidthLimit ExtendedInt where
  name _ := "WidthLimit"
  contract k b := return (if k.limit < b.maxWidth then .failed (.solver "box too wide") else
    .unavailable, k)
  onIncumbent k _ := return k
  restart k := return k

structure Bystander

instance : SearchMonitor Bystander ExtendedInt where
  name _ := "Bystander"
  observe _ _ m := return m
  command _ _ m := return (none, m)

namespace WidthLimit
open ExtendedInt

def shifted : Affine ExtendedInt := ⟨[int 1], int (-3)⟩

def problem : Problem ExtendedInt :=
  ⟨1, some shifted.evaluator, [⟨shifted.evaluator, .ge⟩]⟩

def domain : Box ExtendedInt := ⟨[⟨int 4, int 10⟩]⟩

def config : SearchConfig ExtendedInt where
  precision := int 20
  relativeGoal := int 0
  absoluteGoal := int 1
  samples := 0
  probeTolerance := int 1
  equalityTolerance := int 0
  seed := 1
  capacity := none
  secondary := none
  percent := 50

noncomputable def reading (_ : Evaluator ExtendedInt) (x : List ℝ) : ℝ :=
  dot (reals shifted.coeffs) x + real shifted.constant

theorem target_int (z : ℤ) : config.target (int z) = int (z - 1) := by
  have below : int (z + -1) < int (z + -(0 * |z|)) := by
    change decide (z + -(0 * |z|) ≤ z + -1) = false
    simp
  exact if_pos (Or.inl below)

theorem monotone : config.Monotone := by
  intro l l' finite finite' below
  obtain ⟨z, rfl⟩ := isFinite_cases finite
  obtain ⟨w, rfl⟩ := isFinite_cases finite'
  rw [target_int, target_int]
  have below : z ≤ w := of_decide_eq_true below
  exact decide_eq_true (Int.sub_le_sub_right below 1)

theorem encloses : ∀ F ∈ problem.functions, F.EnclosesRange problem.arity (reading F) := by
  intro F hF
  have same : F = shifted.evaluator := by simpa [problem, Problem.functions] using hF
  exact same ▸ Affine.enclosesRange shifted

theorem keeps (first : WidthLimit) : Contractor.Keeps problem reading first := by
  intro k k' g b outcome j j' _ success _ _ x _ _ _
  obtain ⟨same, -⟩ := run_pure_eq_ok.mp success
  obtain ⟨rfl, rfl⟩ := Prod.mk.inj same
  split
  · trivial
  · trivial

end WidthLimit

/-! ## The bound -/

namespace Optimizer

/-- The lower bound of a search without an error is at most the objective at every feasible point
of its domain that is in no cell let go by the first-order test, which only runs without
constraints. -/
theorem uplo_le_objective [SplittingScalar α] {p : Problem α} {contractor : κ}
    {bisector : Bisector α} {config : SearchConfig α} {reading : Evaluator α → List ℝ → ℝ}
    {o : Optimizer κ α} {cells : List (Cell α)} (monotone : config.Monotone)
    (encloses : ∀ F ∈ p.functions, F.EnclosesRange p.arity (reading F))
    (keeps : Contractor.Keeps p reading contractor)
    (reached : Reached p contractor bisector config o cells 0) :
    ∀ F, p.objective = some F → ∀ domain, o.domain = some domain → ∀ x ∈ domain,
      p.Feasible reading x → (p.constraints = [] → ∀ c ∈ cells, x ∉ c.domain) →
      value o.uplo ≤ reading F x := by
  intro F objective domain known x inside feasible outside
  obtain ⟨lost, none, reliable⟩ :=
    Reached.reliable (s := ⟨p, config, contractor, valid_evalObjective encloses, monotone⟩) reached
  obtain rfl := List.length_eq_zero_iff.mp none
  exact reliable.uplo_le monotone encloses keeps objective known inside feasible outside nofun

end Optimizer

namespace WidthLimit
open ExtendedInt

theorem search_converges :
    config.Monotone ∧ (∀ F ∈ problem.functions, F.EnclosesRange problem.arity (reading F)) ∧
    Contractor.Keeps problem reading (⟨top⟩ : WidthLimit) ∧
    ∃ o : Optimizer WidthLimit ExtendedInt,
      Optimizer.Reached problem ⟨top⟩ (.roundRobin 0) config o [] 0 ∧
      o.domain = some domain ∧ o.status = .converged ∧ o.uplo = int 1 ∧
      ∀ x ∈ domain, problem.Feasible reading x →
        OrderedScalar.value o.uplo ≤ reading shifted.evaluator x := by
  obtain ⟨o, made, o', ⟨m, cells⟩, outcome, j, ran, known, converged, uplo, rfl⟩ :
      ∃ o : Optimizer WidthLimit ExtendedInt,
        Optimizer.ofParts problem ⟨top⟩ (.roundRobin 0) config = .ok (.ok o) ∧
        ∃ (o' : Optimizer WidthLimit ExtendedInt) (r : Recording Bystander ExtendedInt)
          (outcome : Outcome ExtendedInt) (j : Journal ExtendedInt),
          (o.optimize ⟨3, 3⟩ domain (Recording.mk Bystander.mk [])).run .empty =
            .ok (⟨.ok outcome, o', r⟩, j) ∧
          o'.domain = some domain ∧ o'.status = .converged ∧ o'.uplo = int 1 ∧ r.cells = [] := by
    refine ⟨_, rfl, _, _, _, _, rfl, ?_, ?_, ?_, ?_⟩
    · rfl
    · rfl
    · rfl
    · rfl
  have reached := Optimizer.Reached.optimize (.begin made) ran (.ok outcome)
  exact ⟨monotone, encloses, keeps _, o', reached, known, converged, uplo,
    fun x inside feasible => Optimizer.uplo_le_objective monotone encloses (keeps _) reached _ rfl
      domain known x inside feasible nofun⟩

end WidthLimit

namespace Optimizer

end Optimizer

namespace WidthLimit
open ExtendedInt

end WidthLimit

end BoxSearch
