import BoxSearch.Proofs.Agreement.Hull
import BoxSearch.Proofs.Contractor.Relaxation
import BoxSearch.Proofs.Model.Evaluation
import BoxSearch.Proofs.Scalar.ExtendedInt
import BoxSearch.Contractor.Plan
import BoxSearch.Linear.SingleRow

/-!
# No contractor loses a solution

What a plan has to keep is defined along its structure: a measurement keeps its points, a check
those that satisfy the constraints, a sequence those of all members and an agreement those of
enough members. A relaxation keeps the points that satisfy its constraints, reach its current goal
and belong to its other contractor.
-/
set_option autoImplicit false

namespace BoxSearch

open Checked

namespace ContractorPlan

section Solutions
variable {α : Type}

mutual

def functions : ContractorPlan α → List (Evaluator α)
  | intersection _ => []
  | check p => p.constraints.map Constraint.function
  | sequence members => functionsOf members
  | agreement _ members => functionsOf members
  | relaxation r pre => r.problem.functions ++ pre.functions
  | fixed _ _ => []
  | observed _ inner => inner.functions

def functionsOf : List (ContractorPlan α) → List (Evaluator α)
  | [] => []
  | c :: cs => c.functions ++ functionsOf cs

end

variable [Scalar α] [OrderedScalar α] {σ : Type}

open Classical in
mutual

/-- The point is to be kept by a plan with the given memory, when evaluators stand for the given
functions. -/
noncomputable def Solution (reading : Evaluator α → List ℝ → ℝ) (x : List ℝ) :
    (c : ContractorPlan α) → c.Memory σ → Prop
  | intersection measurement, _ => x ∈ measurement
  | check p, _ => p.Feasible reading x
  | sequence members, m => SolutionOfAll reading x members m
  | agreement q members, m => q ≤ votes reading x members m
  | relaxation r pre, m => r.Keeps reading m.1.goal x ∧ pre.Solution reading x m.2
  | fixed _ outcome, _ => outcome.Retains x
  | observed _ inner, m => inner.Solution reading x m

noncomputable def SolutionOfAll (reading : Evaluator α → List ℝ → ℝ) (x : List ℝ) :
    (cs : List (ContractorPlan α)) → Memories σ cs → Prop
  | [], _ => True
  | c :: cs, m => c.Solution reading x m.1 ∧ SolutionOfAll reading x cs m.2

noncomputable def votes (reading : Evaluator α → List ℝ → ℝ) (x : List ℝ) :
    (cs : List (ContractorPlan α)) → Memories σ cs → Nat
  | [], _ => 0
  | c :: cs, m => (if c.Solution reading x m.1 then 1 else 0) + votes reading x cs m.2

end

end Solutions

variable {α : Type} [Scalar α] [OrderedScalar α] {σ : Type} {x : List ℝ}
  {reading : Evaluator α → List ℝ → ℝ}

/-! ## The parts -/

theorem retains_meet {b c : Box α} (hb : x ∈ b) (hc : x ∈ c) : (meet b c).Retains x := by
  have met := Box.mem_intersect hb hc
  simp only [meet, Box.isEmpty_of_mem met, Bool.false_eq_true, if_false]
  exact met

theorem retains_agree [SteppingScalar α] {q : Nat} {b : Box α} {images : List (Box α)}
    (member : x ∈ b) (enough : q ≤ Agreement.support images x) :
    (agree q b images).Retains x := by
  classical
  have count : q ≤ images.length := enough.trans List.countP_le_length
  rw [agree, if_neg (not_lt.mpr count)]
  split
  · rename_i hull success
    exact retains_meet member (Agreement.mem_of_qIntersection success enough)
  · exact trivial

/-- The image of a member that is to keep the point adds a box with it. -/
theorem votes_le_support {c : ContractorPlan α} {cs : List (ContractorPlan α)}
    {m : Memories σ (c :: cs)} {image : Box α} {rest : Except LpError (List (Box α))}
    (enough : ∀ found, rest = .ok found → votes reading x cs m.2 ≤ Agreement.support found x)
    (kept : c.Solution reading x m.1 → x ∈ image) :
    ∀ found, rest.map (image :: ·) = .ok found →
      votes reading x (c :: cs) m ≤ Agreement.support found x := by
  classical
  intro found same
  cases rest with
  | error e => cases same
  | ok images =>
      obtain rfl := Except.ok.inj same
      have others := enough images rfl
      change (if c.Solution reading x m.1 then 1 else 0) + votes reading x cs m.2 ≤ _
      rw [Agreement.support, List.countP_cons, Nat.add_comm]
      refine Nat.add_le_add others ?_
      split
      · rename_i solution
        rw [if_pos (decide_eq_true (kept solution))]
      · exact Nat.zero_le _

theorem not_feasible_of_refuted {p : Problem α} {b : Box α} (member : x ∈ b)
    (encloses : ∀ F ∈ p.constraints.map Constraint.function, F.Encloses x.length (reading F))
    (refuted : Evaluable.Refuted p b) : ¬p.Feasible reading x := by
  intro feasible
  obtain ⟨c, hc, image, evaluated, violated⟩ := refuted
  have inside := (encloses _ (List.mem_map_of_mem hc)).eval member rfl evaluated
  exact Constraint.not_accepts_of_certainlyViolated violated inside (feasible c hc)

/-! ## The whole plan -/

mutual

theorem retains_of_run [SteppingScalar α] [EnclosingScalar α] [LpSolver σ α] :
    ∀ (c : ContractorPlan α) {m m' : c.Memory σ} {b : Box α} {outcome : Narrowing α}
    {j j' : Journal α},
    (∀ F ∈ c.functions, F.Encloses x.length (reading F)) →
    (c.contract m b).run j = .ok ((outcome, m'), j') → x ∈ b → c.Solution reading x m →
    outcome.Retains x ∧ c.Solution reading x m'
  | intersection measurement, m, m', b, outcome, j, j', _, success, member, solution => by
      rw [contract] at success
      obtain ⟨rfl, rfl⟩ := Prod.mk.inj (run_pure_eq_ok.mp success).1
      rw [Solution] at solution ⊢
      exact ⟨retains_meet member solution, solution⟩
  | check p, m, m', b, outcome, j, j', encloses, success, member, solution => by
      rw [contract] at success
      rw [functions] at encloses
      rw [Solution] at solution ⊢
      obtain ⟨⟨violated, probe⟩, j₁, asked, success⟩ := run_bind_eq_ok.mp success
      obtain ⟨log, asked⟩ := Evaluation.value_eq_ok.mp (run_liftM_eq_ok.mp asked).1
      obtain ⟨-, -, refuted⟩ :=
        Evaluable.refuted_of_certainlyInfeasible (PlainBox.truthful p) trivial asked
      obtain ⟨rfl, rfl⟩ := Prod.mk.inj (run_pure_eq_ok.mp success).1
      refine ⟨?_, solution⟩
      split
      · rename_i yes
        rcases refuted yes with empty | refuted
        · cases empty.symm.trans (Box.isEmpty_of_mem member)
        · exact not_feasible_of_refuted member encloses refuted solution
      · exact member
  | sequence members, m, m', b, outcome, j, j', encloses, success, member, solution => by
      rw [contract] at success
      rw [functions] at encloses
      rw [Solution] at solution ⊢
      exact retains_of_runInTurn members encloses success member solution
  | agreement q members, m, m', b, outcome, j, j', encloses, success, member, solution => by
      rw [contract, Box.isEmpty_of_mem member] at success
      rw [functions] at encloses
      rw [Solution] at solution ⊢
      obtain ⟨⟨images, m₁⟩, j₁, ran, success⟩ := run_bind_eq_ok.mp success
      obtain ⟨kept, enough⟩ := votes_of_runEach members encloses ran member
      cases images with
      | error e =>
          obtain ⟨rfl, rfl⟩ := Prod.mk.inj (run_pure_eq_ok.mp success).1
          exact ⟨trivial, solution.trans kept⟩
      | ok images =>
          obtain ⟨rfl, rfl⟩ := Prod.mk.inj (run_pure_eq_ok.mp success).1
          exact ⟨retains_agree member (solution.trans (enough images rfl)),
            solution.trans kept⟩
  | relaxation r pre, m, m', b, outcome, j, j', encloses, success, member, solution => by
      rw [contract] at success
      rw [functions] at encloses
      rw [Solution] at solution ⊢
      obtain ⟨result, j₁, ran, success⟩ := run_bind_eq_ok.mp success
      obtain ⟨rfl, rfl⟩ := Prod.mk.inj (run_pure_eq_ok.mp success).1
      have preserves : Relaxation.Preserves x (pre.Solution reading x)
          (fun (m : pre.Memory σ) b => pre.contract m b) := by
        intro memory memory' b outcome j j' good member success
        exact retains_of_run pre (fun F hF => encloses F (List.mem_append_right _ hF)) success
          member good
      obtain ⟨retained, same, good⟩ := Relaxation.retains_of_contract
        (fun F hF => encloses F (List.mem_append_left _ hF)) preserves ran member solution.1
        solution.2
      exact ⟨retained, same.symm ▸ solution.1, good⟩
  | fixed name answer, m, m', b, outcome, j, j', _, success, _, solution => by
      rw [contract] at success
      obtain ⟨rfl, rfl⟩ := Prod.mk.inj (run_pure_eq_ok.mp success).1
      rw [Solution] at solution ⊢
      exact ⟨solution, solution⟩
  | observed label inner, m, m', b, outcome, j, j', encloses, success, member, solution => by
      rw [contract] at success
      rw [functions] at encloses
      rw [Solution] at solution ⊢
      obtain ⟨_, _, _, success⟩ := run_bind_eq_ok.mp success
      exact retains_of_run inner encloses success member solution

theorem retains_of_runInTurn [SteppingScalar α] [EnclosingScalar α] [LpSolver σ α] :
    ∀ (cs : List (ContractorPlan α)) {m m' : Memories σ cs} {b : Box α} {outcome : Narrowing α}
    {j j' : Journal α},
    (∀ F ∈ functionsOf cs, F.Encloses x.length (reading F)) →
    (contractInTurn cs m b).run j = .ok ((outcome, m'), j') → x ∈ b →
    SolutionOfAll reading x cs m → outcome.Retains x ∧ SolutionOfAll reading x cs m'
  | [], m, m', b, outcome, j, j', _, success, member, solution => by
      rw [contractInTurn] at success
      obtain ⟨rfl, rfl⟩ := Prod.mk.inj (run_pure_eq_ok.mp success).1
      exact ⟨member, solution⟩
  | c :: cs, m, m', b, outcome, j, j', encloses, success, member, solution => by
      rw [contractInTurn] at success
      rw [functionsOf] at encloses
      rw [SolutionOfAll] at solution ⊢
      obtain ⟨first, others⟩ := List.forall_mem_append.mp encloses
      obtain ⟨⟨inner, m₁⟩, j₁, ran, success⟩ := run_bind_eq_ok.mp success
      obtain ⟨retained, kept⟩ := retains_of_run c first ran member solution.1
      cases inner with
      | narrowed b₁ =>
          obtain ⟨⟨final, rest⟩, j₂, later, success⟩ := run_bind_eq_ok.mp success
          obtain ⟨rfl, rfl⟩ := Prod.mk.inj (run_pure_eq_ok.mp success).1
          obtain ⟨retained', kept'⟩ := retains_of_runInTurn cs others later retained solution.2
          exact ⟨retained', kept, kept'⟩
      | unavailable =>
          obtain ⟨⟨final, rest⟩, j₂, later, success⟩ := run_bind_eq_ok.mp success
          obtain ⟨rfl, rfl⟩ := Prod.mk.inj (run_pure_eq_ok.mp success).1
          obtain ⟨retained', kept'⟩ := retains_of_runInTurn cs others later member solution.2
          exact ⟨retained', kept, kept'⟩
      | noSolution => exact retained.elim
      | failed e =>
          obtain ⟨rfl, rfl⟩ := Prod.mk.inj (run_pure_eq_ok.mp success).1
          exact ⟨retained, kept, solution.2⟩

theorem votes_of_runEach [SteppingScalar α] [EnclosingScalar α] [LpSolver σ α] :
    ∀ (cs : List (ContractorPlan α)) {m m' : Memories σ cs} {b : Box α}
    {images : Except LpError (List (Box α))} {j j' : Journal α},
    (∀ F ∈ functionsOf cs, F.Encloses x.length (reading F)) →
    (contractEach cs m b).run j = .ok ((images, m'), j') → x ∈ b →
    votes reading x cs m ≤ votes reading x cs m' ∧
      ∀ found, images = .ok found → votes reading x cs m ≤ Agreement.support found x
  | [], m, m', b, images, j, j', _, success, _ => by
      rw [contractEach] at success
      obtain ⟨rfl, rfl⟩ := Prod.mk.inj (run_pure_eq_ok.mp success).1
      rw [votes]
      exact ⟨le_refl 0, fun found _ => Nat.zero_le _⟩
  | c :: cs, m, m', b, images, j, j', encloses, success, member => by
      classical
      rw [contractEach] at success
      rw [functionsOf] at encloses
      obtain ⟨first, others⟩ := List.forall_mem_append.mp encloses
      obtain ⟨⟨inner, m₁⟩, j₁, ran, success⟩ := run_bind_eq_ok.mp success
      have kept : c.Solution reading x m.1 → inner.Retains x ∧ c.Solution reading x m₁ :=
        retains_of_run c first ran member
      have vote : (if c.Solution reading x m.1 then 1 else 0) ≤
          if c.Solution reading x m₁ then 1 else 0 := by
        split
        · rename_i solution
          rw [if_pos (kept solution).2]
        · exact Nat.zero_le _
      cases inner with
      | failed e =>
          obtain ⟨rfl, rfl⟩ := Prod.mk.inj (run_pure_eq_ok.mp success).1
          exact ⟨Nat.add_le_add_right vote _, (by simp)⟩
      | noSolution =>
          obtain ⟨⟨rest, m₂⟩, j₂, later, success⟩ := run_bind_eq_ok.mp success
          obtain ⟨rfl, rfl⟩ := Prod.mk.inj (run_pure_eq_ok.mp success).1
          obtain ⟨votes', enough⟩ := votes_of_runEach cs others later member
          refine ⟨Nat.add_le_add vote votes', fun found same => ?_⟩
          rw [votes, if_neg fun solution => (kept solution).1, Nat.zero_add]
          exact enough found same
      | unavailable =>
          obtain ⟨⟨rest, m₂⟩, j₂, later, success⟩ := run_bind_eq_ok.mp success
          obtain ⟨rfl, rfl⟩ := Prod.mk.inj (run_pure_eq_ok.mp success).1
          obtain ⟨votes', enough⟩ := votes_of_runEach cs others later member
          exact ⟨Nat.add_le_add vote votes', votes_le_support enough fun _ => member⟩
      | narrowed image =>
          obtain ⟨⟨rest, m₂⟩, j₂, later, success⟩ := run_bind_eq_ok.mp success
          obtain ⟨rfl, rfl⟩ := Prod.mk.inj (run_pure_eq_ok.mp success).1
          obtain ⟨votes', enough⟩ := votes_of_runEach cs others later member
          exact ⟨Nat.add_le_add vote votes', votes_le_support enough fun sol => (kept sol).1⟩

end

/-- A contraction keeps every solution of its box, and leaves a memory for which they are still
solutions. The linear solver may have answered anything. -/
theorem contract_keeps_solutions [SteppingScalar α] [EnclosingScalar α] [LpSolver σ α]
    {c : ContractorPlan α} {m m' : c.Memory σ} {b : Box α} {outcome : Narrowing α}
    {j j' : Journal α} (encloses : ∀ F ∈ c.functions, F.Encloses b.dim (reading F))
    (success : (c.contract m b).run j = .ok ((outcome, m'), j')) :
    ∀ x ∈ b, c.Solution reading x m → outcome.Retains x ∧ c.Solution reading x m' := by
  intro x member solution
  exact retains_of_run c (Box.length_of_mem member ▸ encloses) success member solution

/-! ## An example -/

open ExtendedInt

def ceiling : Problem ExtendedInt :=
  ⟨1, none, [⟨(Affine.mk [int 1] (int (-3))).evaluator, .le⟩]⟩

def ceilingPlan : ContractorPlan ExtendedInt :=
  .sequence [.relaxation (.ofParts ceiling .standard) (.check ceiling),
    .intersection ⟨[⟨int 1, int 12⟩]⟩]

def ceilingMemory : ceilingPlan.Memory (SingleRowSolver ExtendedInt) :=
  ((.fresh (.ofParts ceiling .standard) ⟨⟩, ()), ((), ()))

theorem ceilingPlan_keeps :
    ∃ m', (ceilingPlan.contract ceilingMemory ⟨[⟨int 0, int 10⟩]⟩).run .empty =
        .ok ((.narrowed ⟨[⟨int 1, int 3⟩]⟩, m'), .empty) ∧
      ∀ x ∈ (⟨[⟨int 0, int 10⟩]⟩ : Box ExtendedInt),
        ceilingPlan.Solution (fun _ x => dot (reals [int 1]) x + Scalar.real (int (-3))) x
          ceilingMemory →
        x ∈ (⟨[⟨int 1, int 3⟩]⟩ : Box ExtendedInt) ∧
          ceilingPlan.Solution (fun _ x => dot (reals [int 1]) x + Scalar.real (int (-3))) x
            m' := by
  obtain ⟨m', success⟩ : ∃ m', (ceilingPlan.contract ceilingMemory ⟨[⟨int 0, int 10⟩]⟩).run
      .empty = .ok ((.narrowed ⟨[⟨int 1, int 3⟩]⟩, m'), .empty) := ⟨_, rfl⟩
  refine ⟨m', success, contract_keeps_solutions (fun F hF => ?_) success⟩
  have same : F = (Affine.mk [int 1] (int (-3))).evaluator := by
    simpa [ceilingPlan, functions, functionsOf, ceiling, Relaxation.ofParts, Problem.functions]
      using hF
  exact same ▸ Affine.encloses _

end ContractorPlan

end BoxSearch
