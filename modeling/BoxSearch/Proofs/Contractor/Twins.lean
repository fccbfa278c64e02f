import BoxSearch.Proofs.Follows
import BoxSearch.Contractor.Plan
import BoxSearch.Linear.SingleRow

/-!
# Contractors with a common origin

A contractor meets two copies of itself that stem from the same state and have the same goal and
the same random draws, but whose solvers have been asked different questions before. If solvers do
not remember questions, the copies do the same from then on. A restart makes such copies of any two
contractors of one origin.
-/
set_option autoImplicit false

namespace BoxSearch

/-- What a solver answers depends on the program and the sense, and not on earlier questions. -/
class MemorylessSolver (σ : Type) {α : outParam Type} [LpSolver σ α] : Prop where
  solve_after : ∀ (s : σ) (p q : LinearProgram α) (sense sense' : Sense),
    (LpSolver.solve (LpSolver.solve s p sense).2 q sense').1 = (LpSolver.solve s q sense').1

instance {α : Type} [Scalar α] : MemorylessSolver (SingleRowSolver α) := ⟨fun _ _ _ _ _ => rfl⟩

instance {σ α : Type} [Scalar α] [LpSolver σ α] [MemorylessSolver σ] :
    MemorylessSolver (RecordedSolver σ) :=
  ⟨fun s p q sense sense' => MemorylessSolver.solve_after s.solver p q sense sense'⟩

variable {σ π α : Type} [LpSolver σ α]

def LpSolver.Alike (s t : σ) : Prop :=
  ∀ p sense, (LpSolver.solve s p sense).1 = (LpSolver.solve t p sense).1

theorem LpSolver.Alike.solve [MemorylessSolver σ] {s t : σ} (alike : LpSolver.Alike s t)
    (p : LinearProgram α) (sense : Sense) : LpSolver.Alike s (LpSolver.solve t p sense).2 :=
  fun q sense' => (alike q sense').trans
    (MemorylessSolver.solve_after t p q sense sense').symm

open LpSolver (Alike)
open Journaled (follows_pure follows_note follows_liftM follows_same)

namespace Relaxation

structure RoundTwins (origin : σ) (s t : RoundState σ α) : Prop where
  left : Alike origin s.solver
  right : Alike origin t.solver
  same : t = { s with solver := t.solver }

/-- What is carried from box to box differs in the solver, apart from rows and programs, which are
made anew for every round. -/
structure Twins (origin : σ) (s t : RelaxationState σ α) : Prop where
  left : Alike origin s.solver
  right : Alike origin t.solver
  draws : t.draws = s.draws
  goal : t.goal = s.goal

omit [LpSolver σ α] in
theorem update_eq (s : RoundState σ α) (u : ProgramUpdate α Unit) :
    s.update u = ((u.run.run s.program).1, { s with program := (u.run.run s.program).2 }) :=
  rfl

variable [Scalar α] [MemorylessSolver σ] {origin : σ} {r : Relaxation α}
  {pre : π → Box α → Journaled α (Narrowing α × π)} {P : π → π → Prop}

omit [MemorylessSolver σ] in
theorem follows_useAnswer {rows : List (LinearRow α)} {ref : BoundRef} {answer : LpAnswer α}
    {s t : RoundState σ α} (twins : RoundTwins origin s t) :
    Checked.Follows (fun x y => x.1 = y.1 ∧ RoundTwins origin x.2 y.2)
      (useAnswer rows ref answer s) (useAnswer rows ref answer t) := by
  obtain ⟨left, right, same⟩ := twins
  rw [same]
  generalize t.solver = solver at right
  rw [useAnswer, useAnswer]
  split
  · dsimp only
    refine .same fun current => ?_
    split
    · refine .same fun certified => ?_
      refine .same fun proved => ?_
      cases proved with
      | noSolution => exact .ok ⟨rfl, left, right, rfl⟩
      | unchanged => exact .ok ⟨rfl, left, right, rfl⟩
      | tightened x =>
          refine .same fun b => ?_
          rw [update_eq, update_eq]
          generalize (LinearProgram.setColumnBounds ref.var x.lo x.hi).run.run s.program = changed
          obtain ⟨result, program⟩ := changed
          cases result with
          | ok _ => exact .ok ⟨rfl, left, right, rfl⟩
          | error e => exact .ok ⟨rfl, left, right, rfl⟩
    · exact .ok ⟨rfl, left, right, rfl⟩
  · split
    · exact .ok ⟨rfl, left, right, rfl⟩
    · refine .same fun certified => ?_
      cases certified with
      | false => exact .ok ⟨rfl, left, right, rfl⟩
      | true => exact .ok ⟨rfl, left, right, rfl⟩
  · exact .ok ⟨rfl, left, right, rfl⟩
  · exact .ok ⟨rfl, left, right, rfl⟩
  · exact .ok ⟨rfl, left, right, rfl⟩

theorem follows_solveBound {rows : List (LinearRow α)} {ref : BoundRef} {s t : RoundState σ α}
    (twins : RoundTwins origin s t) :
    Checked.Follows (fun x y => x.1 = y.1 ∧ RoundTwins origin x.2 y.2)
      (solveBound rows ref s) (solveBound rows ref t) := by
  obtain ⟨left, right, same⟩ := twins
  rw [same]
  generalize t.solver = solver at right
  rw [solveBound, solveBound, update_eq, update_eq]
  generalize (LinearProgram.setSingleObjective ref.var 1).run.run s.program = changed
  obtain ⟨result, program⟩ := changed
  cases result with
  | error e => exact .ok ⟨rfl, left, right, rfl⟩
  | ok _ =>
      dsimp only
      have answers := (left program ref.sense).symm.trans (right program ref.sense)
      have left' := left.solve program ref.sense
      have right' := right.solve program ref.sense
      generalize LpSolver.solve s.solver program ref.sense = first at answers left'
      generalize LpSolver.solve solver program ref.sense = second at answers right'
      obtain ⟨answer, asked⟩ := first
      obtain ⟨_, asked'⟩ := second
      obtain rfl := answers
      cases answer with
      | error e => exact .ok ⟨rfl, left', right', rfl⟩
      | ok answer => exact follows_useAnswer ⟨left', right', rfl⟩

theorem follows_solveBounds {tolerance : α} {rows : List (LinearRow α)} :
    ∀ (n : Nat) {s t : RoundState σ α}, RoundTwins origin s t →
      Checked.Follows (fun x y => x.1 = y.1 ∧ RoundTwins origin x.2 y.2)
        (solveBounds tolerance rows n s) (solveBounds tolerance rows n t) := by
  intro n
  induction n with
  | zero => exact fun twins => .ok ⟨rfl, twins⟩
  | succ n ih =>
      intro s t ⟨left, right, same⟩
      rw [same]
      generalize t.solver = solver at right
      rw [solveBounds, solveBounds]
      refine .same fun scan => ?_
      cases scan.closest with
      | none => exact .ok ⟨rfl, left, right, rfl⟩
      | some found =>
          have settled : RoundTwins origin { s with settled := found.1 :: scan.settled }
              { s with settled := found.1 :: scan.settled, solver } := ⟨left, right, rfl⟩
          refine (follows_solveBound settled).bind ?_
          rintro ⟨ending, s'⟩ ⟨_, t'⟩ ⟨rfl, twins⟩
          cases ending with
          | some result => exact .ok ⟨rfl, twins⟩
          | none => exact ih twins

/-! ## Rounds -/

omit [LpSolver σ α] [MemorylessSolver σ] in
theorem load_run (b : Box α) (rows : List (LinearRow α)) (p q : LinearProgram α) :
    (load b rows).run.run p = (load b rows).run.run q :=
  rfl

theorem follows_round {b : Box α} {s t : RelaxationState σ α} (twins : Twins origin s t) :
    Checked.Follows (fun x y => x.1 = y.1 ∧ Twins origin x.2 y.2) (r.round b s) (r.round b t) := by
  obtain ⟨left, right, draws, goal⟩ := twins
  rw [round, round, draws, goal]
  refine .same fun found => ?_
  dsimp only
  refine Checked.follows_ite (.ok ⟨rfl, left, right, rfl, rfl⟩) ?_
  refine Checked.follows_ite (.ok ⟨rfl, left, right, rfl, rfl⟩) ?_
  rw [load_run b found.rows t.program s.program]
  generalize (load b found.rows).run.run s.program = loaded
  obtain ⟨result, program⟩ := loaded
  cases result with
  | error e => exact .ok ⟨rfl, left, right, rfl, rfl⟩
  | ok _ =>
      dsimp only
      refine (follows_solveBounds _ ⟨left, right, rfl⟩).bind ?_
      rintro ⟨ending, s'⟩ ⟨_, t'⟩ ⟨rfl, left', right', same⟩
      rw [same]
      exact .ok ⟨rfl, left', right', rfl, rfl⟩

/-- The other contractor does the same to related states of it. -/
def Lockstep (P : π → π → Prop) (pre : π → Box α → Journaled α (Narrowing α × π)) : Prop :=
  ∀ m m', P m m' → ∀ b, Journaled.Follows (fun x y => x.1 = y.1 ∧ P x.2 y.2) (pre m b) (pre m' b)

omit [LpSolver σ α] [Scalar α] [MemorylessSolver σ] in
theorem Lockstep.runPre (lockstep : Lockstep P pre) : Lockstep P (runPre pre) := by
  intro m m' related b
  refine (lockstep m m' related b).bind ?_
  rintro ⟨outcome, _⟩ ⟨_, _⟩ ⟨rfl, after⟩
  cases outcome with
  | unavailable => exact follows_pure ⟨rfl, after⟩
  | narrowed b' => exact follows_pure ⟨rfl, after⟩
  | noSolution => exact follows_pure ⟨rfl, after⟩
  | failed e => exact follows_pure ⟨rfl, after⟩

omit [LpSolver σ α] [Scalar α] [MemorylessSolver σ] in
theorem Lockstep.again {β β' : Type} {S : β → β' → Prop} {c : Prop} [Decidable c] {m m' : π}
    {after : Box α} {f : Narrowing α × π → Journaled α β} {g : Narrowing α × π → Journaled α β'}
    (lockstep : Lockstep P pre) (related : P m m')
    (rest : ∀ outcome m m', P m m' → Journaled.Follows S (f (outcome, m)) (g (outcome, m'))) :
    Journaled.Follows S
      (if c then Relaxation.runPre pre m after >>= f else pure (.narrowed after, m) >>= f)
      (if c then Relaxation.runPre pre m' after >>= g else pure (.narrowed after, m') >>= g) := by
  refine Journaled.follows_ite ?_ (rest _ m m' related)
  refine (lockstep.runPre m m' related after).bind ?_
  rintro ⟨outcome, _⟩ ⟨_, _⟩ ⟨rfl, related'⟩
  exact rest outcome _ _ related'

structure ContractionTwins (P : π → π → Prop) (origin : σ) (x y : Contraction σ π α) : Prop where
  outcome : x.outcome = y.outcome
  state : Twins origin x.state y.state
  pre : P x.pre y.pre

theorem follows_rounds (lockstep : Lockstep P pre) :
    ∀ (n : Nat) {b : Box α} {s t : RelaxationState σ α} {m m' : π}, Twins origin s t → P m m' →
      Journaled.Follows (ContractionTwins P origin) (rounds r pre n b s m)
        (rounds r pre n b t m') := by
  intro n
  induction n with
  | zero => exact fun twins related => follows_pure ⟨rfl, twins, related⟩
  | succ n ih =>
      intro b s t m m' twins related
      rw [rounds, rounds]
      refine (follows_liftM (follows_round twins)).bind ?_
      rintro ⟨ending, s'⟩ ⟨_, t'⟩ ⟨rfl, twins'⟩
      match ending with
      | none => exact follows_pure ⟨rfl, twins', related⟩
      | some (.noSolution, _) => exact follows_pure ⟨rfl, twins', related⟩
      | some (.failed e, _) => exact follows_pure ⟨rfl, twins', related⟩
      | some (.completed, after) =>
          refine lockstep.again related fun outcome m₁ m₁' related' => ?_
          cases outcome with
          | narrowed b' =>
              exact Journaled.follows_ite (follows_pure ⟨rfl, twins', related'⟩)
                (ih twins' related')
          | _ => exact follows_pure ⟨rfl, twins', related'⟩
      | some (.stopped, after) =>
          refine lockstep.again related fun outcome m₁ m₁' related' => ?_
          cases outcome with
          | _ => exact follows_pure ⟨rfl, twins', related'⟩

theorem follows_contract (lockstep : Lockstep P pre) {b : Box α} {s t : RelaxationState σ α}
    {m m' : π} (twins : Twins origin s t) (related : P m m') :
    Journaled.Follows (ContractionTwins P origin) (r.contract pre b s m)
      (r.contract pre b t m') := by
  rw [contract, contract]
  refine Journaled.follows_ite (follows_pure ⟨rfl, twins, related⟩) ?_
  refine Journaled.follows_ite (follows_pure ⟨rfl, twins, related⟩) ?_
  refine (lockstep.runPre m m' related b).bind ?_
  rintro ⟨outcome, _⟩ ⟨_, _⟩ ⟨rfl, after⟩
  cases outcome with
  | narrowed b' => exact follows_rounds lockstep _ twins after
  | unavailable => exact follows_pure ⟨rfl, twins, after⟩
  | noSolution => exact follows_pure ⟨rfl, twins, after⟩
  | failed e => exact follows_pure ⟨rfl, twins, after⟩

end Relaxation

/-! ## Plans -/

namespace ContractorPlan

mutual

/-- Memories that agree up to the questions that solvers were asked since the original one. -/
def Twins : (c : ContractorPlan α) → (origin m m' : c.Memory σ) → Prop
  | intersection _, _, _, _ => True
  | check _, _, _, _ => True
  | sequence members, origin, m, m' => AllTwins members origin m m'
  | agreement _ members, origin, m, m' => AllTwins members origin m m'
  | relaxation _ pre, origin, m, m' =>
      Relaxation.Twins origin.1.solver m.1 m'.1 ∧ pre.Twins origin.2 m.2 m'.2
  | fixed _ _, _, _, _ => True
  | observed _ inner, origin, m, m' => inner.Twins origin m m'

def AllTwins : (cs : List (ContractorPlan α)) → (origin m m' : Memories σ cs) → Prop
  | [], _, _, _ => True
  | c :: cs, origin, m, m' => c.Twins origin.1 m.1 m'.1 ∧ AllTwins cs origin.2 m.2 m'.2

end

mutual

theorem twins_refl : ∀ (c : ContractorPlan α) (m : c.Memory σ), c.Twins m m m
  | intersection _, _ => by rw [Twins]; trivial
  | check _, _ => by rw [Twins]; trivial
  | sequence members, m => by rw [Twins]; exact allTwins_refl members m
  | agreement _ members, m => by rw [Twins]; exact allTwins_refl members m
  | relaxation _ pre, m => by
      rw [Twins]
      exact ⟨⟨fun _ _ => rfl, fun _ _ => rfl, rfl, rfl⟩, twins_refl pre m.2⟩
  | fixed _ _, _ => by rw [Twins]; trivial
  | observed _ inner, m => by rw [Twins]; exact twins_refl inner m

theorem allTwins_refl : ∀ (cs : List (ContractorPlan α)) (m : Memories σ cs), AllTwins cs m m m
  | [], _ => by rw [AllTwins]; trivial
  | c :: cs, m => by rw [AllTwins]; exact ⟨twins_refl c m.1, allTwins_refl cs m.2⟩

end

variable [Scalar α]

mutual

theorem follows_contract [MemorylessSolver σ] :
    ∀ (c : ContractorPlan α) {origin m m' : c.Memory σ} (b : Box α),
    c.Twins origin m m' → Journaled.Follows (fun x y => x.1 = y.1 ∧ c.Twins origin x.2 y.2)
      (c.contract m b) (c.contract m' b)
  | intersection measurement, origin, m, m', b, twins => by
      rw [contract, contract]
      exact follows_pure ⟨rfl, twins⟩
  | check p, origin, m, m', b, twins => by
      rw [contract, contract]
      exact follows_same fun answer => follows_pure ⟨rfl, twins⟩
  | sequence members, origin, m, m', b, twins => by
      rw [contract, contract]
      simp only [Twins] at twins ⊢
      exact follows_contractInTurn members b twins
  | agreement q members, origin, m, m', b, twins => by
      rw [contract, contract]
      simp only [Twins] at twins ⊢
      refine Journaled.follows_ite (follows_pure ⟨rfl, twins⟩) ?_
      refine (follows_contractEach members b twins).bind ?_
      rintro ⟨images, m₁⟩ ⟨_, m₁'⟩ ⟨rfl, twins'⟩
      cases images with
      | error e => exact follows_pure ⟨rfl, twins'⟩
      | ok images => exact follows_pure ⟨rfl, twins'⟩
  | relaxation r pre, origin, m, m', b, twins => by
      rw [contract, contract]
      simp only [Twins] at twins ⊢
      have lockstep : Relaxation.Lockstep (pre.Twins origin.2)
          (fun (m : pre.Memory σ) b => pre.contract m b) :=
        fun m m' related b => follows_contract pre b related
      refine (Relaxation.follows_contract lockstep twins.1 twins.2).bind ?_
      intro x y same
      exact follows_pure ⟨same.outcome, same.state, same.pre⟩
  | fixed _ outcome, origin, m, m', b, twins => by
      rw [contract, contract]
      exact follows_pure ⟨rfl, twins⟩
  | observed label inner, origin, m, m', b, twins => by
      rw [contract, contract]
      simp only [Twins] at twins ⊢
      exact (follows_note _ _).bind fun _ _ _ => follows_contract inner b twins

theorem follows_contractInTurn [MemorylessSolver σ] :
    ∀ (cs : List (ContractorPlan α)) {origin m m' : Memories σ cs} (b : Box α),
    AllTwins cs origin m m' →
    Journaled.Follows (fun x y => x.1 = y.1 ∧ AllTwins cs origin x.2 y.2)
      (contractInTurn cs m b) (contractInTurn cs m' b)
  | [], origin, m, m', b, twins => by
      rw [contractInTurn, contractInTurn]
      exact follows_pure ⟨rfl, twins⟩
  | c :: cs, origin, m, m', b, twins => by
      rw [contractInTurn, contractInTurn]
      simp only [AllTwins] at twins ⊢
      refine (follows_contract c b twins.1).bind ?_
      rintro ⟨outcome, m₁⟩ ⟨_, m₁'⟩ ⟨rfl, first⟩
      cases outcome with
      | narrowed b' =>
          refine (follows_contractInTurn cs b' twins.2).bind ?_
          rintro ⟨outcome, _⟩ ⟨_, _⟩ ⟨rfl, rest⟩
          exact follows_pure ⟨rfl, first, rest⟩
      | unavailable =>
          refine (follows_contractInTurn cs b twins.2).bind ?_
          rintro ⟨outcome, _⟩ ⟨_, _⟩ ⟨rfl, rest⟩
          exact follows_pure ⟨rfl, first, rest⟩
      | noSolution => exact follows_pure ⟨rfl, first, twins.2⟩
      | failed e => exact follows_pure ⟨rfl, first, twins.2⟩

theorem follows_contractEach [MemorylessSolver σ] :
    ∀ (cs : List (ContractorPlan α)) {origin m m' : Memories σ cs} (b : Box α),
    AllTwins cs origin m m' →
    Journaled.Follows (fun x y => x.1 = y.1 ∧ AllTwins cs origin x.2 y.2)
      (contractEach cs m b) (contractEach cs m' b)
  | [], origin, m, m', b, twins => by
      rw [contractEach, contractEach]
      exact follows_pure ⟨rfl, twins⟩
  | c :: cs, origin, m, m', b, twins => by
      rw [contractEach, contractEach]
      simp only [AllTwins] at twins ⊢
      refine (follows_contract c b twins.1).bind ?_
      rintro ⟨outcome, m₁⟩ ⟨_, m₁'⟩ ⟨rfl, first⟩
      have others := follows_contractEach cs b twins.2
      cases outcome with
      | failed e => exact follows_pure ⟨rfl, first, twins.2⟩
      | noSolution =>
          refine others.bind ?_
          rintro ⟨images, _⟩ ⟨_, _⟩ ⟨rfl, rest⟩
          exact follows_pure ⟨rfl, first, rest⟩
      | unavailable =>
          refine others.bind ?_
          rintro ⟨images, _⟩ ⟨_, _⟩ ⟨rfl, rest⟩
          exact follows_pure ⟨rfl, first, rest⟩
      | narrowed image =>
          refine others.bind ?_
          rintro ⟨images, _⟩ ⟨_, _⟩ ⟨rfl, rest⟩
          exact follows_pure ⟨rfl, first, rest⟩

end

mutual

theorem follows_onIncumbent (loup : α) : ∀ (c : ContractorPlan α) {origin m m' : c.Memory σ},
    c.Twins origin m m' →
    Journaled.Follows (c.Twins origin) (c.onIncumbent loup m) (c.onIncumbent loup m')
  | intersection _, origin, m, m', twins => by
      rw [onIncumbent, onIncumbent]
      exact follows_pure twins
  | check _, origin, m, m', twins => by
      rw [onIncumbent, onIncumbent]
      exact follows_pure twins
  | sequence members, origin, m, m', twins => by
      rw [onIncumbent, onIncumbent]
      simp only [Twins] at twins ⊢
      exact follows_onIncumbents loup members twins
  | agreement _ members, origin, m, m', twins => by
      rw [onIncumbent, onIncumbent]
      simp only [Twins] at twins ⊢
      exact follows_onIncumbents loup members twins
  | relaxation _ pre, origin, m, m', twins => by
      rw [onIncumbent, onIncumbent]
      simp only [Twins] at twins ⊢
      obtain ⟨⟨left, right, draws, goal⟩, related⟩ := twins
      refine (follows_onIncumbent loup pre related).bind ?_
      intro n n' related'
      refine follows_pure ⟨?_, related'⟩
      rw [RelaxationState.onIncumbent, RelaxationState.onIncumbent, goal]
      split
      · exact ⟨left, right, draws, rfl⟩
      · exact ⟨left, right, draws, goal⟩
  | fixed _ _, origin, m, m', twins => by
      rw [onIncumbent, onIncumbent]
      exact follows_pure twins
  | observed label inner, origin, m, m', twins => by
      rw [onIncumbent, onIncumbent]
      simp only [Twins] at twins ⊢
      exact (follows_note _ _).bind fun _ _ _ => follows_onIncumbent loup inner twins

theorem follows_onIncumbents (loup : α) :
    ∀ (cs : List (ContractorPlan α)) {origin m m' : Memories σ cs}, AllTwins cs origin m m' →
    Journaled.Follows (AllTwins cs origin) (onIncumbents loup cs m) (onIncumbents loup cs m')
  | [], origin, m, m', twins => by
      rw [onIncumbents, onIncumbents]
      exact follows_pure twins
  | c :: cs, origin, m, m', twins => by
      rw [onIncumbents, onIncumbents]
      simp only [AllTwins] at twins ⊢
      refine (follows_onIncumbent loup c twins.1).bind ?_
      intro n n' first
      refine (follows_onIncumbents loup cs twins.2).bind ?_
      intro ns ns' rest
      exact follows_pure ⟨first, rest⟩

end

mutual

/-- A restart of two memories of one origin makes twins of them. -/
theorem follows_restart : ∀ (c : ContractorPlan α) {origin m m' : c.Memory σ},
    c.Twins origin m m → c.Twins origin m' m' →
    Journaled.Follows (c.Twins origin) (c.restart m) (c.restart m')
  | intersection _, origin, m, m', left, _ => by
      rw [restart, restart]
      exact follows_pure left
  | check _, origin, m, m', left, _ => by
      rw [restart, restart]
      exact follows_pure left
  | sequence members, origin, m, m', left, right => by
      rw [restart, restart]
      simp only [Twins] at left right ⊢
      exact follows_restarts members left right
  | agreement _ members, origin, m, m', left, right => by
      rw [restart, restart]
      simp only [Twins] at left right ⊢
      exact follows_restarts members left right
  | relaxation r pre, origin, m, m', left, right => by
      rw [restart, restart]
      simp only [Twins] at left right ⊢
      refine (follows_restart pre left.2 right.2).bind ?_
      intro n n' related
      exact follows_pure ⟨⟨left.1.left, right.1.right, rfl, rfl⟩, related⟩
  | fixed _ _, origin, m, m', left, _ => by
      rw [restart, restart]
      exact follows_pure left
  | observed label inner, origin, m, m', left, right => by
      rw [restart, restart]
      simp only [Twins] at left right ⊢
      exact (follows_note _ _).bind fun _ _ _ => follows_restart inner left right

theorem follows_restarts :
    ∀ (cs : List (ContractorPlan α)) {origin m m' : Memories σ cs},
    AllTwins cs origin m m → AllTwins cs origin m' m' →
    Journaled.Follows (AllTwins cs origin) (restarts cs m) (restarts cs m')
  | [], origin, m, m', left, _ => by
      rw [restarts, restarts]
      exact follows_pure left
  | c :: cs, origin, m, m', left, right => by
      rw [restarts, restarts]
      simp only [AllTwins] at left right ⊢
      refine (follows_restart c left.1 right.1).bind ?_
      intro n n' first
      refine (follows_restarts cs left.2 right.2).bind ?_
      intro ns ns' rest
      exact follows_pure ⟨first, rest⟩

end

end ContractorPlan

/-! ## Contractors -/

/-- Related contractors cannot be told apart, and a restart relates any two contractors that are
related to something. -/
structure Contractor.Bisimulation {κ : Type} [Contractor κ α] (R : κ → κ → Prop) : Prop where
  contract : ∀ {k l}, R k l → ∀ b, Journaled.Follows (fun x y => x.1 = y.1 ∧ R x.2 y.2)
    (Contractor.contract k b) (Contractor.contract l b)
  onIncumbent : ∀ {k l}, R k l → ∀ v, Journaled.Follows R (Contractor.onIncumbent k v)
    (Contractor.onIncumbent l v)
  restart : ∀ {k l}, R k k → R l l → Journaled.Follows R (Contractor.restart k)
    (Contractor.restart l)

namespace PlannedContractor

inductive Twins (origin : PlannedContractor σ α) :
    PlannedContractor σ α → PlannedContractor σ α → Prop
  | mk {m m' : origin.plan.Memory σ} : origin.plan.Twins origin.memory m m' →
      Twins origin ⟨origin.plan, m⟩ ⟨origin.plan, m'⟩

theorem twins_self (origin : PlannedContractor σ α) : Twins origin origin origin :=
  .mk (origin.plan.twins_refl origin.memory)

variable [Scalar α]

/-- Contractors of one origin with the same goal and the same random draws cannot be told apart. -/
theorem bisimulation [MemorylessSolver σ] (origin : PlannedContractor σ α) :
    Contractor.Bisimulation (Twins origin) where
  contract := by
    intro k l twins b
    cases twins with
    | mk same =>
        refine (origin.plan.follows_contract b same).bind ?_
        rintro ⟨outcome, _⟩ ⟨_, _⟩ ⟨rfl, after⟩
        exact follows_pure ⟨rfl, .mk after⟩
  onIncumbent := by
    intro k l twins v
    cases twins with
    | mk same =>
        refine (origin.plan.follows_onIncumbent v same).bind ?_
        intro m m' after
        exact follows_pure (.mk after)
  restart := by
    intro k l left right
    cases left with
    | mk left =>
        cases right with
        | mk right =>
            refine (origin.plan.follows_restart left right).bind ?_
            intro m m' after
            exact follows_pure (.mk after)

end PlannedContractor

end BoxSearch
