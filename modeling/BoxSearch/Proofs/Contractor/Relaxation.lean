import BoxSearch.Proofs.Contractor.CornerRow
import BoxSearch.Contractor.Relaxation

/-!
# Relaxations keep solutions

The rows of a round are computed over the box at its start and hold at every solution in it. While
the box shrinks bound by bound they stay the same, and so do the solutions in the box: a bound
derived from them is certified over the current box, whatever the solver has answered.
-/
set_option autoImplicit false

namespace BoxSearch

open OrderedScalar Scalar

variable {α : Type} [Scalar α] [OrderedScalar α]

/-- The point is still a solution as far as the answer tells. -/
def Narrowing.Retains (outcome : Narrowing α) (x : List ℝ) : Prop :=
  match outcome with
  | .narrowed b => x ∈ b
  | .noSolution => False
  | .unavailable => True
  | .failed _ => True

def LpAnswer.point? {α : Type} (answer : LpAnswer α) : Option (List α) :=
  if answer.status = .optimal then answer.primal else none

theorem Box.mem_of_setComponent {b c : Box α} {x : List ℝ} {j : Nat} {t : ℝ} {z : Interval α}
    (success : b.setComponent j z = .ok c) (member : x ∈ b) (position : x[j]? = some t)
    (inside : t ∈ z) : x ∈ c := by
  rw [setComponent] at success
  split at success
  · obtain rfl := Except.ok.inj success
    exact mem_set member position inside
  · cases success

namespace Relaxation

/-- The point satisfies the constraints, and its objective is not above the goal if there is
one. -/
structure Keeps (r : Relaxation α) (reading : Evaluator α → List ℝ → ℝ) (goal : α)
    (x : List ℝ) : Prop where
  feasible : r.problem.Feasible reading x
  goal : r.useGoal = true → isFinite goal = true →
    ∀ f, r.problem.objective = some f → reading f x ≤ real goal

/-- A constraint of a function that the evaluator encloses holds at the point. -/
def Served (x : List ℝ) (F : Evaluator α × Comparison) : Prop :=
  ∃ f : List ℝ → ℝ, F.1.Encloses x.length f ∧ F.2.Accepts (f x)

variable {r : Relaxation α} {reading : Evaluator α → List ℝ → ℝ} {x : List ℝ}
  {rows : List (LinearRow α)}

section Answer
variable {σ : Type} {ref : BoundRef} {answer : LpAnswer α} {s s' : RoundState σ α}
  {ended : Option RoundEnd}

/-- What an answer can do to a state, apart from its point being remembered. -/
inductive Used (rows : List (LinearRow α)) (ref : BoundRef) (answer : LpAnswer α)
    (s : RoundState σ α) : Option RoundEnd → RoundState σ α → Prop
  | kept {ended : Option RoundEnd} (going : ended = none ∨ ended = some .stopped) :
      Used rows ref answer s ended { s with primal := answer.point?.or s.primal }
  /-- The certified bound leaves no value of the variable. -/
  | crossed {current : Interval α} {dual : List α} {certified : α}
      (component : s.box.component ref.var = .ok current)
      (bounded : certifiedLowerBound rows (boundObjective s.box.dim ref) s.box dual =
        .ok certified)
      (compared : compareBound ref current certified = .ok .noSolution) :
      Used rows ref answer s (some .noSolution) { s with primal := answer.point?.or s.primal }
  | tightened {current z : Interval α} {dual : List α} {certified : α} {b : Box α}
      {result : Except LpError Unit} {program : LinearProgram α} {ended : Option RoundEnd}
      (component : s.box.component ref.var = .ok current)
      (bounded : certifiedLowerBound rows (boundObjective s.box.dim ref) s.box dual =
        .ok certified)
      (compared : compareBound ref current certified = .ok (.tightened z))
      (set : s.box.setComponent ref.var z = .ok b)
      (changed : (LinearProgram.setColumnBounds ref.var z.lo z.hi).run.run s.program =
        (result, program))
      (going : ended = none ∨ ∃ e, ended = some (.failed e)) :
      Used rows ref answer s ended
        { s with box := b, primal := answer.point?.or s.primal, program }
  /-- The direction proves that the rows cannot hold together. -/
  | refuted {direction : List α} (tested : certifiesInfeasibility rows s.box direction = .ok true) :
      Used rows ref answer s (some .noSolution) { s with primal := answer.point?.or s.primal }

omit [OrderedScalar α] in
theorem used_of_useAnswer (success : useAnswer rows ref answer s = .ok (ended, s')) :
    Used rows ref answer s ended s' := by
  have pointless : answer.status ≠ .optimal →
      s = { s with primal := answer.point?.or s.primal } := by
    intro other
    rw [LpAnswer.point?, if_neg other, Option.none_or]
  rw [useAnswer] at success
  split at success
  · rename_i optimal
    have point : answer.primal = answer.point? := (if_pos optimal).symm
    rw [point] at success
    obtain ⟨current, component, success⟩ := Checked.bind_eq_ok.mp success
    split at success
    · obtain ⟨certified, bounded, success⟩ := Checked.bind_eq_ok.mp success
      obtain ⟨proved, compared, success⟩ := Checked.bind_eq_ok.mp success
      cases proved with
      | noSolution =>
          obtain ⟨rfl, rfl⟩ := Prod.mk.inj (Except.ok.inj success)
          exact .crossed component bounded compared
      | unchanged =>
          obtain ⟨rfl, rfl⟩ := Prod.mk.inj (Except.ok.inj success)
          exact .kept (Or.inl rfl)
      | tightened z =>
          obtain ⟨b, set, success⟩ := Checked.bind_eq_ok.mp success
          generalize changed :
            (LinearProgram.setColumnBounds ref.var z.lo z.hi).run.run s.program = updated
          obtain ⟨result, program⟩ := updated
          simp only [RoundState.update] at success
          rw [changed] at success
          cases result with
          | ok _ =>
              obtain ⟨rfl, rfl⟩ := Prod.mk.inj (Except.ok.inj success)
              exact .tightened component bounded compared set changed (Or.inl rfl)
          | error e =>
              obtain ⟨rfl, rfl⟩ := Prod.mk.inj (Except.ok.inj success)
              exact .tightened component bounded compared set changed (Or.inr ⟨e, rfl⟩)
    · obtain ⟨rfl, rfl⟩ := Prod.mk.inj (Except.ok.inj success)
      exact .kept (Or.inl rfl)
  · rename_i infeasible
    rw [pointless (by simp [infeasible])] at success
    split at success
    · obtain ⟨rfl, rfl⟩ := Prod.mk.inj (Except.ok.inj success)
      exact .kept (Or.inr rfl)
    · obtain ⟨certified, tested, success⟩ := Checked.bind_eq_ok.mp success
      cases certified with
      | true =>
          obtain ⟨rfl, rfl⟩ := Prod.mk.inj (Except.ok.inj success)
          exact .refuted tested
      | false =>
          obtain ⟨rfl, rfl⟩ := Prod.mk.inj (Except.ok.inj success)
          exact .kept (Or.inr rfl)
  all_goals
    rename_i other
    rw [pointless (by simp [other])] at success
    obtain ⟨rfl, rfl⟩ := Prod.mk.inj (Except.ok.inj success)
    exact .kept (Or.inl rfl)

end Answer

section Rows
variable [EnclosingScalar α]

theorem served_relaxed {goal : α}
    (encloses : ∀ F ∈ r.problem.functions, F.Encloses x.length (reading F))
    (kept : r.Keeps reading goal x) : ∀ F ∈ r.relaxed goal, Served x F := by
  have constraints : ∀ F ∈ r.problem.constraints.map (fun c => (c.function, c.op)),
      Served x F := by
    intro F hF
    obtain ⟨c, hc, rfl⟩ := List.mem_map.mp hF
    exact ⟨reading c.function,
      encloses _ (List.mem_append_right _ (List.mem_map_of_mem hc)), kept.feasible c hc⟩
  rw [relaxed]
  split
  · rename_i f found
    split
    · rename_i used
      rw [Bool.and_eq_true] at used
      refine List.forall_mem_append.mpr ⟨constraints, List.forall_mem_singleton.mpr ?_⟩
      have enclosed := encloses f (List.mem_append_left _ (by simp [found]))
      exact ⟨_, enclosed.shift goal, sub_nonpos.mpr (kept.goal used.1 used.2 f found)⟩
    · exact constraints
  · exact constraints

/-- No function that holds at a point of the box is refuted, and all its rows hold there. -/
theorem holds_of_collect {l : CornerLinearizer α} {b : Box α} (member : x ∈ b) :
    ∀ {fs : List (Evaluator α × Comparison)} {draws : CornerDraws} {found : Collected α},
      collect l b fs draws = .ok found → (∀ F ∈ fs, Served x F) →
      found.refuted = false ∧ ∀ row ∈ found.rows, row.Holds x := by
  intro fs
  induction fs with
  | nil =>
      intro draws found success _
      obtain rfl := Except.ok.inj success
      exact ⟨rfl, fun row hrow => absurd hrow List.not_mem_nil⟩
  | cons F fs ih =>
      intro draws found success served
      obtain ⟨⟨f, encloses, accepted⟩, others⟩ := List.forall_mem_cons.mp served
      rw [collect] at success
      obtain ⟨⟨relaxed, draws'⟩, first, success⟩ := Checked.bind_eq_ok.mp success
      have admitted := CornerLinearizer.admits_of_relax encloses first member accepted
      cases relaxed with
      | infeasible => exact admitted.elim
      | rows rs =>
          obtain ⟨more, later, success⟩ := Checked.bind_eq_ok.mp success
          obtain rfl := Except.ok.inj success
          obtain ⟨refuted, holds⟩ := ih later others
          exact ⟨refuted, List.forall_mem_append.mpr ⟨admitted, holds⟩⟩

/-! ## One bound -/

theorem dot_set_replicate {n j : Nat} {x : List ℝ} {c t : ℝ} (length : n = x.length)
    (position : x[j]? = some t) : dot ((List.replicate n 0).set j c) x = c * t := by
  subst length
  induction x generalizing j with
  | nil => simp at position
  | cons u x ih =>
      cases j with
      | zero =>
          obtain rfl : u = t := by simpa using position
          rw [List.length_cons, List.replicate_succ, List.set_cons_zero, dot_cons,
            dot_replicate_zero, add_zero]
      | succ j =>
          rw [List.length_cons, List.replicate_succ, List.set_cons_succ, dot_cons, zero_mul,
            zero_add]
          exact ih (by simpa using position)

omit [EnclosingScalar α] in
theorem dot_boundObjective {n : Nat} {ref : BoundRef} {t : ℝ} (length : n = x.length)
    (position : x[ref.var]? = some t) :
    dot (reals (boundObjective n ref : List α)) x = if ref.upper then -t else t := by
  have zeros : (reals (boundObjective n ref : List α)) = (List.replicate n 0).set ref.var
      (if ref.upper then -1 else 1) := by
    rw [reals, boundObjective, List.map_set, List.map_replicate, real_zero]
    split
    · rw [real_neg number_one, real_one]
    · rw [real_one]
  rw [zeros, dot_set_replicate length position]
  split
  · rw [neg_one_mul]
  · rw [one_mul]

def Proved.Retains (proved : Proved α) (t : ℝ) : Prop :=
  match proved with
  | .tightened z => t ∈ z
  | .unchanged => True
  | .noSolution => False

omit [EnclosingScalar α] in
theorem retains_of_compareBound {ref : BoundRef} {current : Interval α} {certified : α} {t : ℝ}
    {proved : Proved α} (success : compareBound ref current certified = .ok proved)
    (member : t ∈ current) (number : IsNumber certified)
    (below : value certified ≤ (if ref.upper then -t else t : ℝ)) : proved.Retains t := by
  rw [compareBound] at success
  split at success
  · rename_i upper
    rw [if_pos upper] at below
    have above : (t : EReal) ≤ value (-certified) := by
      rw [value_neg number, EReal.le_neg, ← EReal.coe_neg]
      exact below
    dsimp only at success
    split at success
    · rename_i crossed
      exact absurd ((above.trans_lt (lt_iff.mp crossed).2.2).trans_le member.lo_le)
        (lt_irrefl _)
    · split at success
      · obtain ⟨z, made, success⟩ := Checked.bind_eq_ok.mp success
        obtain rfl := Except.ok.inj success
        obtain rfl := Interval.eq_of_ofBounds made
        exact ⟨member.lo_number, number_neg number, member.lo_le, above⟩
      · obtain rfl := Except.ok.inj success
        exact trivial
  · rename_i lower
    rw [if_neg lower] at below
    split at success
    · rename_i crossed
      exact absurd (member.le_hi.trans_lt (lt_iff.mp crossed).2.2) (not_lt.mpr below)
    · split at success
      · obtain ⟨z, made, success⟩ := Checked.bind_eq_ok.mp success
        obtain rfl := Except.ok.inj success
        obtain rfl := Interval.eq_of_ofBounds made
        exact ⟨number, member.hi_number, below, member.le_hi⟩
      · obtain rfl := Except.ok.inj success
        exact trivial

variable {σ : Type}

/-- The point is still in the box, and the round has not ended with a proof that there is none. -/
def RoundState.Retains (x : List ℝ) (result : Option RoundEnd × RoundState σ α) : Prop :=
  x ∈ result.2.box ∧ result.1 ≠ some .noSolution

omit [Scalar α] [OrderedScalar α] [EnclosingScalar α] in
theorem RoundState.box_of_update {s s' : RoundState σ α} {u : ProgramUpdate α Unit}
    {e : Except LpError Unit} (updated : s.update u = (e, s')) : s'.box = s.box :=
  (congrArg (·.2.box) updated).symm

theorem retains_of_useAnswer {ref : BoundRef} {answer : LpAnswer α} {s : RoundState σ α}
    {result : Option RoundEnd × RoundState σ α}
    (success : useAnswer rows ref answer s = .ok result) (member : x ∈ s.box)
    (holds : ∀ row ∈ rows, row.Holds x) : RoundState.Retains x result := by
  have retained : ∀ {current : Interval α} {dual : List α} {certified : α} {proved : Proved α},
      s.box.component ref.var = .ok current →
      certifiedLowerBound rows (boundObjective s.box.dim ref) s.box dual = .ok certified →
      compareBound ref current certified = .ok proved →
      ∃ t, x[ref.var]? = some t ∧ proved.Retains t := by
    intro current dual certified proved component bounded compared
    obtain ⟨t, position, inside⟩ := Box.mem_component component member
    obtain ⟨number, below⟩ := le_of_certifiedLowerBound bounded (by simp [boundObjective]) member
      holds
    rw [dot_boundObjective (Box.length_of_mem member).symm position] at below
    exact ⟨t, position, retains_of_compareBound compared inside number below⟩
  obtain ⟨ended, s'⟩ := result
  cases used_of_useAnswer success with
  | kept going => exact ⟨member, by rcases going with rfl | rfl <;> simp⟩
  | crossed component bounded compared =>
      obtain ⟨t, -, kept⟩ := retained component bounded compared
      exact kept.elim
  | tightened component bounded compared set _ going =>
      obtain ⟨t, position, kept⟩ := retained component bounded compared
      exact ⟨Box.mem_of_setComponent set member position kept,
        by rcases going with rfl | ⟨e, rfl⟩ <;> simp⟩
  | refuted tested => exact absurd holds (not_holds_of_certifiesInfeasibility tested member)

/-! ## One round -/

variable [LpSolver σ α]

theorem retains_of_solveBound {ref : BoundRef} {s : RoundState σ α}
    {result : Option RoundEnd × RoundState σ α}
    (success : solveBound rows ref s = .ok result) (member : x ∈ s.box)
    (holds : ∀ row ∈ rows, row.Holds x) : RoundState.Retains x result := by
  rw [solveBound] at success
  split at success
  · rename_i updated
    obtain rfl := Except.ok.inj success
    exact ⟨RoundState.box_of_update updated ▸ member, (by simp)⟩
  · rename_i updated
    have member' := (RoundState.box_of_update updated).symm ▸ member
    split at success
    · obtain rfl := Except.ok.inj success
      exact ⟨member', (by simp)⟩
    · exact retains_of_useAnswer success member' holds

theorem retains_of_solveBounds {tolerance : α} (holds : ∀ row ∈ rows, row.Holds x) :
    ∀ {n : Nat} {s : RoundState σ α} {result : RoundEnd × RoundState σ α},
      solveBounds tolerance rows n s = .ok result → x ∈ s.box →
      x ∈ result.2.box ∧ result.1 ≠ .noSolution := by
  intro n
  induction n with
  | zero =>
      intro s result success member
      obtain rfl := Except.ok.inj success
      exact ⟨member, (by simp)⟩
  | succ n ih =>
      intro s result success member
      rw [solveBounds] at success
      obtain ⟨scan, -, success⟩ := Checked.bind_eq_ok.mp success
      split at success
      · obtain rfl := Except.ok.inj success
        exact ⟨member, (by simp)⟩
      · obtain ⟨⟨ended, s'⟩, solved, success⟩ := Checked.bind_eq_ok.mp success
        obtain ⟨member', open_⟩ := retains_of_solveBound solved member holds
        cases ended with
        | some ended =>
            obtain rfl := Except.ok.inj success
            exact ⟨member', fun same => open_ (congrArg some same)⟩
        | none => exact ih success member'

/-- A round keeps the goal, and every solution of its box. -/
theorem retains_of_round {b : Box α} {state state' : RelaxationState σ α}
    {result : Option (RoundEnd × Box α)}
    (success : r.round b state = .ok (result, state'))
    (encloses : ∀ F ∈ r.problem.functions, F.Encloses x.length (reading F))
    (kept : r.Keeps reading state.goal x) (member : x ∈ b) :
    state'.goal = state.goal ∧ ∀ ended, result = some ended →
      x ∈ ended.2 ∧ ended.1 ≠ .noSolution := by
  rw [round] at success
  obtain ⟨found, collected, success⟩ := Checked.bind_eq_ok.mp success
  obtain ⟨refuted, holds⟩ := holds_of_collect member collected (served_relaxed encloses kept)
  dsimp only at success
  rw [refuted] at success
  split at success
  · contradiction
  · split at success
    · obtain ⟨rfl, rfl⟩ := Prod.mk.inj (Except.ok.inj success)
      exact ⟨rfl, (by simp)⟩
    · split at success
      · obtain ⟨rfl, rfl⟩ := Prod.mk.inj (Except.ok.inj success)
        refine ⟨rfl, fun ended same => ?_⟩
        obtain rfl := Option.some.inj same
        exact ⟨member, (by simp)⟩
      · obtain ⟨⟨ended, s⟩, solved, success⟩ := Checked.bind_eq_ok.mp success
        obtain ⟨rfl, rfl⟩ := Prod.mk.inj (Except.ok.inj success)
        refine ⟨rfl, fun ended' same => ?_⟩
        obtain rfl := Option.some.inj same
        exact retains_of_solveBounds holds solved member

end Rows

/-! ## All rounds -/

section Rounds
variable [EnclosingScalar α] {σ π : Type} [LpSolver σ α]
  {pre : π → Box α → Journaled α (Narrowing α × π)} {kept : π → Prop}

/-- The other contractor keeps the point in every box while its memory satisfies an invariant. -/
def Preserves (x : List ℝ) (kept : π → Prop)
    (pre : π → Box α → Journaled α (Narrowing α × π)) : Prop :=
  ∀ {memory memory' : π} {b : Box α} {outcome : Narrowing α} {j j' : Journal α},
    kept memory → x ∈ b → (pre memory b).run j = .ok ((outcome, memory'), j') →
    outcome.Retains x ∧ kept memory'

omit [EnclosingScalar α] in
theorem retains_of_runPre (preserves : Preserves x kept pre) {memory memory' : π} {b : Box α}
    {outcome : Narrowing α} {j j' : Journal α} (good : kept memory) (member : x ∈ b)
    (success : (runPre pre memory b).run j = .ok ((outcome, memory'), j')) :
    outcome.Retains x ∧ kept memory' := by
  obtain ⟨⟨inner, memory₁⟩, j₁, ran, success⟩ := Checked.run_bind_eq_ok.mp success
  obtain ⟨retained, good'⟩ := preserves good member ran
  split at success
  · rename_i same
    obtain ⟨-, rfl⟩ := Prod.mk.inj same
    obtain ⟨rfl, rfl⟩ := Prod.mk.inj (Checked.run_pure_eq_ok.mp success).1
    exact ⟨member, good'⟩
  · obtain ⟨rfl, rfl⟩ := Prod.mk.inj (Checked.run_pure_eq_ok.mp success).1
    exact ⟨retained, good'⟩

/-- What a contraction leaves: the point, the goal and the invariant of the other contractor. -/
structure Contraction.Retains (x : List ℝ) (goal : α) (kept : π → Prop)
    (result : Contraction σ π α) : Prop where
  outcome : result.outcome.Retains x
  goal : result.state.goal = goal
  pre : kept result.pre

omit [EnclosingScalar α] [LpSolver σ α] in
theorem retains_of_goOn {outcome : Narrowing α} {ended : RoundEnd} {ends : Prop} [Decidable ends]
    {again : Box α → Journaled α (Contraction σ π α)} {state : RelaxationState σ α}
    {memory : π} {goal : α} {result : Contraction σ π α} {j j' : Journal α}
    (success : StateT.run (match outcome, ended with
      | .narrowed b, .completed =>
        if ends then pure ⟨.narrowed b, state, memory⟩ else again b
      | outcome, _ => pure ⟨outcome, state, memory⟩) j = .ok (result, j'))
    (retained : outcome.Retains x) (same : state.goal = goal) (good : kept memory)
    (further : ∀ b : Box α, x ∈ b → (again b).run j = .ok (result, j') →
      result.Retains x goal kept) : result.Retains x goal kept := by
  have stops : ∀ {o : Narrowing α}, o.Retains x →
      StateT.run (pure ⟨o, state, memory⟩ : Journaled α (Contraction σ π α)) j =
        .ok (result, j') → result.Retains x goal kept := by
    intro o retained success
    obtain rfl := (Checked.run_pure_eq_ok.mp success).1
    exact ⟨retained, same, good⟩
  cases outcome with
  | narrowed b =>
      cases ended with
      | completed =>
          dsimp only at success
          split at success
          · exact stops retained success
          · exact further b retained success
      | stopped => exact stops retained success
      | noSolution => exact stops retained success
      | failed e => exact stops retained success
  | noSolution => exact retained.elim
  | unavailable => exact stops retained success
  | failed e => exact stops retained success

theorem retains_of_rounds (encloses : ∀ F ∈ r.problem.functions, F.Encloses x.length (reading F))
    (preserves : Preserves x kept pre) {goal : α} (solution : r.Keeps reading goal x) :
    ∀ {n : Nat} {b : Box α} {state : RelaxationState σ α} {memory : π}
      {result : Contraction σ π α} {j j' : Journal α},
      (rounds r pre n b state memory).run j = .ok (result, j') → x ∈ b → state.goal = goal →
      kept memory → result.Retains x goal kept := by
  intro n
  induction n with
  | zero =>
      intro b state memory result j j' success member same good
      obtain rfl := (Checked.run_pure_eq_ok.mp success).1
      exact ⟨member, same, good⟩
  | succ n ih =>
      intro b state memory result j j' success member same good
      rw [rounds] at success
      obtain ⟨⟨ended, state'⟩, j₁, turned, success⟩ := Checked.run_bind_eq_ok.mp success
      have turned := (Checked.run_liftM_eq_ok.mp turned).1
      obtain ⟨same', retained⟩ := retains_of_round turned encloses (same ▸ solution) member
      rw [same] at same'
      cases ended with
      | none =>
          obtain rfl := (Checked.run_pure_eq_ok.mp success).1
          exact ⟨member, same', good⟩
      | some ended =>
          obtain ⟨ended, after⟩ := ended
          obtain ⟨member', open_⟩ := retained _ rfl
          cases ended with
          | noSolution => exact absurd rfl open_
          | failed e =>
              obtain rfl := (Checked.run_pure_eq_ok.mp success).1
              exact ⟨trivial, same', good⟩
          | completed | stopped =>
              dsimp only at success
              split at success
              · obtain ⟨⟨outcome, memory'⟩, j₂, ran, success⟩ := Checked.run_bind_eq_ok.mp success
                obtain ⟨retained, good'⟩ := retains_of_runPre preserves good member' ran
                exact retains_of_goOn success retained same' good'
                  fun c inside ran => ih ran inside same' good'
              · obtain ⟨⟨outcome, memory'⟩, j₂, ran, success⟩ := Checked.run_bind_eq_ok.mp success
                obtain ⟨retained, good'⟩ : outcome.Retains x ∧ kept memory' := by
                  obtain ⟨rfl, rfl⟩ := Prod.mk.inj (Checked.run_pure_eq_ok.mp ran).1
                  exact ⟨member', good⟩
                exact retains_of_goOn success retained same' good'
                  fun c inside ran => ih ran inside same' good'

/-- A relaxation keeps every solution of the box it is called with, and its goal. -/
theorem retains_of_contract
    (encloses : ∀ F ∈ r.problem.functions, F.Encloses x.length (reading F))
    (preserves : Preserves x kept pre) {b : Box α} {state : RelaxationState σ α} {memory : π}
    {result : Contraction σ π α} {j j' : Journal α}
    (success : (r.contract pre b state memory).run j = .ok (result, j')) (member : x ∈ b)
    (solution : r.Keeps reading state.goal x) (good : kept memory) :
    result.Retains x state.goal kept := by
  rw [contract, Box.isEmpty_of_mem member] at success
  split at success
  · contradiction
  · split at success
    · obtain rfl := (Checked.run_pure_eq_ok.mp success).1
      exact ⟨trivial, rfl, good⟩
    · obtain ⟨⟨outcome, memory'⟩, j₂, ran, success⟩ := Checked.run_bind_eq_ok.mp success
      obtain ⟨retained, good'⟩ := retains_of_runPre preserves good member ran
      split at success
      · rename_i same
        obtain ⟨rfl, rfl⟩ := Prod.mk.inj same
        exact retains_of_rounds encloses preserves solution success retained rfl good'
      · rename_i same
        obtain ⟨rfl, rfl⟩ := Prod.mk.inj same
        obtain rfl := (Checked.run_pure_eq_ok.mp success).1
        exact ⟨retained, rfl, good'⟩

end Rounds

end Relaxation

end BoxSearch
