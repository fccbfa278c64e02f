import BoxSearch.Contractor.Basic
import BoxSearch.Contractor.CornerLinearizer
import BoxSearch.Linear.Solver

/-!
# Contraction by linear relaxation

In each round the constraints are relaxed to rows over the current box, a linear program is
loaded with them, and every bound of every variable is pushed inward by one solve. What the
solver answers is never applied as such: each bound is derived anew from the multipliers of the
answer, and a claim that there is no solution counts only if its direction proves it.

The bounds of a round are taken closest first with respect to the last point that the solver
found, and a bound that this point already touches is skipped. Rounds repeat while the box
shrinks enough. Another contractor may run before the first round and after every round that
gained enough.
-/
set_option autoImplicit false

namespace BoxSearch

structure RelaxationConfig (α : Type) where
  maxWidth : α
  /-- Another round follows a larger relative reduction. -/
  repeatRatio : α
  /-- The other contractor runs again after a larger relative reduction. -/
  preRatio : α
  maxRounds : Nat
  /-- The distance below which the last point touches a bound. -/
  skipTolerance : α

structure Relaxation (α : Type) where
  problem : Problem α
  linearizer : CornerLinearizer α
  config : RelaxationConfig α
  /-- Points whose objective exceeds the goal are not kept. -/
  useGoal : Bool

structure RelaxationState (σ α : Type) where
  solver : σ
  draws : CornerDraws
  goal : α
  rows : List (LinearRow α)
  program : LinearProgram α

structure BoundRef where
  var : Nat
  upper : Bool
deriving DecidableEq

def BoundRef.all (n : Nat) : List BoundRef :=
  (List.range n).flatMap fun j => [⟨j, false⟩, ⟨j, true⟩]

def BoundRef.sense (r : BoundRef) : Sense := if r.upper then .maximize else .minimize

inductive RoundEnd where
  | completed
  /-- The solver claimed that there is no solution and could not prove it. -/
  | stopped
  | noSolution
  | failed (e : LpError)

variable {α : Type} [Scalar α]

def RelaxationConfig.standard : RelaxationConfig α := ⟨1e4, 0.1, 0.01, 50, 1e-8⟩

def BoundRef.value (r : BoundRef) (b : Box α) : Checked α α := do
  let x ← b.component r.var
  return if r.upper then x.hi else x.lo

def isWithin (bound distance tolerance : α) : Bool :=
  if Scalar.magnitude bound < 1 then decide (distance < tolerance)
  else decide (distance / Scalar.magnitude bound < tolerance)

namespace Relaxation

def ofParts (problem : Problem α) (linearizer : CornerLinearizer α) : Relaxation α :=
  ⟨problem, linearizer, .standard, false⟩

def withGoal (r : Relaxation α) : Relaxation α :=
  { r with useGoal := r.problem.objective.isSome }

def relaxed (r : Relaxation α) (goal : α) : List (Evaluator α × Comparison) :=
  let constraints := r.problem.constraints.map fun c => (c.function, c.op)
  match r.problem.objective with
  | some f =>
    if r.useGoal && Scalar.isFinite goal then constraints ++ [(f.shift goal, .le)] else constraints
  | none => constraints

structure Collected (α : Type) where
  rows : List (LinearRow α)
  /-- The function behind the last row was refuted, and no later one was relaxed. -/
  refuted : Bool
  draws : CornerDraws

def collect (l : CornerLinearizer α) (b : Box α) :
    List (Evaluator α × Comparison) → CornerDraws → Checked α (Collected α)
  | [], draws => return ⟨[], false, draws⟩
  | f :: rest, draws => do
    match ← l.relax f.1 f.2 b draws with
    | (.infeasible, draws) => return ⟨[], true, draws⟩
    | (.rows rs, draws) =>
      let more ← collect l b rest draws
      return { more with rows := rs ++ more.rows }

def load (b : Box α) (rows : List (LinearRow α)) : ProgramUpdate α Unit := do
  LinearProgram.clear
  b.components.forM fun x => discard (LinearProgram.addColumn ⟨0, x.lo, x.hi⟩)
  rows.forM fun r => discard (LinearProgram.addRow r)

/-! ## The solves of a round -/

structure Scan (α : Type) where
  closest : Option (BoundRef × α)
  settled : List BoundRef

def look (tolerance : α) (b : Box α) (primal : Option (List α)) (s : Scan α) (r : BoundRef) :
    Checked α (Scan α) := do
  if s.settled.contains r then return s
  let value ← r.value b
  match primal with
  | none => return if s.closest.isNone then { s with closest := some (r, Scalar.infinity) } else s
  | some point =>
    let distance := Scalar.magnitude ((← elementAt point r.var) - value)
    if isWithin value distance tolerance then return { s with settled := r :: s.settled }
    let isCloser := match s.closest with
      | none => true
      | some (_, d) => decide (distance < d)
    return if isCloser then { s with closest := some (r, distance) } else s

def nextBound (tolerance : α) (b : Box α) (primal : Option (List α)) (settled : List BoundRef) :
    Checked α (Scan α) :=
  (BoundRef.all b.dim).foldlM (look tolerance b primal) ⟨none, settled⟩

structure RoundState (σ α : Type) where
  box : Box α
  settled : List BoundRef
  primal : Option (List α)
  program : LinearProgram α
  solver : σ

def boundObjective (n : Nat) (r : BoundRef) : List α :=
  (List.replicate n 0).set r.var (if r.upper then -1 else 1)

/-- The value of an answer promises a better bound. -/
def promises (r : BoundRef) (current : Interval α) (value : Option α) : Bool :=
  match value with
  | none => false
  | some v => if r.upper then decide (v < current.hi) else decide (current.lo < v)

inductive Proved (α : Type) where
  | tightened (x : Interval α)
  | unchanged
  | noSolution

def compareBound (r : BoundRef) (current : Interval α) (certified : α) :
    Checked α (Proved α) := do
  if r.upper then
    let hi := -certified
    if hi < current.lo then return .noSolution
    if hi < current.hi then return .tightened (← Interval.ofBounds current.lo hi)
    return .unchanged
  else
    if current.hi < certified then return .noSolution
    if current.lo < certified then return .tightened (← Interval.ofBounds certified current.hi)
    return .unchanged

variable {σ : Type}

def RoundState.update (s : RoundState σ α) (u : ProgramUpdate α Unit) :
    Except LpError Unit × RoundState σ α :=
  let (result, program) := u.run.run s.program
  (result, { s with program })

def useAnswer (rows : List (LinearRow α)) (r : BoundRef) (answer : LpAnswer α)
    (s : RoundState σ α) : Checked α (Option RoundEnd × RoundState σ α) := do
  match answer.status with
  | .optimal =>
    let s := { s with primal := answer.primal.or s.primal }
    let current ← s.box.component r.var
    match promises r current answer.value, answer.dual with
    | true, some dual =>
      let certified ← certifiedLowerBound rows (boundObjective s.box.dim r) s.box dual
      match ← compareBound r current certified with
      | .noSolution => return (some .noSolution, s)
      | .unchanged => return (none, s)
      | .tightened x =>
        let s := { s with box := ← s.box.setComponent r.var x }
        match s.update (LinearProgram.setColumnBounds r.var x.lo x.hi) with
        | (.ok _, s) => return (none, s)
        | (.error e, s) => return (some (.failed e), s)
    | _, _ => return (none, s)
  | .infeasible =>
    match answer.direction with
    | none => return (some .stopped, s)
    | some direction =>
      if ← certifiesInfeasibility rows s.box direction then return (some .noSolution, s)
      return (some .stopped, s)
  | .unbounded | .limitReached | .unknown => return (none, s)

variable [LpSolver σ α]

/-- Solves for one bound. A solver that fails teaches nothing. -/
def solveBound (rows : List (LinearRow α)) (r : BoundRef) (s : RoundState σ α) :
    Checked α (Option RoundEnd × RoundState σ α) := do
  match s.update (LinearProgram.setSingleObjective r.var 1) with
  | (.error e, s) => return (some (.failed e), s)
  | (.ok _, s) =>
    match LpSolver.solve s.solver s.program r.sense with
    | (.error _, solver) => return (none, { s with solver })
    | (.ok answer, solver) => useAnswer rows r answer { s with solver }

def solveBounds (tolerance : α) (rows : List (LinearRow α)) :
    Nat → RoundState σ α → Checked α (RoundEnd × RoundState σ α)
  | 0, s => return (.completed, s)
  | n + 1, s => do
    let scan ← nextBound tolerance s.box s.primal s.settled
    match scan.closest with
    | none => return (.completed, { s with settled := scan.settled })
    | some (r, _) =>
      match ← solveBound rows r { s with settled := r :: scan.settled } with
      | (some result, s) => return (result, s)
      | (none, s) => solveBounds tolerance rows n s

/-! ## Rounds -/

structure Contraction (σ π α : Type) where
  outcome : Narrowing α
  state : RelaxationState σ α
  pre : π

/-- One relaxation of a box with its solves. Nothing is answered if there is no row. -/
def round (r : Relaxation α) (b : Box α) (state : RelaxationState σ α) :
    Checked α (Option (RoundEnd × Box α) × RelaxationState σ α) := do
  let found ← collect r.linearizer b (r.relaxed state.goal) state.draws
  let state := { state with rows := found.rows, draws := found.draws }
  if found.refuted then return (some (.noSolution, b), state)
  if found.rows.isEmpty then return (none, state)
  match (load b found.rows).run.run state.program with
  | (.error e, program) => return (some (.failed e, b), { state with program })
  | (.ok _, program) =>
    let (result, s) ← solveBounds r.config.skipTolerance found.rows (2 * b.dim)
      ⟨b, [], none, program, state.solver⟩
    return (some (result, s.box), { state with program := s.program, solver := s.solver })

/-- Runs the other contractor, whose refusal changes nothing. -/
def runPre {π : Type} (pre : π → Box α → Journaled α (Narrowing α × π)) (memory : π)
    (b : Box α) : Journaled α (Narrowing α × π) := do
  match ← pre memory b with
  | (.unavailable, memory) => return (.narrowed b, memory)
  | result => return result

def rounds {π : Type} (r : Relaxation α) (pre : π → Box α → Journaled α (Narrowing α × π)) :
    Nat → Box α → RelaxationState σ α → π → Journaled α (Contraction σ π α)
  | 0, b, state, memory => return ⟨.narrowed b, state, memory⟩
  | n + 1, b, state, memory => do
    match ← r.round b state with
    | (none, state) => return ⟨.narrowed b, state, memory⟩
    | (some (.noSolution, _), state) => return ⟨.noSolution, state, memory⟩
    | (some (.failed e, _), state) => return ⟨.failed e, state, memory⟩
    | (some (result, after), state) =>
      let gain := after.maxRelativeReduction b
      let (outcome, memory) ←
        if r.config.preRatio < gain then runPre pre memory after
        else pure (.narrowed after, memory)
      match outcome, result with
      | .narrowed b, .completed =>
        if gain ≤ r.config.repeatRatio then return ⟨.narrowed b, state, memory⟩
        else rounds r pre n b state memory
      | outcome, _ => return ⟨outcome, state, memory⟩

def contract {π : Type} (r : Relaxation α) (pre : π → Box α → Journaled α (Narrowing α × π))
    (b : Box α) (state : RelaxationState σ α) (memory : π) :
    Journaled α (Contraction σ π α) := do
  if b.isEmpty then return ⟨.noSolution, state, memory⟩
  if r.config.maxWidth < b.maxWidth then return ⟨.unavailable, state, memory⟩
  match ← runPre pre memory b with
  | (.narrowed b, memory) => rounds r pre r.config.maxRounds b state memory
  | (outcome, memory) => return ⟨outcome, state, memory⟩

end Relaxation

namespace RelaxationState
variable {σ : Type}

def fresh (r : Relaxation α) (solver : σ) : RelaxationState σ α :=
  ⟨solver, r.linearizer.draws, Scalar.infinity, [], .empty⟩

def onIncumbent (s : RelaxationState σ α) (loup : α) : RelaxationState σ α :=
  if loup < s.goal then { s with goal := loup } else s

def restart (r : Relaxation α) (s : RelaxationState σ α) : RelaxationState σ α :=
  { s with goal := Scalar.infinity, draws := r.linearizer.draws }

end RelaxationState

end BoxSearch
