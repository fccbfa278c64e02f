import BoxSearch.Contractor.Basic
import BoxSearch.Search.Bisector
import BoxSearch.Search.Buffer
import BoxSearch.Search.Incumbent
import BoxSearch.Search.Outcome

/-!
# The state of a search

An optimizer holds the open cells of a search and the bracket `[uplo, loup]` around the least
objective value: `loup` is the value of the best feasible point found and `uplo` a lower bound
over all feasible points. Cells that are too small to split leave the search for good, and the
least lower bound among them limits how far `uplo` can rise.
-/
set_option autoImplicit false

namespace BoxSearch

inductive OptimizerError where
  | missingObjective
  | missingDomain
  | percentage (value : Nat)
  | model (e : ModelError)
  | buffer (e : BufferError)
  | lp (e : LpError)

structure Optimizer (κ α : Type) where
  problem : Problem α
  contractor : κ
  bisector : Bisector α
  config : SearchConfig α
  buffer : CellBuffer α
  finder : IncumbentFinder α
  domain : Option (Box α)
  status : SearchStatus
  loup : α
  uplo : α
  /-- The least lower bound among the cells that were dropped unsplit, infinite if there is
  none. -/
  uploOfEpsBoxes : α
  point : Option (List α)
  /-- Why the search has to stop before its next iteration. -/
  pendingLimit : Option String
  statistics : Statistics

namespace Optimizer
variable {κ α : Type} [Scalar α]

def bufferOf (config : SearchConfig α) : Checked α (Except OptimizerError (CellBuffer α)) :=
  match config.secondary with
  | none => return .ok (.heap (← CellHeap.ofCriterion .lowerBound config.capacity))
  | some criterion =>
    if 100 < config.percent then return .error (.percentage config.percent)
    else
      return .ok (.double (← DoubleHeap.ofCriteria .lowerBound criterion.cellCost config.percent
        config.seed config.capacity))

def ofParts (problem : Problem α) (contractor : κ) (bisector : Bisector α)
    (config : SearchConfig α) : Checked α (Except OptimizerError (Optimizer κ α)) := do
  if problem.objective.isNone then return .error .missingObjective
  match ← bufferOf config with
  | .error e => return .error e
  | .ok buffer =>
    return .ok {
      problem, contractor, bisector, config, buffer
      finder := .ofConfig config
      domain := none
      status := .init
      loup := Scalar.infinity
      uplo := -Scalar.infinity
      uploOfEpsBoxes := Scalar.infinity
      point := none
      pendingLimit := none
      statistics := .none }

def outcome (o : Optimizer κ α) : Outcome α where
  status := o.status
  loup := o.loup
  uplo := o.uplo
  point := o.point
  statistics := o.statistics

def progress (o : Optimizer κ α) : SearchProgress α := ⟨o.loup, o.uplo, o.buffer.size⟩

def target (o : Optimizer κ α) : α := o.config.target o.loup

/-- No point of a cell with this objective image improves the incumbent enough. -/
def cannotImprove (o : Optimizer κ α) (image : Interval α) : Bool :=
  image.isEmpty || decide (o.target < image.lo)

def raiseUplo (o : Optimizer κ α) (bound : α) : Optimizer κ α :=
  let bound := Scalar.min bound o.loup
  if o.uplo < bound then { o with uplo := bound } else o

/-- Drops a cell with the given lower bound for good. -/
def recordEpsBox (o : Optimizer κ α) (lower : α) : Optimizer κ α :=
  let o := { o with statistics := o.statistics.onEpsBox }
  if lower < o.uploOfEpsBoxes then { o with uploOfEpsBoxes := lower } else o

def capacityReached (capacity : Nat) : String :=
  "Buffer capacity of " ++ toString capacity ++ " cells reached"

/-- Adds an open cell with the given lower bound. A cell that does not fit counts as one that is
too small, and the search stops before its next iteration. -/
def pushCell (o : Optimizer κ α) (c : Cell α) (lower : α) : Checked α (Optimizer κ α) := do
  let c ←
    if o.buffer.needsFeasibility then
      pure (← c.feasibleShare o.problem o.config.equalityTolerance).2
    else pure c
  match o.buffer.push c with
  | .ok buffer =>
    return { o with buffer, statistics := o.statistics.onBufferSize buffer.size }
  | .error (.overflow capacity) =>
    let o := o.recordEpsBox lower
    return { o with pendingLimit := o.pendingLimit.or (some (capacityReached capacity)) }
  | .error .underflow => return o

def pushRoot (o : Optimizer κ α) (domain : Box α) : Checked α (Optimizer κ α) := do
  if domain.isEmpty then return o
  let (image, root) ← (Cell.ofDomain domain 0).objective o.problem
  o.pushCell root image.lo

/-- Some variable lies strictly inside the domain of the search all over the box, and the
objective has a slope of one sign along it. -/
def gradientExcludesZero (o : Optimizer κ α) (b : Box α) : Checked α Bool := do
  match o.problem.objective, o.domain with
  | some objective, some domain =>
    let gradient ← objective.gradient b
    if gradient.isEmpty then return false
    return (b.components.zip (domain.components.zip gradient.components)).any fun t =>
      decide (t.2.1.lo < t.1.lo) && decide (t.1.hi < t.2.1.hi) && !t.2.2.contains 0
  | _, _ => return false

def closeEmpty (o : Optimizer κ α) : SearchStatus × Optimizer κ α :=
  if Scalar.isFinite o.loup then
    let reached := decide (o.target ≤ o.uploOfEpsBoxes)
    let o := o.raiseUplo (Scalar.min o.target o.uploOfEpsBoxes)
    (if reached || o.config.gapClosed o.loup o.uplo then .converged else .exhausted, o)
  else (.exhausted, o.raiseUplo o.uploOfEpsBoxes)

def stop? (o : Optimizer κ α) : Option (SearchStatus × Optimizer κ α) :=
  if o.config.gapClosed o.loup o.uplo then some (.converged, o)
  else
    match o.pendingLimit with
    | some reason => some (.limitReached reason, { o with pendingLimit := none })
    | none => if o.buffer.size = 0 then some o.closeEmpty else none

def reset (o : Optimizer κ α) (contractor : κ) : Optimizer κ α :=
  { o with
    contractor
    buffer := o.buffer.flush.setIncumbent Scalar.infinity
    status := .init
    loup := Scalar.infinity
    uplo := -Scalar.infinity
    uploOfEpsBoxes := Scalar.infinity
    point := none
    pendingLimit := none
    statistics := .none
    finder := o.finder.reseed
    bisector := o.bisector.restart }

end Optimizer

end BoxSearch
