import BoxSearch.Report.Model
import BoxSearch.Search.Bisector
import BoxSearch.Search.Buffer
import BoxSearch.Search.Config
import BoxSearch.Search.Outcome

/-!
# Written cells, buffers, settings and outcomes
-/
set_option autoImplicit false

namespace BoxSearch

def Cell.toText (c : Cell Float) : String :=
  "Cell(depth: " ++ toString c.depth ++ ", box: " ++ c.domain.toText ++ ")"

def BufferError.message : BufferError → String
  | .underflow => "the cell buffer is empty"
  | .overflow n => "the cell buffer reached its capacity of " ++ toString n ++ " cells"

def capacityText (capacity : Option Nat) : String := Text.optional (capacity.map toString)

def CellStack.toText (s : CellStack Float) : String :=
  "CellStack(" ++ toString s.cells.length ++ " cells)"

def CellHeap.toText (h : CellHeap Float) : String :=
  "CellHeap(criterion: " ++ h.criterion.name ++ ", " ++ toString h.size ++ " cells)"

def CellHeap.describe (h : CellHeap Float) : String :=
  Text.record "CellHeap"
    [("criterion", Text.quoted h.criterion.name), ("len", toString h.size),
      ("capacity", capacityText h.capacity)]

def DoubleHeap.toText (h : DoubleHeap Float) : String :=
  "CellDoubleHeap(criteria: " ++ h.first.name ++ "/" ++ h.second.name ++ ", critpr: " ++
    toString h.percent ++ ", " ++ toString h.size ++ " cells)"

def DoubleHeap.describe (h : DoubleHeap Float) : String :=
  Text.record "CellDoubleHeap"
    [("first", Text.quoted h.first.name), ("second", Text.quoted h.second.name),
      ("critpr", toString h.percent), ("len", toString h.size),
      ("capacity", capacityText h.capacity)]

def CellBuffer.toText (b : CellBuffer Float) : String :=
  "CellBuffer(" ++ b.name ++ ", " ++ toString b.size ++ " cells)"

def Bisector.toText (s : Bisector Float) : String := "Bisector(" ++ s.name ++ ")"

namespace SearchConfig

def toText (c : SearchConfig Float) : String :=
  "OptimizerConfig(prec: " ++ Text.scientific.write c.precision ++ ", goal_rel_prec: " ++
    Text.scientific.write c.relativeGoal ++ ", goal_abs_prec: " ++
    Text.scientific.write c.absoluteGoal ++ ", sample_size: " ++ toString c.samples ++
    ", seed: " ++ toString c.seed.toNat ++ ")"

def criterionText : Criterion → String
  | .lowerBound => "LowerBound"
  | .upperBound => "UpperBound"
  | .gap => "LoupGap"
  | .feasibleGap => "FeasibleLoupGap"
  | .boundOverGap => "LowerBoundOverGap"
  | .feasibility => "Feasibility"

def describe (c : SearchConfig Float) : String :=
  Text.record "OptimizerConfig"
    [("prec", Text.literal.write c.precision), ("goal_rel_prec", Text.literal.write c.relativeGoal),
      ("goal_abs_prec", Text.literal.write c.absoluteGoal), ("sample_size", toString c.samples),
      ("loup_tolerance", Text.literal.write c.probeTolerance),
      ("eq_tolerance", Text.literal.write c.equalityTolerance), ("seed", toString c.seed.toNat),
      ("buffer_capacity", capacityText c.capacity),
      ("secondary_criterion", Text.optional (c.secondary.map criterionText)),
      ("critpr", toString c.percent)]

end SearchConfig

def Statistics.toText (s : Statistics) : String :=
  "Enclose Optimizer Statistics:\n" ++
  "  Iterations:            " ++ toString s.iterations ++ "\n" ++
  "  Max depth reached:     " ++ toString s.maxDepth ++ "\n" ++
  "  Max buffer size:       " ++ toString s.maxBufferSize ++ "\n" ++
  "  Cells infeasible:      " ++ toString s.infeasible ++ "\n" ++
  "  Cells cut (objective): " ++ toString s.cut ++ "\n" ++
  "  Cells cut (gradient):  " ++ toString s.firstOrder ++ "\n" ++
  "  Cells evicted:         " ++ toString s.evicted ++ "\n" ++
  "  Eps boxes:             " ++ toString s.epsBoxes ++ "\n" ++
  "  Loup updates:          " ++ toString s.loupUpdates ++ "\n" ++
  "  Total time:            " ++ Text.duration s.time ++ "\n"

def SearchStatus.toText : SearchStatus → String
  | .init => "Init"
  | .running => "Running"
  | .converged => "Converged"
  | .exhausted => "Exhausted"
  | .limitReached reason => "LimitReached(" ++ reason ++ ")"

def SearchStatus.describe : SearchStatus → String
  | .limitReached reason => "LimitReached(" ++ Text.quoted reason ++ ")"
  | s => s.toText

namespace Outcome

def toText (o : Outcome Float) : String :=
  "OptimizerOutcome(" ++ o.status.toText ++ ", [" ++ Text.plain.write o.uplo ++ ", " ++
    Text.plain.write o.loup ++ "])"

def report (o : Outcome Float) : String :=
  let point := match o.point with
    | some p => Text.list (p.map Text.literal.write)
    | none => "none"
  "status: " ++ o.status.toText ++ "\nf* in [" ++ Text.plain.write o.uplo ++ ", " ++
    Text.plain.write o.loup ++ "] (gap: " ++ Text.scientific.write o.absoluteGap ++
    ")\nx*: " ++ point ++ "\n" ++ o.statistics.toText

end Outcome

end BoxSearch
