import BoxSearch.Search.Optimizer

/-!
# One iteration

An iteration takes the next cell, contracts it, and discards it if it holds no point that
satisfies the constraints or improves the incumbent. From what is left it looks for a better
incumbent, and splits it or drops it as too small. The events of an iteration are collected in
the order in which they happen, each with the statistics after it; a monitor sees them when the
iteration is over.
-/
set_option autoImplicit false

namespace BoxSearch

structure Iteration (κ α : Type) where
  search : Optimizer κ α
  events : List (SearchEvent α × Statistics)

namespace Iteration
variable {κ α : Type} [Scalar α]

def ofSearch (o : Optimizer κ α) : Iteration κ α := ⟨o, []⟩

def emit (t : Iteration κ α) (e : SearchEvent α) : Iteration κ α :=
  { t with events := t.events ++ [(e, t.search.statistics)] }

def modify (t : Iteration κ α) (f : Optimizer κ α → Optimizer κ α) : Iteration κ α :=
  { t with search := f t.search }

def countPrune (s : Statistics) : PruneReason → Statistics
  | .infeasible => s.onInfeasible
  | .objectiveCut => s.onCut
  | .firstOrder => s.onFirstOrder
  | .precision => s

def prune (t : Iteration κ α) (c : Cell α) (reason : PruneReason) : Iteration κ α :=
  (t.modify fun o => { o with statistics := countPrune o.statistics reason }).emit
    (.pruned c reason)

def dropSmall (t : Iteration κ α) (c : Cell α) (lower : α) : Iteration κ α :=
  (t.modify fun o => o.recordEpsBox lower).prune c .precision

def improve [Contractor κ α] (t : Iteration κ α) (found : Candidate α) :
    Journaled α (Iteration κ α) := do
  let o := t.search
  let o := { o with
    loup := found.value
    uplo := Scalar.min o.uplo found.value
    statistics := o.statistics.onLoupUpdate }
  let (evicted, buffer) := (o.buffer.setIncumbent o.loup).evict o.target
  let o := { o with buffer, statistics := o.statistics.onEvicted evicted }
  let contractor ← Contractor.onIncumbent o.contractor o.target
  let o := { o with contractor, point := some found.point }
  return { t with search := o }.emit (.improved o.loup found.point)

def addChild (t : Iteration κ α) (child : Cell α) : Checked α (Iteration κ α) := do
  let (image, child) ← child.objective t.search.problem
  if t.search.cannotImprove image then return t.prune child .objectiveCut
  if child.domain.maxWidth < t.search.config.precision then return t.dropSmall child image.lo
  return { t with search := ← t.search.pushCell child image.lo }

def branch (t : Iteration κ α) (c : Cell α) (lower : α) : Checked α (Iteration κ α) := do
  let (var, bisector) := t.search.bisector.choose c.domain t.search.config.precision
  let t := t.modify fun o => { o with bisector }
  match var with
  | none => return t.dropSmall c lower
  | some var =>
    let (left, right) ← bisector.split c var
    let t ← t.addChild left
    t.addChild right

def explore [Contractor κ α] (halvings : Nat) (t : Iteration κ α) (c : Cell α)
    (image : Interval α) : Journaled α (Iteration κ α) := do
  let (found, finder) ←
    t.search.finder.find t.search.problem halvings c.domain t.search.loup
  let t := t.modify fun o => { o with finder }
  match found with
  | none => t.branch c image.lo
  | some candidate =>
    let t ← t.improve candidate
    if t.search.target < image.lo then return t.prune c .objectiveCut
    t.branch c image.lo

def examine [Contractor κ α] (halvings : Nat) (t : Iteration κ α) (c : Cell α) :
    Journaled α (Iteration κ α) := do
  if c.domain.isEmpty then return t.prune c .infeasible
  let (violated, c) ← c.certainlyInfeasible t.search.problem
  if violated then return t.prune c .infeasible
  let (image, c) ← c.objective t.search.problem
  if t.search.cannotImprove image then return t.prune c .objectiveCut
  if t.search.problem.constraints.isEmpty then
    if ← t.search.gradientExcludesZero c.domain then return t.prune c .firstOrder
  t.explore halvings c image

def takeCell (o : Optimizer κ α) : Except BufferError (Cell α × Optimizer κ α) := do
  let floor := o.buffer.minimum.getD (-Scalar.infinity)
  let (c, buffer) ← o.buffer.pop
  let o := { o with buffer, statistics := o.statistics.onIteration c.depth }
  return (c, o.raiseUplo (Scalar.min floor o.uploOfEpsBoxes))

def run [Contractor κ α] (halvings : Nat) (o : Optimizer κ α) :
    Journaled α (Option OptimizerError × Iteration κ α) := do
  match takeCell o with
  | .error e => return (some (.buffer e), .ofSearch o)
  | .ok (c, o) =>
    let (narrowing, contractor) ← Contractor.contract o.contractor c.domain
    let t := Iteration.ofSearch { o with contractor }
    match narrowing with
    | .failed e => return (some (.lp e), t)
    | .noSolution => return (none, t.prune (c.withDomain c.domain) .infeasible)
    | .narrowed b => return (none, ← t.examine halvings (c.withDomain b))
    | .unavailable => return (none, ← t.examine halvings (c.withDomain c.domain))

end Iteration

end BoxSearch
