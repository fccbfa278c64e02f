import BoxSearch.Exchange.Contractor

/-!
# Described searches
-/
set_option autoImplicit false

namespace BoxSearch

/-! ## Cells and costs -/

instance : ToDatum (Cell Float) :=
  ⟨fun c => .record [("box", datum c.domain), ("depth", datum c.depth),
    ("obj", datum c.cachedObjective), ("feas", datum c.feasibility)]⟩

def Criterion.all : List Criterion :=
  [.lowerBound, .upperBound, .gap, .feasibleGap, .boundOverGap, .feasibility]

instance : ToDatum Criterion := ⟨fun k => .text k.code⟩

instance : FromDatum Criterion where
  read d := do
    let code ← (read d : Reading String)
    match Criterion.all.find? fun k => k.code == code with
    | some k => return k
    | none => throw (.malformed "a criterion")

def Cell.firstLower (c : Cell Float) : Float := ((c.domain.lowers.head?).getD 0)

def namedCost? (name : String) : Option (CellCost Float) :=
  match name with
  | "obj_lb" => some .lowerBound
  | "obj_ub" => some .upperBound
  | "depth" => some .depth
  | "x0_lb" => some (.ofFunction "Closure" Cell.firstLower)
  | "x0_neg_lb" => some (.ofFunction "Closure" fun c => -c.firstLower)
  | "constant" => some (.ofFunction "Closure" fun _ => 0)
  | "nan" => some (.ofFunction "Closure" fun _ => 0 / 0)
  | _ => none

def checkCost (name : Datum) (c : Cell Float) : Checked Float Unit :=
  match name with
  | .text "x0_lb" | .text "x0_neg_lb" => discard (c.domain.component 0)
  | _ => .ok ()

instance : FromDatum (CellCost Float) where
  read d := do
    match namedCost? (← read d) with
    | some k => return k
    | none => return (← (read d : Reading Criterion)).cellCost

/-! ## Settings -/

instance : FromDatum (Bisector Float) where
  read
    | .null => .ok (.largestFirst 0.5)
    | .text "round_robin" => .ok (.roundRobin 0)
    | d => do
      let ratio ← (read d : Reading Float)
      Bisector.ofRatio ratio

def readPercent (d : Datum) : Reading Nat := return (← (read d : Reading Nat)) % 256

instance : FromDatum (SearchConfig Float) where
  read d := do
    let c : SearchConfig Float := .standard
    let (secondary, percent) ←
      match ← (d.get "secondary" : Reading (Option (Criterion × Datum))) with
      | some (criterion, percent) => pure (some criterion, ← readPercent percent)
      | none => pure (c.secondary, c.percent)
    return {
      precision := ← d.getD "prec" c.precision
      relativeGoal := ← d.getD "goal_rel_prec" c.relativeGoal
      absoluteGoal := ← d.getD "goal_abs_prec" c.absoluteGoal
      samples := ← d.getD "sample_size" c.samples
      probeTolerance := ← d.getD "loup_tolerance" c.probeTolerance
      equalityTolerance := ← d.getD "eq_tolerance" c.equalityTolerance
      seed := ← d.getD "seed" c.seed
      capacity := ← d.get "buffer_capacity"
      secondary
      percent }

/-! ## Statistics and outcomes -/

instance : FromDatum Statistics where
  read d := return {
    iterations := ← d.getD "iterations" 0
    infeasible := ← d.getD "infeasible" 0
    cut := ← d.getD "cut" 0
    firstOrder := ← d.getD "first_order" 0
    evicted := ← d.getD "evicted" 0
    epsBoxes := ← d.getD "eps_boxes" 0
    loupUpdates := ← d.getD "loup_updates" 0
    maxDepth := ← d.getD "max_depth" 0
    maxBufferSize := ← d.getD "max_buffer_size" 0
    time := ← d.getD "time_ns" 0 }

instance : ToDatum Statistics :=
  ⟨fun s => .record [("iterations", datum s.iterations), ("infeasible", datum s.infeasible),
    ("cut", datum s.cut), ("first_order", datum s.firstOrder), ("evicted", datum s.evicted),
    ("eps_boxes", datum s.epsBoxes), ("loup_updates", datum s.loupUpdates),
    ("max_depth", datum s.maxDepth), ("max_buffer_size", datum s.maxBufferSize)]⟩

instance : FromDatum SearchStatus where
  read
    | .text "Init" => .ok .init
    | .text "Running" => .ok .running
    | .text "Converged" => .ok .converged
    | .text "Exhausted" => .ok .exhausted
    | .list [.text "LimitReached", .text reason] => .ok (.limitReached reason)
    | _ => .error (.malformed "a status")

instance : FromDatum (Outcome Float) where
  read d := return {
    status := ← d.get "status"
    loup := ← d.get "loup"
    uplo := ← d.get "uplo"
    point := ← d.get "point"
    statistics := ← d.get "stats" }

instance : ToDatum (Outcome Float) :=
  ⟨fun o => .record [("status", .text o.status.toText), ("loup", datum o.loup),
    ("uplo", datum o.uplo), ("point", datum o.point), ("stats", datum o.statistics),
    ("abs_gap", datum o.absoluteGap), ("rel_gap", datum o.relativeGap),
    ("infeasible", datum o.isInfeasible)]⟩

/-! ## Monitors and journals -/

def PruneReason.all : List PruneReason := [.infeasible, .objectiveCut, .firstOrder, .precision]

instance : FromDatum PruneReason where
  read d := do
    let name ← (read d : Reading String)
    match PruneReason.all.find? fun r => r.toText == name with
    | some r => return r
    | none => throw (.malformed "a reason")

def recorderLimit : Nat := 150

def microsecond : Nat := 1000

def millisecond : Nat := 1000000

def readReport (seconds mask : Datum) : Reading (Nat × Nat) :=
  return ((← (read seconds : Reading Nat)) * Monitor.nanosPerSecond, ← read mask)

mutual

def readMonitor : Datum → Reading Monitor
  | .list [.text "noop"] => return .idle
  | .list [.text "iter", n] => return .iterationLimit (← read n)
  | .list [.text "time", limit] | .list [.text "time", limit, .null] =>
    return .ofTimeLimit ((← read limit) * microsecond) Monitor.standardInterval
  | .list [.text "time", limit, interval] =>
    return .ofTimeLimit ((← read limit) * microsecond) (← read interval)
  | .list [.text "interrupt", flag] => return .interrupt (← read flag)
  | .list [.text "log"] => return .ofReport Monitor.nanosPerSecond 255
  | .list [.text "log", seconds, mask] => do
    let (interval, mask) ← readReport seconds mask
    return .ofReport interval mask
  | .list [.text "record"] => return .recorder recorderLimit
  | .list [.text "sleep"] => return .sleeper millisecond
  | .list (.text "all" :: ms) => return .all (← readMonitors ms)
  | _ => throw (.malformed "a monitor")

def readMonitors : List Datum → Reading (List Monitor)
  | [] => return []
  | d :: ds => do
    let m ← readMonitor d
    return m :: (← readMonitors ds)

end

instance : FromDatum Monitor := ⟨readMonitor⟩

mutual

def Monitor.writesLines : Monitor → Bool
  | .report _ _ _ => true
  | .all members => Monitor.someWritesLines members
  | _ => false

def Monitor.someWritesLines : List Monitor → Bool
  | [] => false
  | m :: ms => m.writesLines || Monitor.someWritesLines ms

end

def SearchEvent.toDatum (e : SearchEvent Float) (s : Statistics) : Datum :=
  match e with
  | .entered arity => .list [.text "enter", datum arity]
  | .exited => .list [.text "exit", datum s.iterations]
  | .stepped p =>
    .list [.text "step", datum s.iterations, datum p.loup, datum p.uplo, datum p.bufferSize]
  | .pruned c reason =>
    -- The box of a cell that was proved empty is not determined.
    let box := if reason = .infeasible then .null else datum c.domain
    .list [.text "prune", .text reason.toText, datum c.depth, box]
  | .improved loup point => .list [.text "loup", datum loup, datum point]

instance : ToDatum (Note Float) where
  datum
    | .contract label b => .list [.text label, .text "contract", datum b]
    | .incumbent label v => .list [.text label, .text "incumbent", datum v]
    | .restart label => .list [.text label, .text "restart"]
    | .event e s => e.toDatum s

end BoxSearch
