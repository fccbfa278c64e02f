import BoxSearch.Search.Iteration

/-!
# Runs

A run repeats iterations until the bracket is narrow enough, no open cell is left, a capacity was
exceeded, or the monitor wants to stop. A run that was stopped can be resumed with the open cells
it left; a restart returns to the whole domain.

Iterations and line probes draw on a budget. A search ends before a sufficient budget is spent,
so that the budget only tells how long to wait.
-/
set_option autoImplicit false

namespace BoxSearch

structure Budget where
  iterations : Nat
  halvings : Nat

structure Ended (κ μ α ε : Type) where
  result : ε
  search : Optimizer κ α
  monitor : μ

/-- In nanoseconds, the time that an iteration takes at least. -/
def iterationTime : Nat := 1000

namespace Optimizer
variable {κ μ α : Type} [Scalar α]

section Monitored
variable [SearchMonitor μ α]

def tell (m : μ) (e : SearchEvent α) (s : Statistics) : Journaled α μ :=
  Journaled.ofJournal (SearchMonitor.observe e s m)

def tellAll (m : μ) (events : List (SearchEvent α × Statistics)) : Journaled α μ :=
  events.foldlM (fun m e => tell m e.1 e.2) m

variable [Contractor κ α]

def loop (halvings : Nat) : Nat → Optimizer κ α → μ →
    Journaled α (Ended κ μ α (Except OptimizerError SearchStatus))
  | 0, _, _ => throw .budget
  | n + 1, o, m => do
    match o.stop? with
    | some (status, o) => return ⟨.ok status, o, m⟩
    | none =>
      let m ← tell m (.stepped o.progress) o.statistics
      match ← Journaled.ofJournal (SearchMonitor.command o.progress o.statistics m) with
      | (some reason, m) => return ⟨.ok (.limitReached reason), o, m⟩
      | (none, m) =>
        let (error, t) ← Iteration.run halvings o
        Journaled.ofJournal (modify (Journal.wait iterationTime))
        let m ← tellAll m t.events
        match error with
        | some e => return ⟨.error e, t.search, m⟩
        | none => loop halvings n t.search m

def search (budget : Budget) (o : Optimizer κ α) (m : μ) :
    Journaled α (Ended κ μ α (Except OptimizerError (Outcome α))) := do
  let start ← Journaled.ofJournal Journal.readClock
  let before := o.statistics.time
  let o := { o with status := .running }
  let m ← tell m (.entered o.problem.arity) o.statistics
  let ended ← loop budget.halvings budget.iterations o m
  let now ← Journaled.ofJournal Journal.readClock
  let o := ended.search
  let o := { o with statistics := { o.statistics with time := before + (now - start) } }
  match ended.result with
  | .error e =>
    let m ← tell ended.monitor .exited o.statistics
    return ⟨.error e, o, m⟩
  | .ok status =>
    let o := { o with status }
    let m ← tell ended.monitor .exited o.statistics
    return ⟨.ok o.outcome, o, m⟩

/-- Starts or resumes the search. A search that has converged or is exhausted stays as it is. -/
def run (budget : Budget) (o : Optimizer κ α) (m : μ) :
    Journaled α (Ended κ μ α (Except OptimizerError (Outcome α))) := do
  match o.domain with
  | none => return ⟨.error .missingDomain, o, m⟩
  | some domain =>
    match o.status with
    | .converged | .exhausted => return ⟨.ok o.outcome, o, m⟩
    | .init => search budget (← o.pushRoot domain) m
    | .running | .limitReached _ => search budget o m

end Monitored

variable [Contractor κ α]

def restart (o : Optimizer κ α) : Journaled α (Except OptimizerError Unit × Optimizer κ α) := do
  if o.domain.isNone then return (.error .missingDomain, o)
  return (.ok (), o.reset (← Contractor.restart o.contractor))

def optimize [SearchMonitor μ α] (budget : Budget) (o : Optimizer κ α) (domain : Box α) (m : μ) :
    Journaled α (Ended κ μ α (Except OptimizerError (Outcome α))) := do
  match o.problem.checkDomain domain with
  | .error e => return ⟨.error (.model e), o, m⟩
  | .ok _ =>
    match ← { o with domain := some domain }.restart with
    | (.error e, o) => return ⟨.error e, o, m⟩
    | (.ok _, o) => o.run budget m

end Optimizer

end BoxSearch
