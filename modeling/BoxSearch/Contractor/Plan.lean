import BoxSearch.Contractor.QIntersection
import BoxSearch.Contractor.Relaxation
import BoxSearch.Model.Evaluation

/-!
# Contractors built from contractors

A plan says how a contractor is put together and never changes. What the parts of a plan carry
from one box to the next is its memory, whose form follows the form of the plan: the parts of a
sequence have one memory each, and only relaxations remember anything.
-/
set_option autoImplicit false

namespace BoxSearch

inductive ContractorPlan (α : Type) where
  | intersection (measurement : Box α)
  /-- Finds out whether some constraint is violated by the whole box, and never shrinks it. -/
  | check (problem : Problem α)
  | sequence (members : List (ContractorPlan α))
  /-- Keeps the points that at least `q` members keep. -/
  | agreement (q : Nat) (members : List (ContractorPlan α))
  /-- A linear relaxation together with the contractor that runs before its rounds. -/
  | relaxation (r : Relaxation α) (pre : ContractorPlan α)
  /-- Answers every box in the same way. -/
  | fixed (name : String) (outcome : Narrowing α)
  /-- Notes every call in the journal. -/
  | observed (label : String) (inner : ContractorPlan α)

namespace ContractorPlan

mutual

def Memory (σ : Type) {α : Type} : ContractorPlan α → Type
  | intersection _ => Unit
  | check _ => Unit
  | sequence members => Memories σ members
  | agreement _ members => Memories σ members
  | relaxation _ pre => RelaxationState σ α × pre.Memory σ
  | fixed _ _ => Unit
  | observed _ inner => inner.Memory σ

def Memories (σ : Type) {α : Type} : List (ContractorPlan α) → Type
  | [] => Unit
  | c :: cs => c.Memory σ × Memories σ cs

end

def name {α : Type} : ContractorPlan α → String
  | intersection _ => "BoxIntersection"
  | check _ => "ConstraintCheck"
  | sequence _ => "Sequence"
  | agreement _ _ => "QInterContractor"
  | relaxation _ _ => "LinearRelaxation"
  | fixed name _ => name
  | observed _ inner => inner.name

variable {σ α : Type} [Scalar α]

def meet (b c : Box α) : Narrowing α :=
  let met := b.intersect c
  if met.isEmpty then .noSolution else .narrowed met

/-- What the members make of a box when at least `q` of them have to agree. -/
def agree (q : Nat) (b : Box α) (images : List (Box α)) : Narrowing α :=
  if images.length < q then .noSolution
  else
    match qIntersection images q with
    | .ok hull => meet b hull
    | .error _ => .unavailable

variable [LpSolver σ α]

mutual

def contract : (c : ContractorPlan α) → c.Memory σ → Box α →
    Journaled α (Narrowing α × c.Memory σ)
  | intersection measurement, m, b => return (meet b measurement, m)
  | check p, m, b => do
    let (violated, _) ← (Evaluable.certainlyInfeasible p (PlainBox.mk b)).value
    return (if violated then .noSolution else .narrowed b, m)
  | sequence members, m, b => contractInTurn members m b
  | agreement q members, m, b => do
    if b.isEmpty then return (.noSolution, m)
    match ← contractEach members m b with
    | (.error e, m) => return (.failed e, m)
    | (.ok images, m) => return (agree q b images, m)
  | relaxation r pre, m, b => do
    let result ← r.contract (fun m b => pre.contract m b) b m.1 m.2
    return (result.outcome, (result.state, result.pre))
  | fixed _ outcome, m, _ => return (outcome, m)
  | observed label inner, m, b => do
    Journaled.note (.contract label b)
    inner.contract m b

def contractInTurn : (cs : List (ContractorPlan α)) → Memories σ cs → Box α →
    Journaled α (Narrowing α × Memories σ cs)
  | [], m, b => return (.narrowed b, m)
  | c :: cs, m, b => do
    match ← c.contract m.1 b with
    | (.narrowed b, first) =>
      let (outcome, rest) ← contractInTurn cs m.2 b
      return (outcome, (first, rest))
    | (.unavailable, first) =>
      let (outcome, rest) ← contractInTurn cs m.2 b
      return (outcome, (first, rest))
    | (outcome, first) => return (outcome, (first, m.2))

/-- Each member on the same box: the boxes of the members that did not prove it empty. -/
def contractEach : (cs : List (ContractorPlan α)) → Memories σ cs → Box α →
    Journaled α (Except LpError (List (Box α)) × Memories σ cs)
  | [], m, _ => return (.ok [], m)
  | c :: cs, m, b => do
    let (outcome, first) ← c.contract m.1 b
    match outcome with
    | .failed e => return (.error e, (first, m.2))
    | .noSolution =>
      let (images, rest) ← contractEach cs m.2 b
      return (images, (first, rest))
    | .unavailable =>
      let (images, rest) ← contractEach cs m.2 b
      return (images.map (b :: ·), (first, rest))
    | .narrowed image =>
      let (images, rest) ← contractEach cs m.2 b
      return (images.map (image :: ·), (first, rest))

end

mutual

def onIncumbent (loup : α) : (c : ContractorPlan α) → c.Memory σ → Journaled α (c.Memory σ)
  | intersection _, m => return m
  | check _, m => return m
  | sequence members, m => onIncumbents loup members m
  | agreement _ members, m => onIncumbents loup members m
  | relaxation _ pre, m => return (m.1.onIncumbent loup, ← pre.onIncumbent loup m.2)
  | fixed _ _, m => return m
  | observed label inner, m => do
    Journaled.note (.incumbent label loup)
    inner.onIncumbent loup m

def onIncumbents (loup : α) : (cs : List (ContractorPlan α)) → Memories σ cs →
    Journaled α (Memories σ cs)
  | [], m => return m
  | c :: cs, m => do
    let first ← c.onIncumbent loup m.1
    return (first, ← onIncumbents loup cs m.2)

end

mutual

def restart : (c : ContractorPlan α) → c.Memory σ → Journaled α (c.Memory σ)
  | intersection _, m => return m
  | check _, m => return m
  | sequence members, m => restarts members m
  | agreement _ members, m => restarts members m
  | relaxation r pre, m => return (m.1.restart r, ← pre.restart m.2)
  | fixed _ _, m => return m
  | observed label inner, m => do
    Journaled.note (.restart label)
    inner.restart m

def restarts : (cs : List (ContractorPlan α)) → Memories σ cs → Journaled α (Memories σ cs)
  | [], m => return m
  | c :: cs, m => do
    let first ← c.restart m.1
    return (first, ← restarts cs m.2)

end

end ContractorPlan

structure PlannedContractor (σ α : Type) where
  plan : ContractorPlan α
  memory : plan.Memory σ

namespace PlannedContractor
variable {σ α : Type} [Scalar α]

instance [LpSolver σ α] : Contractor (PlannedContractor σ α) α where
  name c := c.plan.name
  contract c b := do
    let (outcome, memory) ← c.plan.contract c.memory b
    return (outcome, ⟨c.plan, memory⟩)
  onIncumbent c loup := return ⟨c.plan, ← c.plan.onIncumbent loup c.memory⟩
  restart c := return ⟨c.plan, ← c.plan.restart c.memory⟩

def memories : (cs : List (PlannedContractor σ α)) → ContractorPlan.Memories σ (cs.map plan)
  | [] => ()
  | c :: cs => (c.memory, memories cs)

def intersection (measurement : Box α) : PlannedContractor σ α := ⟨.intersection measurement, ()⟩

def check (p : Problem α) : PlannedContractor σ α := ⟨.check p, ()⟩

def sequence (cs : List (PlannedContractor σ α)) : PlannedContractor σ α :=
  ⟨.sequence (cs.map plan), memories cs⟩

def agreement (q : Nat) (cs : List (PlannedContractor σ α)) :
    Except AgreementError (PlannedContractor σ α) :=
  if q = 0 then .error .zero
  else if cs.length < q then .error (.tooMany q cs.length)
  else .ok ⟨.agreement q (cs.map plan), memories cs⟩

def relaxation (r : Relaxation α) (solver : σ) (pre : PlannedContractor σ α) :
    PlannedContractor σ α :=
  ⟨.relaxation r pre.plan, (.fresh r solver, pre.memory)⟩

def fixed (name : String) (outcome : Narrowing α) : PlannedContractor σ α :=
  ⟨.fixed name outcome, ()⟩

def observed (label : String) (c : PlannedContractor σ α) : PlannedContractor σ α :=
  ⟨.observed label c.plan, c.memory⟩

end PlannedContractor

end BoxSearch
