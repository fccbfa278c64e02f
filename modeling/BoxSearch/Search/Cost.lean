import BoxSearch.Search.Cell

/-!
# Costs of cells

Open cells are explored in the order of a cost, the smallest first. A cost reads what a cell
remembers: its objective image, its feasible share, its depth. Some costs also read the value of
the incumbent, and change for every cell when a better one is found.
-/
set_option autoImplicit false

namespace BoxSearch

inductive CostKeys (α : Type) where
  | fixed (cost tie : Cell α → α)
  | incumbent (cost tie : α → Cell α → α)

structure CellCost (α : Type) where
  name : String
  /-- The cost reads the feasible share. -/
  needsFeasibility : Bool
  keys : CostKeys α

namespace CellCost
variable {α : Type}

def dependsOnIncumbent (k : CellCost α) : Bool :=
  match k.keys with
  | .fixed _ _ => false
  | .incumbent _ _ => true

def cost (k : CellCost α) (loup : α) (c : Cell α) : α :=
  match k.keys with
  | .fixed cost _ => cost c
  | .incumbent cost _ => cost loup c

def tie (k : CellCost α) (loup : α) (c : Cell α) : α :=
  match k.keys with
  | .fixed _ tie => tie c
  | .incumbent _ tie => tie loup c

variable [Scalar α]

def ofFunction (name : String) (cost : Cell α → α) : CellCost α :=
  ⟨name, false, .fixed cost fun _ => 0⟩

def imageLower (c : Cell α) : α :=
  match c.cachedObjective with
  | some image => if image.isEmpty then -Scalar.infinity else image.lo
  | none => -Scalar.infinity

def imageUpper (c : Cell α) : α :=
  match c.cachedObjective with
  | some image => if image.isEmpty then -Scalar.infinity else image.hi
  | none => -Scalar.infinity

def lowerBound : CellCost α := ⟨"LB", false, .fixed imageLower imageUpper⟩

def upperBound : CellCost α := ofFunction "UB" imageUpper

def depth : CellCost α := ofFunction "Depth" fun c => -(Scalar.ofNat c.depth)

end CellCost

inductive Criterion where
  | lowerBound
  | upperBound
  /-- The share of the objective image below the incumbent, largest first. -/
  | gap
  | feasibleGap
  /-- The lower bound divided by the weighted gap. -/
  | boundOverGap
  | feasibility
deriving DecidableEq

namespace Criterion

def code : Criterion → String
  | lowerBound => "LB"
  | upperBound => "UB"
  | gap => "C3"
  | feasibleGap => "C5"
  | boundOverGap => "C7"
  | feasibility => "PU"

def dependsOnIncumbent : Criterion → Bool
  | gap | feasibleGap | boundOverGap => true
  | lowerBound | upperBound | feasibility => false

def needsFeasibility : Criterion → Bool
  | feasibleGap | boundOverGap | feasibility => true
  | lowerBound | upperBound | gap => false

variable {α : Type} [Scalar α]

def weightedGap (loup lower width share : α) : α :=
  let gap := loup - lower
  if 0 < width then share * gap / width
  else if 0 < gap ∧ 0 < share then Scalar.infinity
  else 0

/-- The cost of a cell. Without an incumbent the criteria that read it order by the lower bound;
a cell that does not know its feasible share counts as fully feasible. -/
def cost (k : Criterion) (loup : α) (c : Cell α) : α :=
  match c.cachedObjective with
  | none => -Scalar.infinity
  | some image =>
    let share := c.feasibility.getD 1
    if image.isEmpty then -Scalar.infinity
    else if k.dependsOnIncumbent && !Scalar.isFinite loup then image.lo
    else
      match k with
      | lowerBound => image.lo
      | upperBound => image.hi
      | gap => -weightedGap loup image.lo image.width 1
      | feasibleGap => -weightedGap loup image.lo image.width share
      | boundOverGap =>
        let gap := weightedGap loup image.lo image.width share
        if 0 < gap then image.lo / gap else Scalar.infinity
      | feasibility => -share

def cellCost (k : Criterion) : CellCost α where
  name := k.code
  needsFeasibility := k.needsFeasibility
  keys :=
    if k.dependsOnIncumbent then .incumbent k.cost fun _ => CellCost.imageLower
    else .fixed (k.cost Scalar.infinity) CellCost.imageLower

end Criterion

end BoxSearch
