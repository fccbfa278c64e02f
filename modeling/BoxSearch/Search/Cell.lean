import BoxSearch.Model.Evaluation

/-!
# Cells

A cell is a node of the search tree: a box with its remembered images, the number of splits that
lead to it from the root, and the share of its constraint images that is feasible once that has
been asked for.
-/
set_option autoImplicit false

namespace BoxSearch

structure Cell (α : Type) where
  box : CachedBox α
  depth : Nat
  feasibility : Option α

namespace Cell
variable {α : Type} [Scalar α]

def ofDomain (domain : Box α) (depth : Nat) : Cell α := ⟨.ofDomain domain, depth, none⟩

def domain (c : Cell α) : Box α := c.box.domain

/-- The cell over another box. Everything remembered about the old one is dropped. -/
def withDomain (c : Cell α) (domain : Box α) : Cell α := ofDomain domain c.depth

def cachedObjective (c : Cell α) : Option (Interval α) := c.box.objective

def objective (p : Problem α) (c : Cell α) : Checked α (Interval α × Cell α) := do
  let (image, box) ← (c.box.objectiveImage p).value
  return (image, { c with box })

/-- The share of an image that is feasible. An image of no finite positive width counts fully
as soon as it meets the feasible values. -/
def share (image feasible : Interval α) : α :=
  let overlap := image.intersect feasible
  if overlap.isEmpty then 0
  else if 0 < image.width ∧ Scalar.isFinite image.width then
    Scalar.clamp 0 1 (overlap.width / image.width)
  else 1

def shares (p : Problem α) (tolerance : α) :
    Nat → Nat → α → CachedBox α → Evaluation α (α × CachedBox α)
  | 0, _, acc, b => return (acc, b)
  | n + 1, i, acc, b => do
    let (image, b) ← b.constraintImage p i
    let feasible ← (← p.constraint i).op.feasible tolerance
    shares p tolerance n (i + 1) (acc * share image feasible) b

def feasibleShare (p : Problem α) (tolerance : α) (c : Cell α) : Checked α (α × Cell α) := do
  match c.feasibility with
  | some share => return (share, c)
  | none =>
    let (share, box) ← (shares p tolerance p.constraints.length 0 1 c.box).value
    return (share, { c with box, feasibility := some share })

/-- Every point satisfies every constraint. The test shares the images of the cell and makes it
forget its feasible share. -/
def certainlyFeasible (p : Problem α) (tolerance : α) (c : Cell α) :
    Checked α (Bool × Cell α) := do
  let (answer, box) ← (Evaluable.certainlyFeasible p tolerance c.box).value
  return (answer, { c with box, feasibility := none })

def certainlyInfeasible (p : Problem α) (c : Cell α) : Checked α (Bool × Cell α) := do
  let (answer, box) ← (Evaluable.certainlyInfeasible p c.box).value
  return (answer, { c with box, feasibility := none })

def bisect (c : Cell α) (var : Nat) (ratio : α) : Checked α (Cell α × Cell α) := do
  let (left, right) ← c.domain.bisect var ratio
  return (ofDomain left (c.depth + 1), ofDomain right (c.depth + 1))

end Cell

end BoxSearch
