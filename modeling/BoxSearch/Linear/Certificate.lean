import BoxSearch.Box
import BoxSearch.Linear.Program

/-!
# Bounds from untrusted multipliers

For every point `x` that satisfies the rows `B i ∋ a i · x` and every list of multipliers `y`,
`c · x = ∑ y i * (a i · x) + (c - ∑ y i * a i) · x`. Over a box `X` the right-hand side lies in
`∑ y i * B i + (c - ∑ y i * a i) · X`, whose lower end is a lower bound of `c · x` whatever the
multipliers are. With `c = 0` the same identity refutes the rows: nothing satisfies them if the
two sides have no common value. Multipliers that point at an infinite side of their row are
replaced by zero.
-/
set_option autoImplicit false

namespace BoxSearch
variable {α : Type} [Scalar α]

namespace LinearRow

def le (coeffs : List α) (upper : α) : LinearRow α := ⟨-Scalar.infinity, coeffs, upper⟩

def ge (coeffs : List α) (lower : α) : LinearRow α := ⟨lower, coeffs, Scalar.infinity⟩

def activity (r : LinearRow α) (b : Box α) : Checked α (Interval α) := b.dot r.coeffs

def isImplied (r : LinearRow α) (b : Box α) : Checked α Bool := do
  let x ← r.activity b
  return decide (r.lower ≤ x.lo) && decide (x.hi ≤ r.upper)

def isCrossed (r : LinearRow α) (b : Box α) : Checked α Bool := do
  let x ← r.activity b
  return x.isEmpty || decide (x.hi < r.lower) || decide (r.upper < x.lo)

def sides (r : LinearRow α) : Checked α (Interval α) := Interval.ofBounds r.lower r.upper

/-- The multiplier if it is finite and points at a finite side, and zero otherwise. -/
def usableMultiplier (r : LinearRow α) (y : α) : α :=
  if !Scalar.isFinite y || (decide (0 < y) && r.lower == -Scalar.infinity) ||
      (decide (y < 0) && r.upper == Scalar.infinity) then 0
  else y

end LinearRow

/-- An enclosure of `∑ y i * B i` and one of each component of `∑ y i * a i`. -/
structure RowCombination (α : Type) where
  sides : Interval α
  coeffs : List (Interval α)

namespace RowCombination

/-- Adds multiples of the coefficients. Zero coefficients add nothing. -/
def addCoeffs (y : α) : List (Interval α) → List α → Checked α (List (Interval α))
  | x :: xs, a :: as => do
    let x ← if a == 0 then pure x else pure (x + (← (← Interval.point a).mulScalar y))
    return x :: (← addCoeffs y xs as)
  | xs, [] => .ok xs
  | [], _ => .ok []

def addRow (s : RowCombination α) (r : LinearRow α) (y : α) : Checked α (RowCombination α) := do
  let y := r.usableMultiplier y
  if y == 0 then return s
  let sides := s.sides + (← (← r.sides).mulScalar y)
  return ⟨sides, ← addCoeffs y s.coeffs r.coeffs⟩

def ofRows (rows : List (LinearRow α)) (multipliers : List α) (n : Nat) :
    Checked α (RowCombination α) :=
  (rows.zip multipliers).foldlM (fun s r => s.addRow r.1 r.2)
    ⟨.zero, List.replicate n .zero⟩

def addReduced : List α → List (Interval α) → List (Interval α) → Interval α →
    Checked α (Interval α)
  | c :: cs, a :: as, x :: xs, bound => do
    let reduced := (← Interval.point c) - a
    addReduced cs as xs (if reduced.isZero then bound else bound + reduced * x)
  | _, _, _, bound => .ok bound

end RowCombination

/-- A lower bound of `objective · x` over the points of the box that satisfy the rows. It may be
infinite, and is not above the least value for any multipliers. -/
def certifiedLowerBound (rows : List (LinearRow α)) (objective : List α) (b : Box α)
    (multipliers : List α) : Checked α α := do
  let s ← RowCombination.ofRows rows multipliers b.dim
  let bound ← RowCombination.addReduced objective s.coeffs b.components s.sides
  return if bound.isEmpty then -Scalar.infinity else bound.lo

/-- The direction proves that no point of the box satisfies all rows. -/
def certifiesInfeasibility (rows : List (LinearRow α)) (b : Box α) (direction : List α) :
    Checked α Bool := do
  if direction.length ≠ rows.length then return false
  let s ← RowCombination.ofRows rows direction b.dim
  let terms := (s.coeffs.zip b.components).filter fun t => !t.1.isZero
  let gap := Interval.sum (terms.map fun t => t.1 * t.2) - s.sides
  return !gap.isEmpty && !gap.contains 0

end BoxSearch
