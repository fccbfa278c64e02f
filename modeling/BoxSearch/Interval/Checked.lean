import BoxSearch.Fault

/-!
# Interval operations with a contract

Building an interval from given bounds or from a point, its representative point and its split
have arguments for which there is no answer.
-/
set_option autoImplicit false

namespace BoxSearch.Interval
variable {α : Type} [Scalar α]

def ofBounds (lo hi : α) : Checked α (Interval α) :=
  match ofBounds? lo hi with
  | some x => .ok x
  | none => .error .invalidBounds

def point (x : α) : Checked α (Interval α) :=
  if Scalar.isFinite x then .ok ⟨x, x⟩ else .error (.nonFinitePoint x)

/-- A finite point of the interval: the midpoint if both ends are finite, the largest number of
the right sign if one is, and zero if none is. -/
def mid (x : Interval α) : Checked α α :=
  if x.isEmpty then .error .midpointOfEmpty
  else
    match x.lo == -Scalar.infinity, x.hi == Scalar.infinity with
    | true, true => .ok 0
    | true, false => .ok (-Scalar.largest)
    | false, true => .ok Scalar.largest
    | false, false =>
      if x.lo == x.hi then .ok x.lo
      else .ok (Scalar.clamp x.lo x.hi (0.5 * x.lo + 0.5 * x.hi))

/-- The split point at `ratio` of the width; an unbounded interval splits at its representative
point. A computed point that lands on a bound is replaced by one strictly inside. -/
def splitPoint (x : Interval α) (ratio : α) : Checked α α := do
  let split ←
    if x.isUnbounded then x.mid
    else pure (Scalar.clamp x.lo x.hi (x.lo + ratio * (x.hi - x.lo)))
  if split ≤ x.lo ∨ x.hi ≤ split then
    let middle := 0.5 * x.lo + 0.5 * x.hi
    if x.lo < middle ∧ middle < x.hi then pure middle else pure (Scalar.nextUp x.lo)
  else pure split

def bisect (x : Interval α) (ratio : α) : Checked α (Interval α × Interval α) := do
  if !x.isBisectable then throw (.notBisectable x)
  if !(decide (0 < ratio) && decide (ratio < 1)) then throw (.splitRatio ratio)
  let split ← x.splitPoint ratio
  return (⟨x.lo, split⟩, ⟨split, x.hi⟩)

def addScalar (x : Interval α) (c : α) : Checked α (Interval α) := return x + (← point c)

def subScalar (x : Interval α) (c : α) : Checked α (Interval α) := return x - (← point c)

def mulScalar (x : Interval α) (c : α) : Checked α (Interval α) := return x * (← point c)

def scalarMul (c : α) (x : Interval α) : Checked α (Interval α) := return (← point c) * x

end BoxSearch.Interval
