import BoxSearch.Interval.Basic

/-!
# Computations that stop without an answer

Some arguments break the contract of an operation: bounds in the wrong order, the midpoint of an
empty interval, a position outside a list. Such a call has no result and ends the computation
that made it. `Fault` names the cause, with the values that a report needs.
-/
set_option autoImplicit false

namespace BoxSearch

inductive Fault (α : Type) where
  | invalidBounds
  | nonFinitePoint (x : α)
  | midpointOfEmpty
  /-- No number lies strictly inside the interval to be split. -/
  | notBisectable (x : Interval α)
  /-- A split ratio outside the open unit interval. -/
  | splitRatio (ratio : α)
  /-- A bisector was set up with a ratio outside the open unit interval. -/
  | bisectorRatio (ratio : α)
  | nonFiniteCoefficient
  /-- A declared support names a variable that the function does not have. -/
  | supportVariable (var arity : Nat)
  | noCornerPolicy
  /-- A probability in percent above one hundred. -/
  | percentage (value : Nat)
  | position
  /-- More items than can be stored. -/
  | storage
  /-- A range too wide for a uniform draw. -/
  | drawRange
  /-- The step budget of a loop ran out before the loop ended. -/
  | budget

abbrev Checked (α β : Type) := Except (Fault α) β

def storageLimit : Nat := 0x100000000000000

def reserve {α : Type} (n : Nat) : Checked α Unit :=
  if n < storageLimit then .ok () else .error .storage

def elementAt {α β : Type} (xs : List β) (i : Nat) : Checked α β :=
  match xs[i]? with
  | some x => .ok x
  | none => .error .position

end BoxSearch
