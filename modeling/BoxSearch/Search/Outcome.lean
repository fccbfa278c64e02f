import BoxSearch.Scalar
import BoxSearch.Search.Statistics

/-!
# Outcomes

A search ends with a bracket `[uplo, loup]` of the least objective value, a point that attains
the upper end, and a status that says why it ended.
-/
set_option autoImplicit false

namespace BoxSearch

inductive SearchStatus where
  | init
  | running
  | converged
  /-- No open cell is left, but the bracket is not as narrow as requested. -/
  | exhausted
  | limitReached (reason : String)
deriving DecidableEq

def SearchStatus.isTerminal : SearchStatus → Bool
  | converged | exhausted | limitReached _ => true
  | init | running => false

structure Outcome (α : Type) where
  status : SearchStatus
  /-- The least objective value proved at a feasible point, infinite if there is none. -/
  loup : α
  /-- A lower bound of the objective over the feasible points. -/
  uplo : α
  point : Option (List α)
  statistics : Statistics

namespace Outcome
variable {α : Type} [Scalar α]

def isConverged (o : Outcome α) : Bool := o.status = .converged

def isInfeasible (o : Outcome α) : Bool :=
  o.status = .exhausted && o.point.isNone && o.uplo == Scalar.infinity

def absoluteGap (o : Outcome α) : α :=
  if o.loup == Scalar.infinity then Scalar.infinity else Scalar.max (o.loup - o.uplo) 0

/-- The width of the bracket relative to the incumbent, zero for a bracket of one value. -/
def relativeGap (o : Outcome α) : α :=
  if o.absoluteGap == 0 then 0 else o.absoluteGap / Scalar.magnitude o.loup

end Outcome

end BoxSearch
