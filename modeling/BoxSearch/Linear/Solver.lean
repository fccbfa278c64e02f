import BoxSearch.Linear.Program

/-!
# Solvers of linear programs

What a solver answers is a hint. Nothing here is trusted by the search, which derives its bounds
anew from the multipliers of an answer and accepts every answer as long as the derivation holds.
-/
set_option autoImplicit false

namespace BoxSearch

inductive Sense where
  | minimize
  | maximize
deriving DecidableEq

inductive LpStatus where
  | optimal
  | infeasible
  | unbounded
  | limitReached
  | unknown
deriving DecidableEq

/-- The parts of an answer that a solver offers. A multiplier is positive on a row whose lower
side is active and negative on one whose upper side is, when the objective is minimized; to
maximize is to minimize the negated objective. -/
structure LpAnswer (α : Type) where
  status : LpStatus
  value : Option α
  primal : Option (List α)
  dual : Option (List α)
  /-- Multipliers of the rows whose combination no point of the box satisfies. -/
  direction : Option (List α)

def LpAnswer.bare {α : Type} (status : LpStatus) : LpAnswer α := ⟨status, none, none, none, none⟩

/-- A solver with its state between two solves. -/
class LpSolver (σ : Type) (α : outParam Type) where
  name : σ → String
  solve : σ → LinearProgram α → Sense → Except LpError (LpAnswer α) × σ

end BoxSearch
