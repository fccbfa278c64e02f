import BoxSearch.Journal
import BoxSearch.Linear.Program

/-!
# Contractors

A contractor narrows a box without losing a point that it is asked to keep. It may prove that
there is no such point, and it may decline a box that it cannot do anything about.
-/
set_option autoImplicit false

namespace BoxSearch

inductive Narrowing (α : Type) where
  /-- Every point to keep lies in the smaller box. -/
  | narrowed (b : Box α)
  | noSolution
  | unavailable
  | failed (e : LpError)

class Contractor (κ : Type) (α : outParam Type) where
  name : κ → String
  contract : κ → Box α → Journaled α (Narrowing α × κ)
  /-- Only points with an objective of at most the given value are still to be kept. -/
  onIncumbent : κ → α → Journaled α κ
  /-- Forgets every incumbent and returns random draws to their start. -/
  restart : κ → Journaled α κ

end BoxSearch
