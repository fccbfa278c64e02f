import BoxSearch.Linear.Solver

/-!
# Solvers with prepared answers

A scripted solver looks up its answers in a list instead of solving anything, so that a
contraction can be replayed answer by answer. A recording solver passes every question on and
remembers it.
-/
set_option autoImplicit false

namespace BoxSearch

def LinearProgram.firstObjective {α : Type} [Scalar α] (p : LinearProgram α) : Option Nat :=
  p.objective.findIdx? fun c => !(c == 0)

structure Reply (α : Type) where
  column : Nat
  sense : Sense
  repeats : Bool
  result : Except LpError (LpAnswer α)

/-- Each solve takes the first reply that fits its question. -/
structure ScriptedSolver (α : Type) where
  replies : List (Reply α)

namespace ScriptedSolver
variable {α : Type}

def take (column : Nat) (sense : Sense) :
    List (Reply α) → Except LpError (LpAnswer α) × List (Reply α)
  | [] => (.ok (.bare .unknown), [])
  | r :: rest =>
    if r.column = column && r.sense = sense then
      (r.result, if r.repeats then r :: rest else rest)
    else
      let (result, rest) := take column sense rest
      (result, r :: rest)

instance [Scalar α] : LpSolver (ScriptedSolver α) α where
  name _ := "Scripted"
  solve s p sense :=
    let (result, replies) := take (p.firstObjective.getD 0) sense s.replies
    (result, ⟨replies⟩)

end ScriptedSolver

/-- A solver with the questions that it was asked, the last one first. -/
structure RecordedSolver (σ : Type) where
  solver : σ
  questions : List (Nat × Sense)

instance {σ α : Type} [Scalar α] [LpSolver σ α] : LpSolver (RecordedSolver σ) α where
  name s := LpSolver.name s.solver
  solve s p sense :=
    let (result, solver) := LpSolver.solve s.solver p sense
    (result, ⟨solver, (p.firstObjective.getD 0, sense) :: s.questions⟩)

end BoxSearch
