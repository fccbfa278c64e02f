import BoxSearch.Model.Evaluator

/-!
# Problems

A problem asks for the least value of an objective over the points that satisfy a list of
constraints `g x ≤ 0`, `g x ≥ 0` or `g x = 0`. Without an objective it only asks for such points.
-/
set_option autoImplicit false

namespace BoxSearch

inductive Comparison where
  | le
  | ge
  | eq
deriving DecidableEq

def Comparison.feasible {α : Type} [Scalar α] (op : Comparison) (tolerance : α) :
    Checked α (Interval α) :=
  match op with
  | .le => .ok ⟨-Scalar.infinity, 0⟩
  | .ge => .ok ⟨0, Scalar.infinity⟩
  | .eq => Interval.ofBounds (-tolerance) tolerance

structure Constraint (α : Type) where
  function : Evaluator α
  op : Comparison

namespace Constraint
variable {α : Type} [Scalar α]

def certainlySatisfied (c : Constraint α) (image : Interval α) (tolerance : α) :
    Checked α Bool :=
  if image.isEmpty then .ok false
  else return image.isSubset (← c.op.feasible tolerance)

def certainlyViolated (c : Constraint α) (image : Interval α) : Checked α Bool :=
  if image.isEmpty then .ok true
  else return !image.intersects (← c.op.feasible 0)

end Constraint

inductive ModelError where
  | functionArity (expected found : Nat)
  | domainDimension (expected found : Nat)

structure Problem (α : Type) where
  arity : Nat
  objective : Option (Evaluator α)
  constraints : List (Constraint α)

namespace Problem
variable {α : Type} [Scalar α]

def unconstrained (arity : Nat) : Problem α := ⟨arity, none, []⟩

def checkArity (p : Problem α) (f : Evaluator α) : Except ModelError Unit :=
  if f.arity = p.arity then .ok () else .error (.functionArity p.arity f.arity)

def minimize (p : Problem α) (f : Evaluator α) : Except ModelError (Problem α) := do
  p.checkArity f
  return { p with objective := some f }

def addConstraint (p : Problem α) (f : Evaluator α) (op : Comparison) :
    Except ModelError (Problem α) := do
  p.checkArity f
  return { p with constraints := p.constraints ++ [⟨f, op⟩] }

def constraint (p : Problem α) (i : Nat) : Checked α (Constraint α) := elementAt p.constraints i

def evalConstraints (p : Problem α) (b : Box α) : Checked α (Box α) :=
  return ⟨← p.constraints.mapM fun c => c.function.eval b⟩

def evalObjective (p : Problem α) (b : Box α) : Checked α (Interval α) :=
  match p.objective with
  | some f => f.eval b
  | none => .ok (if b.isEmpty then .empty else .entire)

def checkDomain (p : Problem α) (b : Box α) : Except ModelError Unit :=
  if b.dim = p.arity then .ok () else .error (.domainDimension p.arity b.dim)

end Problem

end BoxSearch
