import BoxSearch.Box

/-!
# Evaluators

An evaluator stands for a real function of finitely many variables. It encloses the range of the
function and of its partial derivatives over a box, and nothing else about the function is known
to the search. Affine functions have an evaluator of their own; any other function brings two
enclosures, and may declare that it is affine or which variables it reads.
-/
set_option autoImplicit false

namespace BoxSearch

structure Evaluator (α : Type) where
  arity : Nat
  /-- An enclosure of the range over a box. -/
  eval : Box α → Checked α (Interval α)
  evalPoint : List α → Checked α (Interval α)
  /-- One enclosure per variable of the partial derivatives over a box. -/
  gradient : Box α → Checked α (Box α)
  derivative : Nat → Box α → Checked α (Interval α)
  isLinear : Bool
  /-- False if the function is known not to read the variable. -/
  dependsOn : Nat → Checked α Bool

variable {α : Type} [Scalar α]

/-- The affine function `∑ coeffs j * x j + constant`. -/
structure Affine (α : Type) where
  coeffs : List α
  constant : α

namespace Affine

def ofCoeffs (coeffs : List α) (constant : α) : Checked α (Affine α) :=
  if Scalar.isFinite constant && coeffs.all Scalar.isFinite then .ok ⟨coeffs, constant⟩
  else .error .nonFiniteCoefficient

def projection (arity var : Nat) : Checked α (Affine α) := do
  reserve arity
  if var < arity then ofCoeffs ((List.replicate arity 0).set var 1) 0 else throw .position

def eval (f : Affine α) (b : Box α) : Checked α (Interval α) := do
  if b.isEmpty then return .empty
  (← b.dot f.coeffs).addScalar f.constant

def evaluator (f : Affine α) : Evaluator α where
  arity := f.coeffs.length
  eval := f.eval
  evalPoint p := do f.eval (← Box.point p)
  gradient _ := Box.point f.coeffs
  derivative var _ := do Interval.point (← elementAt f.coeffs var)
  isLinear := true
  dependsOn var := return !((← elementAt f.coeffs var) == 0)

end Affine

/-- A function given by an enclosure of its range and one of its gradient. -/
structure Enclosed (α : Type) where
  arity : Nat
  range : Box α → Checked α (Interval α)
  slopes : Box α → Checked α (Box α)
  isLinear : Bool
  /-- For each variable whether the function reads it, if that is declared. -/
  support : Option (List Bool)

namespace Enclosed

def withSupport (f : Enclosed α) (vars : List Nat) : Checked α (Enclosed α) := do
  reserve f.arity
  match vars.find? (fun v => decide (f.arity ≤ v)) with
  | some v => throw (.supportVariable v f.arity)
  | none => return { f with support := some ((List.range f.arity).map fun j => vars.contains j) }

def eval (f : Enclosed α) (b : Box α) : Checked α (Interval α) :=
  if b.isEmpty then .ok .empty else f.range b

def gradient (f : Enclosed α) (b : Box α) : Checked α (Box α) :=
  if b.isEmpty then Box.ofSize f.arity .empty else f.slopes b

def evaluator (f : Enclosed α) : Evaluator α where
  arity := f.arity
  eval := f.eval
  evalPoint p := do f.eval (← Box.point p)
  gradient := f.gradient
  derivative var b := do (← f.gradient b).component var
  isLinear := f.isLinear
  dependsOn var :=
    match f.support with
    | none => .ok true
    | some reads => elementAt reads var

end Enclosed

def Evaluator.shift (f : Evaluator α) (c : α) : Evaluator α :=
  { f with
    eval := fun b => do (← f.eval b).subScalar c
    evalPoint := fun p => do (← f.evalPoint p).subScalar c }

end BoxSearch
