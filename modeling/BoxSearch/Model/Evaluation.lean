import BoxSearch.Model.Problem

/-!
# Boxes under evaluation

The search asks for the same images of a box several times. A plain box computes them anew each
time; a cached box keeps every image until its domain changes, so that what it keeps always
describes the current domain. Each answer comes with a log of the functions that were evaluated
to give it.
-/
set_option autoImplicit false

namespace BoxSearch

inductive Target where
  | objective
  | constraint (i : Nat)
deriving DecidableEq

/-- Computations that log the evaluated functions in order. -/
abbrev Evaluation (α β : Type) := StateT (List Target) (Except (Fault α)) β

variable {α : Type} [Scalar α]

def Evaluation.log (t : Target) : Evaluation α Unit := modify (· ++ [t])

def Evaluation.value {β : Type} (e : Evaluation α β) : Checked α β := e.run' []

def Problem.measureObjective (p : Problem α) (b : Box α) : Evaluation α (Interval α) := do
  if p.objective.isSome then Evaluation.log .objective
  p.evalObjective b

def Problem.measureConstraint (p : Problem α) (b : Box α) (i : Nat) :
    Evaluation α (Interval α) := do
  let c ← p.constraint i
  Evaluation.log (.constraint i)
  c.function.eval b

/-- A box whose images can be asked for, with the state that it keeps for them. -/
class Evaluable (β : Type) (α : outParam Type) where
  domain : β → Box α
  objectiveImage : Problem α → β → Evaluation α (Interval α × β)
  constraintImage : Problem α → Nat → β → Evaluation α (Interval α × β)

namespace Evaluable
variable {β : Type} [Evaluable β α]

/-- From constraint `i` on, each of the next `n` constraints is satisfied by every point of the
domain. The first that is not ends the test. -/
def allSatisfied (p : Problem α) (tolerance : α) : Nat → Nat → β → Evaluation α (Bool × β)
  | 0, _, b => return (true, b)
  | n + 1, i, b => do
    let (image, b) ← constraintImage p i b
    if ← (← p.constraint i).certainlySatisfied image tolerance then
      allSatisfied p tolerance n (i + 1) b
    else return (false, b)

def certainlyFeasible (p : Problem α) (tolerance : α) (b : β) : Evaluation α (Bool × β) :=
  allSatisfied p tolerance p.constraints.length 0 b

/-- From constraint `i` on, one of the next `n` constraints is violated by every point of the
domain. The first such constraint ends the test. -/
def anyViolated (p : Problem α) : Nat → Nat → β → Evaluation α (Bool × β)
  | 0, _, b => return (false, b)
  | n + 1, i, b => do
    let (image, b) ← constraintImage p i b
    if ← (← p.constraint i).certainlyViolated image then return (true, b)
    else anyViolated p n (i + 1) b

def certainlyInfeasible (p : Problem α) (b : β) : Evaluation α (Bool × β) :=
  if (domain b).isEmpty then return (true, b)
  else anyViolated p p.constraints.length 0 b

end Evaluable

structure PlainBox (α : Type) where
  domain : Box α

instance : Evaluable (PlainBox α) α where
  domain b := b.domain
  objectiveImage p b := return (← p.measureObjective b.domain, b)
  constraintImage p i b := return (← p.measureConstraint b.domain i, b)

/-- A box that remembers the images of its domain. -/
structure CachedBox (α : Type) where
  domain : Box α
  objective : Option (Interval α)
  constraints : List (Option (Interval α))

namespace CachedBox

def ofDomain (domain : Box α) : CachedBox α := ⟨domain, none, []⟩

def modifyDomain (b : CachedBox α) (f : Box α → Box α) : CachedBox α := ofDomain (f b.domain)

def objectiveImage (p : Problem α) (b : CachedBox α) :
    Evaluation α (Interval α × CachedBox α) := do
  match b.objective with
  | some image => return (image, b)
  | none =>
    let image ← p.measureObjective b.domain
    return (image, { b with objective := some image })

def slots (p : Problem α) (b : CachedBox α) : List (Option (Interval α)) :=
  if b.constraints.length = p.constraints.length then b.constraints
  else List.replicate p.constraints.length none

def constraintImage (p : Problem α) (i : Nat) (b : CachedBox α) :
    Evaluation α (Interval α × CachedBox α) := do
  let slots := b.slots p
  match ← (elementAt slots i : Checked α (Option (Interval α))) with
  | some image => return (image, { b with constraints := slots })
  | none =>
    let image ← p.measureConstraint b.domain i
    return (image, { b with constraints := slots.set i (some image) })

instance : Evaluable (CachedBox α) α where
  domain b := b.domain
  objectiveImage := objectiveImage
  constraintImage := constraintImage

end CachedBox

end BoxSearch
