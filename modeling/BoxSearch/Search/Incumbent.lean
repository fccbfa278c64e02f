import BoxSearch.Model.Evaluation
import BoxSearch.Random.Generator
import BoxSearch.Search.Config

/-!
# The incumbent

The upper end of the bracket falls only to the value of a point whose constraint enclosures are
certainly satisfied. Within a cell such points are looked for at the midpoint, at random points,
and on a line from the best of these against the gradient, in steps that halve until one improves
or the shortest is reached. Without constraints, variables along which the objective is monotone
over the cell are first pinned to the better end.
-/
set_option autoImplicit false

namespace BoxSearch

structure Candidate (α : Type) where
  value : α
  point : List α

structure IncumbentFinder (α : Type) where
  samples : Nat
  probeTolerance : α
  equalityTolerance : α
  seed : UInt64
  generator : Random.Generator

namespace IncumbentFinder
variable {α : Type}

def ofSettings (samples : Nat) (probeTolerance equalityTolerance : α) (seed : UInt64) :
    IncumbentFinder α :=
  ⟨samples, probeTolerance, equalityTolerance, seed, .ofSeed seed⟩

def ofConfig (config : SearchConfig α) : IncumbentFinder α :=
  ofSettings config.samples config.probeTolerance config.equalityTolerance config.seed

def reseed (f : IncumbentFinder α) : IncumbentFinder α :=
  { f with generator := .ofSeed f.seed }

variable [Scalar α]

/-- Each component with a slope of one sign shrinks to its lower end under a nonnegative slope
and to its upper end under a nonpositive one, if that end is finite. -/
def pinned : List (Interval α) → List (Interval α) → List (Interval α)
  | x :: xs, g :: gs =>
    (if 0 ≤ g.lo ∧ Scalar.isFinite x.lo then ⟨x.lo, x.lo⟩
      else if g.hi ≤ 0 ∧ Scalar.isFinite x.hi then ⟨x.hi, x.hi⟩
      else x) :: pinned xs gs
  | xs, [] => xs
  | [], _ => []

def pinMonotone (objective : Evaluator α) (b : Box α) : Checked α (Box α) := do
  let gradient ← objective.gradient b
  if gradient.isEmpty then return b
  return ⟨pinned b.components gradient.components⟩

def improvement (f : IncumbentFinder α) (p : Problem α) (objective : Evaluator α)
    (point : List α) (bound : α) : Checked α (Option α) := do
  let value ← objective.evalPoint point
  if value.isEmpty || !decide (value.hi < bound) then return none
  if p.constraints.isEmpty then return some value.hi
  let b : PlainBox α := ⟨← Box.point point⟩
  let (feasible, _) ← (Evaluable.certainlyFeasible p f.equalityTolerance b).value
  return if feasible then some value.hi else none

/-- A random coordinate; a component without a finite positive width gives its representative
point and draws nothing. -/
def sampleComponent (x : Interval α) (g : Random.Generator) : Checked α (α × Random.Generator) :=
  if x.lo < x.hi ∧ Scalar.isFinite (x.hi - x.lo) then
    match g.uniform x.lo x.hi with
    | some drawn => .ok drawn
    | none => .error .drawRange
  else return (← x.mid, g)

def samplePoint : List (Interval α) → Random.Generator → Checked α (List α × Random.Generator)
  | [], g => .ok ([], g)
  | x :: xs, g => do
    let (v, g) ← sampleComponent x g
    let (vs, g) ← samplePoint xs g
    return (v :: vs, g)

def consider (f : IncumbentFinder α) (p : Problem α) (objective : Evaluator α)
    (state : Option (Candidate α) × α) (point : List α) :
    Checked α (Option (Candidate α) × α) := do
  match ← f.improvement p objective point state.2 with
  | some value => return (some ⟨value, point⟩, value)
  | none => return state

def considerSamples (f : IncumbentFinder α) (p : Problem α) (objective : Evaluator α)
    (region : Box α) : Nat → Option (Candidate α) × α → Random.Generator →
      Checked α ((Option (Candidate α) × α) × Random.Generator)
  | 0, state, g => .ok (state, g)
  | n + 1, state, g => do
    let (point, g) ← samplePoint region.components g
    considerSamples f p objective region n (← f.consider p objective state point) g

/-- The longest step along a direction that stays in the region, infinite if none leaves it. -/
def longestStep : List α → List α → List (Interval α) → α → α
  | d :: ds, x :: xs, r :: rs, longest =>
    longestStep ds xs rs
      (if 0 < d then Scalar.min longest ((r.hi - x) / d)
        else if d < 0 then Scalar.min longest ((r.lo - x) / d)
        else longest)
  | _, _, _, longest => longest

def stepPoint (step : α) : List α → List α → List (Interval α) → List α
  | x :: xs, d :: ds, r :: rs =>
    Scalar.clamp r.lo r.hi (x + step * d) :: stepPoint step xs ds rs
  | _, _, _ => []

/-- The first improving point at a step of `factor`, `factor / 2`, ... times the longest one,
down to the tolerance. -/
def halveSteps (f : IncumbentFinder α) (p : Problem α) (objective : Evaluator α)
    (region : Box α) (start : Candidate α) (direction : List α) (longest : α) :
    Nat → α → Checked α (Candidate α)
  | 0, _ => .error .budget
  | n + 1, factor => do
    if f.probeTolerance ≤ factor then
      let point := stepPoint (factor * longest) start.point direction region.components
      match ← f.improvement p objective point start.value with
      | some value => return ⟨value, point⟩
      | none => halveSteps f p objective region start direction longest n (factor * 0.5)
    else return start

def probeLine (f : IncumbentFinder α) (p : Problem α) (objective : Evaluator α)
    (region : Box α) (halvings : Nat) (start : Candidate α) : Checked α (Candidate α) := do
  let gradient ← objective.gradient (← Box.point start.point)
  if gradient.isEmpty || gradient.components.any Interval.isUnbounded then return start
  let direction := (← gradient.mid).map fun g => -g
  let longest := longestStep direction start.point region.components Scalar.infinity
  if !Scalar.isFinite longest || decide (longest ≤ 0) then return start
  f.halveSteps p objective region start direction longest halvings 1

def find (f : IncumbentFinder α) (p : Problem α) (halvings : Nat) (b : Box α) (loup : α) :
    Checked α (Option (Candidate α) × IncumbentFinder α) := do
  match p.objective with
  | none => return (none, f)
  | some objective =>
    if b.isEmpty then return (none, f)
    let region ← if p.constraints.isEmpty then pinMonotone objective b else pure b
    let state ← f.consider p objective (none, loup) (← region.mid)
    let ((best, _), generator) ←
      f.considerSamples p objective region f.samples state f.generator
    let f := { f with generator }
    match best with
    | none => return (none, f)
    | some start => return (some (← f.probeLine p objective region halvings start), f)

end IncumbentFinder

end BoxSearch
