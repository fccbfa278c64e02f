import BoxSearch.Linear.Certificate
import BoxSearch.Model.Problem
import BoxSearch.Random.Generator

/-!
# Linear relaxations from corners

Over a box a constraint is replaced by rows that hold wherever the constraint does. A row comes
from expanding the function at a corner of the box. At the lower bound of a variable the variable
can only grow, so the least slope gives an underestimate; at the upper bound it can only shrink,
so the greatest slope does. An underestimate serves the comparison `≤ 0` and an overestimate,
with the slopes exchanged, the comparison `≥ 0`.

The slopes are those of the gradient over the whole box or, variable by variable, of the partial
derivatives over the box in which the variables before are already fixed at their corner. Which
corners are expanded is decided by policies, each of which contributes its own.
-/
set_option autoImplicit false

namespace BoxSearch

inductive SlopeMode where
  /-- The gradient over the whole box. -/
  | taylor
  /-- Partial derivatives with the variables before fixed at the corner. -/
  | hansen
deriving DecidableEq

inductive CornerPolicy where
  | lower
  | upper
  | random
  /-- The corner opposite to the last random one. -/
  | opposite
  /-- The corner with the tightest estimate at the midpoint, or a random one if more than
  `cutoff` variables have a choice. -/
  | best (cutoff : Nat)
  /-- The corner that the signs of the slopes suggest, random where a sign is not definite. -/
  | monotone
  /-- A random corner and up to three that differ from it in a third of the variables. -/
  | spread
deriving DecidableEq

abbrev Corner := List Bool

inductive RowSide where
  | le
  | ge
deriving DecidableEq

def RowSide.takesLowerSlope (side : RowSide) (atUpper : Bool) : Bool :=
  match side with
  | .le => !atUpper
  | .ge => atUpper

def Comparison.rowSides : Comparison → List RowSide
  | .le => [.le]
  | .ge => [.ge]
  | .eq => [.le, .ge]

structure CornerLinearizer (α : Type) where
  mode : SlopeMode
  /-- Constraints with a wider slope are not relaxed. -/
  maxSlopeWidth : α
  /-- Variables with a slope of at most this width have no choice of a corner. -/
  linearTolerance : α
  seed : UInt64
  policies : List CornerPolicy

structure CornerDraws where
  generator : Random.Generator
  last : Option Corner

/-- The rows of a constraint over a box, or the proof that no point of the box satisfies it. -/
inductive Relaxed (α : Type) where
  | rows (rs : List (LinearRow α))
  | infeasible

structure Expansion (α : Type) where
  function : Evaluator α
  box : Box α
  gradient : Box α
  nonlinear : List Nat

inductive CornerRow (α : Type) where
  | row (r : LinearRow α)
  /-- The whole box satisfies the row, or it cannot be computed. -/
  | useless
  | infeasible

def Corner.flip (c : Corner) (vars : List Nat) : Corner :=
  vars.foldl (fun c j => c.modify j fun bit => !bit) c

namespace Expansion
variable {α : Type} [Scalar α]

def lowerCorner (ex : Expansion α) : Corner := List.replicate ex.box.dim false

def upperCorner (ex : Expansion α) : Corner := List.replicate ex.box.dim true

/-- The number that a variable is expanded at. If the slope is exact then any number of its range
will do. -/
def anchor (x : Interval α) (atUpper exactSlope : Bool) : Option α :=
  let preferred := if atUpper then x.hi else x.lo
  let other := if atUpper then x.lo else x.hi
  if Scalar.isFinite preferred then some preferred
  else if !exactSlope then none
  else if Scalar.isFinite other then some other
  else some 0

def anchors (ex : Expansion α) (corner : Corner) :
    Nat → List (Interval α) → Checked α (Option (List α))
  | _, [] => return some []
  | j, x :: xs => do
    let exactSlope ←
      if ← ex.function.dependsOn j then pure (← ex.gradient.component j).isDegenerate
      else pure true
    match anchor x (corner.getD j false) exactSlope with
    | none => return none
    | some v => return (← ex.anchors corner (j + 1) xs).map (v :: ·)

def point (ex : Expansion α) (corner : Corner) : Checked α (Option (List α)) :=
  ex.anchors corner 0 ex.box.components

def fixedSlopes (ex : Expansion α) : Nat → List α → Box α → Checked α (List (Interval α))
  | _, [], _ => return []
  | j, v :: vs, b => do
    let slope ←
      if ← ex.function.dependsOn j then ex.function.derivative j b else Interval.point 0
    let fixed ← b.setComponent j (← Interval.point v)
    return slope :: (← ex.fixedSlopes (j + 1) vs fixed)

def slopes (ex : Expansion α) (mode : SlopeMode) (point : List α) :
    Checked α (List (Interval α)) :=
  match mode with
  | .taylor => return ex.gradient.components
  | .hansen => ex.fixedSlopes 0 point ex.box

def coefficient (side : RowSide) (atUpper : Bool) (slope : Interval α) : α :=
  if side.takesLowerSlope atUpper then slope.lo else slope.hi

def coefficients (ex : Expansion α) (side : RowSide) (corner : Corner)
    (slopes : List (Interval α)) :
    Nat → List α → Interval α → Checked α (Option (List α × Interval α))
  | _, [], value => return some ([], value)
  | j, v :: vs, value => do
    if ← ex.function.dependsOn j then
      let slope ← elementAt slopes j
      if slope.isEmpty || slope.isUnbounded then return none
      let c := coefficient side (corner.getD j false) slope
      let value := value - (← (← Interval.point c).mulScalar v)
      return (← ex.coefficients side corner slopes (j + 1) vs value).map fun r => (c :: r.1, r.2)
    else
      return (← ex.coefficients side corner slopes (j + 1) vs value).map fun r => (0 :: r.1, r.2)

def rowAt (ex : Expansion α) (mode : SlopeMode) (side : RowSide) (corner : Corner) :
    Checked α (CornerRow α) := do
  match ← ex.point corner with
  | none => return .useless
  | some point =>
    let slopes ← ex.slopes mode point
    let value ← ex.function.evalPoint point
    match ← ex.coefficients side corner slopes 0 point value with
    | none => return .useless
    | some (coeffs, rest) =>
      if rest.isEmpty then return .useless
      let row : LinearRow α := match side with
        | .le => .le coeffs (-rest).hi
        | .ge => .ge coeffs (-rest).lo
      if !Scalar.isFinite row.lower && !Scalar.isFinite row.upper then return .useless
      if ← row.isCrossed ex.box then return .infeasible
      if ← row.isImplied ex.box then return .useless
      return .row row

def rowsAt (ex : Expansion α) (mode : SlopeMode) (side : RowSide) :
    List Corner → Checked α (Relaxed α)
  | [] => return .rows []
  | corner :: corners => do
    match ← ex.rowAt mode side corner with
    | .infeasible => return .infeasible
    | .useless => ex.rowsAt mode side corners
    | .row r =>
      match ← ex.rowsAt mode side corners with
      | .infeasible => return .infeasible
      | .rows rs => return .rows (r :: rs)

def estimate (ex : Expansion α) (side : RowSide) (corner : Corner) :
    Nat → List α → List α → α → Checked α α
  | j, m :: ms, v :: vs, acc => do
    let acc ←
      if ← ex.function.dependsOn j then
        let slope ← ex.gradient.component j
        pure (acc + coefficient side (corner.getD j false) slope * (m - v))
      else pure acc
    ex.estimate side corner (j + 1) ms vs acc
  | _, _, _, acc => return acc

def cornerOf (ex : Expansion α) (mask : Nat) : Corner :=
  ex.nonlinear.zipIdx.foldl (fun c v => c.set v.1 (mask.testBit v.2)) ex.lowerCorner

def score (ex : Expansion α) (side : RowSide) (middle : List α) (corner : Corner) :
    Checked α (Option α) := do
  match ← ex.point corner with
  | none => return none
  | some point =>
    let value ← ex.function.evalPoint point
    if value.isEmpty then return none
    return some (← ex.estimate side corner 0 middle point (← value.mid))

def bestCorner (ex : Expansion α) (side : RowSide) : Checked α Corner := do
  let middle ← ex.box.mid
  let step := fun (best : Option (α × Corner)) (mask : Nat) => do
    let corner := ex.cornerOf mask
    match ← ex.score side middle corner, best with
    | none, _ => pure best
    | some s, none => pure (some (s, corner))
    | some s, some (t, c) =>
      let better := match side with
        | .le => decide (t < s)
        | .ge => decide (s < t)
      pure (if better then some (s, corner) else some (t, c))
  let best ← (List.range (Nat.pow 2 ex.nonlinear.length)).foldlM step none
  return (best.map Prod.snd).getD ex.lowerCorner

def tossed : List Nat → Corner → Random.Generator → Corner × Random.Generator
  | [], corner, g => (corner, g)
  | j :: js, corner, g =>
    let (bit, g) := g.coin
    tossed js (corner.set j bit) g

def randomCorner (ex : Expansion α) (draws : CornerDraws) : Corner × CornerDraws :=
  let (corner, generator) := tossed ex.nonlinear ex.lowerCorner draws.generator
  (corner, ⟨generator, some corner⟩)

def suggestedEnd (side : RowSide) (slope : Interval α) : Option Bool :=
  match side with
  | .le => if 0 < slope.lo then some false else if slope.hi < 0 then some true else none
  | .ge => if slope.hi < 0 then some false else if 0 < slope.lo then some true else none

def monotoneCorner (ex : Expansion α) (side : RowSide) :
    List Nat → Corner → Random.Generator → Checked α (Corner × Random.Generator)
  | [], corner, g => return (corner, g)
  | j :: js, corner, g => do
    match suggestedEnd side (← ex.gradient.component j) with
    | some bit => ex.monotoneCorner side js (corner.set j bit) g
    | none =>
      let (bit, g) := g.coin
      ex.monotoneCorner side js (corner.set j bit) g

def lastCorner (ex : Expansion α) (draws : CornerDraws) : Corner × CornerDraws :=
  match draws.last with
  | some corner => if corner.length = ex.box.dim then (corner, draws) else ex.randomCorner draws
  | none => ex.randomCorner draws

def third (ex : Expansion α) (i : Nat) : List Nat :=
  let k := ex.nonlinear.length
  (ex.nonlinear.take ((i + 1) * k / 3)).drop (i * k / 3)

def corners (ex : Expansion α) (policy : CornerPolicy) (side : RowSide) (draws : CornerDraws) :
    Checked α (List Corner × CornerDraws) := do
  match policy with
  | .lower => return ([ex.lowerCorner], draws)
  | .upper => return ([ex.upperCorner], draws)
  | .random =>
    let (corner, draws) := ex.randomCorner draws
    return ([corner], draws)
  | .opposite =>
    let (corner, draws) := ex.lastCorner draws
    return ([corner.flip ex.nonlinear], draws)
  | .best cutoff =>
    if ex.nonlinear.length > cutoff || ex.nonlinear.length ≥ 64 then
      let (corner, draws) := ex.randomCorner draws
      return ([corner], draws)
    else return ([← ex.bestCorner side], draws)
  | .monotone =>
    let (corner, generator) ←
      ex.monotoneCorner side ex.nonlinear ex.lowerCorner draws.generator
    return ([corner], { draws with generator })
  | .spread =>
    let (corner, draws) := ex.randomCorner draws
    if ex.nonlinear.length < 3 then return ([corner, corner.flip ex.nonlinear], draws)
    else return (corner :: [0, 1, 2].map fun i => corner.flip (ex.third i), draws)

def allCorners (ex : Expansion α) (side : RowSide) :
    List CornerPolicy → List Corner → CornerDraws → Checked α (List Corner × CornerDraws)
  | [], found, draws => return (found, draws)
  | policy :: policies, found, draws => do
    let (new, draws) ← ex.corners policy side draws
    let found := new.foldl (fun acc c => if acc.contains c then acc else acc ++ [c]) found
    ex.allCorners side policies found draws

end Expansion

namespace CornerLinearizer
variable {α : Type} [Scalar α]

def ofPolicies (policies : List CornerPolicy) : Checked α (CornerLinearizer α) :=
  if policies.isEmpty then .error .noCornerPolicy
  else .ok ⟨.taylor, 1e6, 1e-10, 1, policies⟩

def standard : CornerLinearizer α := ⟨.taylor, 1e6, 1e-10, 1, [.lower, .upper]⟩

def draws (l : CornerLinearizer α) : CornerDraws := ⟨.ofSeed l.seed, none⟩

def nonlinearVars (l : CornerLinearizer α) (f : Evaluator α) (gradient : Box α) :
    Nat → Nat → Checked α (Option (List Nat))
  | 0, _ => return some []
  | n + 1, j => do
    if ← f.dependsOn j then
      let slope ← gradient.component j
      if slope.isEmpty || slope.isUnbounded || decide (l.maxSlopeWidth < slope.width) then
        return none
      let rest ← l.nonlinearVars f gradient n (j + 1)
      return if l.linearTolerance < slope.width then rest.map (j :: ·) else rest
    else l.nonlinearVars f gradient n (j + 1)

def relaxSides (l : CornerLinearizer α) (ex : Expansion α) (linear : Bool) :
    List RowSide → CornerDraws → Checked α (Relaxed α × CornerDraws)
  | [], draws => return (.rows [], draws)
  | side :: sides, draws => do
    let (corners, draws) ←
      if linear then pure ([ex.lowerCorner], draws) else ex.allCorners side l.policies [] draws
    match ← ex.rowsAt l.mode side corners with
    | .infeasible => return (.infeasible, draws)
    | .rows rs =>
      match ← l.relaxSides ex linear sides draws with
      | (.infeasible, draws) => return (.infeasible, draws)
      | (.rows more, draws) => return (.rows (rs ++ more), draws)

def relax (l : CornerLinearizer α) (f : Evaluator α) (op : Comparison) (b : Box α)
    (draws : CornerDraws) : Checked α (Relaxed α × CornerDraws) := do
  if b.isEmpty then return (.infeasible, draws)
  let image ← f.eval b
  let feasible ← op.feasible 0
  if image.isEmpty || !image.intersects feasible then return (.infeasible, draws)
  if image.isSubset feasible then return (.rows [], draws)
  let gradient ← f.gradient b
  match ← l.nonlinearVars f gradient b.dim 0 with
  | none => return (.rows [], draws)
  | some nonlinear =>
    let ex : Expansion α := ⟨f, b, gradient, nonlinear⟩
    l.relaxSides ex (f.isLinear || nonlinear.isEmpty) op.rowSides draws

/-- Appends the rows of a relaxation to a batch and counts them. There is no batch when no point
of the box compares to zero as required. -/
def linearize (l : CornerLinearizer α) (f : Evaluator α) (op : Comparison) (b : Box α)
    (batch : List (LinearRow α)) (draws : CornerDraws) :
    Checked α (Option (Nat × List (LinearRow α)) × CornerDraws) := do
  match ← l.relax f op b draws with
  | (.infeasible, draws) => return (none, draws)
  | (.rows rs, draws) => return (some (rs.length, batch ++ rs), draws)

end CornerLinearizer

end BoxSearch
