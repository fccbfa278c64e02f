import BoxSearch.Binary64.Directed
import BoxSearch.Binary64.Rational
import BoxSearch.Exchange.Simplex
import BoxSearch.Report.Linear

/-!
# The built-in solver

The sides of the rows and the bounds of the columns that are not too far out are the
inequalities of an exact simplex method. The multipliers of the two sides of a row are folded
into one signed multiplier per row; those of the column bounds are reduced costs and are not
reported. Only the final answer is rounded.
-/
set_option autoImplicit false

namespace BoxSearch

structure SimplexSolver where
  maxIterations : Nat
  /-- In seconds. -/
  timeLimit : Float

namespace SimplexSolver

def standard : SimplexSolver := ⟨100, Binary64.infinity⟩

def setupIterations : Nat := 5

def setupTime : Float := 1e-6

inductive Origin where
  | rowUpper (i : Nat)
  | rowLower (i : Nat)
  | bound

structure Inequality where
  origin : Origin
  coeffs : List Rat
  limit : Rat

def farOut : Float := 1e20

def countsAbove (limit : Float) : Bool := limit.isFinite && decide (limit < farOut)

def countsBelow (limit : Float) : Bool := limit.isFinite && decide (-farOut < limit)

def upperInequality (origin : Origin) (coeffs : List Rat) (limit : Float) : List Inequality :=
  if countsAbove limit then [⟨origin, coeffs, Binary64.toRat limit⟩] else []

def lowerInequality (origin : Origin) (coeffs : List Rat) (limit : Float) : List Inequality :=
  if countsBelow limit then [⟨origin, coeffs.map fun c => -c, -Binary64.toRat limit⟩] else []

def inequalities (p : LinearProgram Float) : List Inequality :=
  let n := p.columns.length
  let rows := p.rows.zipIdx.flatMap fun r =>
    let coeffs := r.1.coeffs.map Binary64.toRat
    upperInequality (.rowUpper r.2) coeffs r.1.upper ++
      lowerInequality (.rowLower r.2) coeffs r.1.lower
  let columns := p.columns.zipIdx.flatMap fun c =>
    let coeffs := (List.replicate n (0 : Rat)).set c.2 1
    upperInequality .bound coeffs c.1.upper ++ lowerInequality .bound coeffs c.1.lower
  rows ++ columns

def foldMultipliers (rowCount : Nat) (origins : List Origin) (z : List Rat) : List Rat :=
  (origins.zip z).foldl (fun y o =>
    match o.1 with
    | .rowUpper i => y.modify i fun v => v - o.2
    | .rowLower i => y.modify i fun v => v + o.2
    | .bound => y) (List.replicate rowCount 0)

def answerUnconstrained (p : LinearProgram Float) : LpAnswer Float :=
  if p.objective.all (· == 0) then
    { status := .optimal
      value := some 0
      primal := some (p.columns.map fun _ => 0)
      dual := some (p.rows.map fun _ => 0)
      direction := none }
  else .bare .unbounded

def isActive (r : LinearRow Float) : Bool := countsBelow r.lower || countsAbove r.upper

def isFiniteProgram (p : LinearProgram Float) : Bool :=
  p.objective.all Float.isFinite &&
    (p.rows.filter isActive).all fun r => r.coeffs.all Float.isFinite

def crossedRow? (p : LinearProgram Float) : Option Nat :=
  p.rows.findIdx? fun r => isActive r && !decide (r.lower ≤ r.upper)

/-- A direction of infeasibility. A row with no value between its sides is refuted by itself;
otherwise the combination that the method found counts. -/
def direction (p : LinearProgram Float) (combination : List Float) : List Float :=
  match crossedRow? p with
  | some i => (p.rows.map fun _ => 0).set i 1
  | none => combination

def isStopped (s : SimplexSolver) : Bool :=
  s.maxIterations = 0 || decide (s.timeLimit < setupTime)

def answer (s : SimplexSolver) (p : LinearProgram Float) (sense : Sense) : LpAnswer Float :=
  let gs := inequalities p
  if gs.isEmpty then answerUnconstrained p
  else if s.isStopped then .bare .limitReached
  else if !isFiniteProgram p then .bare .unknown
  else if s.maxIterations < setupIterations then .bare .limitReached
  else
    let q := p.objective.map fun c =>
      match sense with
      | .minimize => Binary64.toRat c
      | .maximize => -Binary64.toRat c
    let pivots := s.maxIterations * (gs.length + q.length + 1)
    let fold := fun (z : List Rat) =>
      (foldMultipliers p.rows.length (gs.map Inequality.origin) z).map Binary64.ofRat
    match Simplex.minimize (gs.map fun g => (g.coeffs, g.limit)) q pivots with
    | .optimal x z =>
      let primal := x.map Binary64.ofRat
      { status := .optimal
        value := some ((List.zipWith (· * ·) p.objective primal).foldl (· + ·) 0)
        primal := some primal
        dual := some (fold z)
        direction := none }
    | .infeasible z => { LpAnswer.bare .infeasible with direction := some (direction p (fold z)) }
    | .unbounded => .bare .unbounded
    | .limit => .bare .limitReached

instance : LpSolver SimplexSolver Float where
  name _ := "Clarabel"
  solve s p sense := (.ok (s.answer p sense), s)

def describe (s : SimplexSolver) (p : LinearProgram Float) (status : Option LpStatus) : String :=
  Text.record "ClarabelSolver"
    [("columns", toString p.columns.length), ("rows", toString p.rows.length),
      ("max_iter", toString s.maxIterations), ("time_limit", Text.literal.write s.timeLimit),
      ("status", Text.optional (status.map LpStatus.toText))]

end SimplexSolver

end BoxSearch
