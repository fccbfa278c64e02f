/-!
# The simplex method in exact arithmetic

The method works on inequalities `g k · x ≤ h k` and finds the least `q · x` together with
nonnegative multipliers `z` of the inequalities whose combination proves the value,
`∑ z k * g k = -q`. The equations that the multipliers satisfy form a tableau with one row per
variable and one column per inequality; the cost of a column is the slack of its inequality at a
point `x` that the tableau carries along.

First the columns of negative cost enter until every slack is nonnegative, or until a combination
of inequalities with a negative right-hand side appears, which no point satisfies. Then the rows
of negative value leave until all multipliers are nonnegative, or until a row shows that no
multipliers exist and the objective has no lower bound. Both choose the least index among the
candidates, so that no tableau returns.
-/
set_option autoImplicit false

namespace BoxSearch.Simplex

structure Row where
  basic : Option Nat
  entries : List Rat

/-- Rows and costs have one entry per inequality, one per variable, and the value at the end. The
entries of the variables record how the costs came about, so that the point can be read off. -/
structure Tableau where
  inequalities : Nat
  rows : List Row
  costs : List Rat

def entry (xs : List Rat) (k : Nat) : Rat := xs.getD k 0

def isZero (x : Rat) : Bool := x.num == 0

def isNegative (x : Rat) : Bool := Rat.blt x 0

def eliminate (row : List Rat) (k : Nat) (xs : List Rat) : List Rat :=
  let factor := entry xs k
  if isZero factor then xs else List.zipWith (fun x r => x - factor * r) xs row

namespace Tableau

def arity (t : Tableau) : Nat := t.rows.length

def value (t : Tableau) (row : Row) : Rat := entry row.entries (t.inequalities + t.arity)

def pivot (t : Tableau) (i k : Nat) : Tableau :=
  match t.rows[i]? with
  | none => t
  | some row =>
    let p := entry row.entries k
    let scaled := row.entries.map fun x => x / p
    let rows := t.rows.map fun r => { r with entries := eliminate scaled k r.entries }
    { t with
      rows := rows.set i ⟨some k, scaled⟩
      costs := eliminate scaled k t.costs }

def ofInequalities (inequalities : List (List Rat × Rat)) (q : List Rat) : Tableau where
  inequalities := inequalities.length
  rows := q.zipIdx.map fun c =>
    ⟨none, inequalities.map (fun g => entry g.1 c.2) ++
      (q.zipIdx.map fun d => if d.2 = c.2 then 1 else 0) ++ [-c.1]⟩
  costs := inequalities.map Prod.snd ++ q.map (fun _ => 0) ++ [0]

def columnsWhere (t : Tableau) (test : Nat → Bool) : List Nat :=
  (List.range t.inequalities).filter test

def solveRows (t : Tableau) : Tableau :=
  (List.range t.arity).foldl (fun t i =>
    match t.rows[i]? with
    | none => t
    | some row =>
      match t.columnsWhere fun k => !isZero (entry row.entries k) with
      | [] => t
      | k :: _ => t.pivot i k) t

def leaving (t : Tableau) (test : Row → Bool) : Option Nat :=
  let step := fun (best : Option (Nat × Nat)) (r : Row × Nat) =>
    match r.1.basic with
    | none => best
    | some b =>
      if test r.1 && best.all fun c => decide (b < c.1) then some (b, r.2) else best
  (t.rows.zipIdx.foldl step none).map Prod.snd

def entering (t : Tableau) (row : Row) : Option Nat :=
  let step := fun (best : Option (Rat × Nat)) (k : Nat) =>
    let ratio := entry t.costs k / -(entry row.entries k)
    if best.all fun c => Rat.blt ratio c.1 then some (ratio, k) else best
  ((t.columnsWhere fun k => isNegative (entry row.entries k)).foldl step none).map Prod.snd

def multipliers (t : Tableau) (valueOf : Row → Rat) : List Rat :=
  (List.range t.inequalities).map fun k =>
    ((t.rows.find? fun r => r.basic == some k).map valueOf).getD 0

def point (t : Tableau) : List Rat :=
  (List.range t.arity).map fun j => -(entry t.costs (t.inequalities + j))

end Tableau

inductive Outcome where
  | optimal (point multipliers : List Rat)
  | infeasible (multipliers : List Rat)
  | unbounded
  | limit

def reachPoint (t : Tableau) : Nat → Except Outcome (Nat × Tableau)
  | 0 => .error .limit
  | pivots + 1 =>
    match t.columnsWhere fun k => isNegative (entry t.costs k) with
    | [] => .ok (pivots, t)
    | k :: _ =>
      match t.leaving fun r => isNegative (-(entry r.entries k)) with
      | some i => reachPoint (t.pivot i k) pivots
      | none =>
        .error (.infeasible
          ((t.multipliers fun r => -(entry r.entries k)).set k 1))

def reachMultipliers (t : Tableau) : Nat → Outcome
  | 0 => .limit
  | pivots + 1 =>
    match t.leaving fun r => isNegative (t.value r) with
    | none => .optimal t.point (t.multipliers t.value)
    | some i =>
      match t.rows[i]?.bind t.entering with
      | some k => reachMultipliers (t.pivot i k) pivots
      | none => .unbounded

def minimize (inequalities : List (List Rat × Rat)) (q : List Rat) (pivots : Nat) : Outcome :=
  let t := (Tableau.ofInequalities inequalities q).solveRows
  match reachPoint t pivots with
  | .error outcome => outcome
  | .ok (pivots, t) =>
    if t.rows.any fun r => r.basic.isNone && !isZero (t.value r) then .unbounded
    else reachMultipliers t (pivots + 1)

end BoxSearch.Simplex
