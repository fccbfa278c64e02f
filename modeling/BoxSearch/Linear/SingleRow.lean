import BoxSearch.Linear.Scripted

/-!
# Bounds from single rows

The cheapest bound of one variable over a program uses its column bounds and at most one row: the
row is solved for the variable, and every other variable takes the end of its column that makes
the bound weakest. The best row gives the only multiplier that is not zero.
-/
set_option autoImplicit false

namespace BoxSearch

structure SingleRowSolver (α : Type) where

namespace SingleRowSolver
variable {α : Type} [Scalar α]

def least (factor : α) (c : LinearColumn α) : α :=
  if 0 < factor then factor * c.lower else factor * c.upper

/-- Adds the least values of the columns other than `var`, whose coefficients are the negated
multiples of a row. -/
def addOthers (var : Nat) (y : α) : Nat → List (LinearColumn α) → List α → α → α
  | k, c :: cs, a :: as, bound =>
    let factor := -(y * a)
    let bound := if k = var || factor == 0 then bound else bound + least factor c
    addOthers var y (k + 1) cs as bound
  | _, _, _, bound => bound

def rowBound (columns : List (LinearColumn α)) (var : Nat) (factor : α) (r : LinearRow α) :
    Option (α × α) :=
  let a := r.coeffs.getD var 0
  if a == 0 then none
  else
    let y := factor / a
    let side := if 0 < y then r.lower else r.upper
    if Scalar.isFinite side then some (addOthers var y 0 columns r.coeffs (y * side), y) else none

structure Best (α : Type) where
  bound : α
  row : Option (Nat × α)

def improve (columns : List (LinearColumn α)) (var : Nat) (factor : α) (best : Best α)
    (r : LinearRow α × Nat) : Best α :=
  match rowBound columns var factor r.1 with
  | some (bound, y) => if best.bound < bound then ⟨bound, some (r.2, y)⟩ else best
  | none => best

def answer (p : LinearProgram α) (sense : Sense) : LpAnswer α :=
  let sign : α := match sense with
    | .minimize => 1
    | .maximize => -1
  match p.firstObjective with
  | none => .bare .unknown
  | some var =>
    match p.columns[var]? with
    | none => .bare .unknown
    | some column =>
      let factor := sign * column.objective
      let best := p.rows.zipIdx.foldl (improve p.columns var factor) ⟨least factor column, none⟩
      let zeros := p.rows.map fun _ => (0 : α)
      { status := .optimal
        value := some (sign * best.bound)
        primal := none
        dual := some (match best.row with
          | some (i, y) => zeros.set i y
          | none => zeros)
        direction := none }

instance : LpSolver (SingleRowSolver α) α where
  name _ := "OneRow"
  solve s p sense := (.ok (answer p sense), s)

end SingleRowSolver

end BoxSearch
