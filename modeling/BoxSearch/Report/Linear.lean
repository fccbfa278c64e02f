import BoxSearch.Linear.Certificate
import BoxSearch.Linear.Solver
import BoxSearch.Text.Number
import BoxSearch.Text.Record

/-!
# Written linear programs and solvers
-/
set_option autoImplicit false

namespace BoxSearch

def LpError.message : LpError → String
  | .rowLength expected found =>
    "row with " ++ toString found ++ " coefficients added to an LP with " ++ toString expected ++
      " columns"
  | .columnPosition index length =>
    "column index " ++ toString index ++ " out of bounds for " ++ toString length ++ " entries"
  | .rowPosition index length =>
    "row index " ++ toString index ++ " out of bounds for " ++ toString length ++ " entries"
  | .solver reason => "LP backend failure: " ++ reason

def Sense.toText : Sense → String
  | .minimize => "Minimize"
  | .maximize => "Maximize"

def LpStatus.toText : LpStatus → String
  | .optimal => "Optimal"
  | .infeasible => "Infeasible"
  | .unbounded => "Unbounded"
  | .limitReached => "LimitReached"
  | .unknown => "Unknown"

def LinearRow.toText (r : LinearRow Float) : String :=
  let terms := (r.coeffs.zipIdx.filter fun c => !(c.1 == 0)).map fun c =>
    Text.signed.write c.1 ++ "*x" ++ toString c.2 ++ " "
  Text.plain.write r.lower ++ " <= " ++ String.join terms ++ "<= " ++ Text.plain.write r.upper

def LinearProgram.sizeText (p : LinearProgram Float) (solver : String) : String :=
  "LinearSolver(" ++ solver ++ ", columns: " ++ toString p.columns.length ++ ", rows: " ++
    toString p.rows.length ++ ")"

def solverText (solver : String) : String := "LinearSolver(" ++ solver ++ ")"

end BoxSearch
