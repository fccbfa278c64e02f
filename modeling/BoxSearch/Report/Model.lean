import BoxSearch.Model.Problem
import BoxSearch.Report.Values

/-!
# Written functions, constraints and problems
-/
set_option autoImplicit false

namespace BoxSearch

def Text.flag (b : Bool) : String := if b then "true" else "false"

def Comparison.toText : Comparison → String
  | .le => "<="
  | .ge => ">="
  | .eq => "="

def ModelError.message : ModelError → String
  | .functionArity expected found =>
    "function over " ++ toString found ++ " variables added to a system over " ++
      toString expected ++ " variables"
  | .domainDimension expected found =>
    "domain of dimension " ++ toString found ++ " does not match the " ++ toString expected ++
      " variables of the system"

variable {α : Type}

def Enclosed.describe (f : Enclosed α) : String :=
  Text.record "ClosureFunction"
    [("nb_var", toString f.arity), ("linear", Text.flag f.isLinear),
      ("support", Text.optional (f.support.map fun s => Text.list (s.map Text.flag)))]

def Constraint.describe (c : Constraint α) : String :=
  "Constraint(nb_var: " ++ toString c.function.arity ++ ", linear: " ++
    Text.flag c.function.isLinear ++ ", f(x) " ++ c.op.toText ++ " 0)"

def Problem.describe (p : Problem α) : String :=
  Text.record "System"
    [("nb_var", toString p.arity), ("has_objective", Text.flag p.objective.isSome),
      ("constraints", Text.list (p.constraints.map Constraint.describe))]

def Problem.toText (p : Problem α) : String :=
  "System(nb_var: " ++ toString p.arity ++ ", nb_ctr: " ++ toString p.constraints.length ++
    ", objective: " ++ (if p.objective.isSome then "yes" else "no") ++ ")"

def Problem.draftText (p : Problem α) : String :=
  "SystemBuilder(nb_var: " ++ toString p.arity ++ ", nb_ctr: " ++
    toString p.constraints.length ++ ")"

end BoxSearch
