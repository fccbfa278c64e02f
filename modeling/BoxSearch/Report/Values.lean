import BoxSearch.Binary64.Directed
import BoxSearch.Box
import BoxSearch.Text.Number
import BoxSearch.Text.Record

/-!
# Written intervals, boxes and faults
-/
set_option autoImplicit false

namespace BoxSearch

def Interval.toText (x : Interval Float) : String :=
  if x.isEmpty then "[empty]"
  else "[" ++ Text.plain.write x.lo ++ ", " ++ Text.plain.write x.hi ++ "]"

def Box.toText (b : Box Float) : String :=
  "(" ++ String.intercalate " ; " (b.components.map Interval.toText) ++ ")"

def Fault.message : Fault Float → Option String
  | .invalidBounds => some "Invalid interval: bounds must satisfy lb <= ub"
  | .nonFinitePoint x =>
    some ("called `Interval::point` with non-finite value " ++ Text.plain.write x)
  | .midpointOfEmpty => some "called `Interval::mid` on an empty interval"
  | .notBisectable x =>
    some ("called `Interval::bisect` on an interval that cannot be split: " ++ x.toText)
  | .splitRatio r =>
    some ("called `Interval::bisect` with ratio " ++ Text.plain.write r ++ " outside (0, 1)")
  | .bisectorRatio r =>
    some ("called `LargestFirst::new` with ratio " ++ Text.plain.write r ++ " outside (0, 1)")
  | .nonFiniteCoefficient =>
    some "called `AffineFunction::new` with non-finite coefficients"
  | .supportVariable v n =>
    some ("called `ClosureFunction::with_support` with variable " ++ toString v ++
      " out of bounds for " ++ toString n ++ " variables")
  | .noCornerPolicy => some "called `CornerLinearizer::ensemble` without any policy"
  | .percentage p =>
    some ("called `CellDoubleHeap::new` with critpr " ++ toString p ++ ", expected at most 100")
  | .position => none
  | .storage => none
  | .drawRange => none
  | .budget => none

end BoxSearch
