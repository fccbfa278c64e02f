import BoxSearch.Exchange.Datum
import BoxSearch.Model.Expression

/-!
# Described intervals, functions and problems

A number is given in decimal or by the digits of its bits, an interval by its bounds or its name,
an expression by an operation with its operands, and a problem by its functions.
-/
set_option autoImplicit false

namespace BoxSearch

/-! ## Numbers, intervals and boxes -/

def hexDigit (c : Char) : Nat :=
  if c.isDigit then c.toNat - '0'.toNat else c.toLower.toNat - 'a'.toNat + 10

def Binary64.ofHexText (s : String) : Float :=
  Float.ofBits ((s.toList.drop 2).foldl (fun acc c => acc * 16 + (hexDigit c).toUInt64) 0)

instance : FromDatum Float where
  read
    | .number mantissa places =>
      let x := Float.ofScientific mantissa.natAbs true places
      .ok (if mantissa < 0 then -x else x)
    | .real x => .ok x
    | .text "inf" => .ok Binary64.infinity
    | .text "-inf" => .ok (-Binary64.infinity)
    | .text "nan" => .ok (0 / 0)
    | .text s => .ok (Binary64.ofHexText s)
    | _ => .error (.malformed "a number")

instance : FromDatum (Interval Float) where
  read
    | .text "empty" => .ok .empty
    | .text "entire" => .ok .entire
    | d => do
      let bounds ← (read d : Reading (Float × Float))
      Interval.ofBounds bounds.1 bounds.2

instance : ToDatum (Interval Float) where
  datum x := if x.isEmpty then .text "empty" else .list [datum x.lo, datum x.hi]

instance : FromDatum (Box Float) where
  read d := return ⟨← read d⟩

instance : ToDatum (Box Float) := ⟨fun b => datum b.components⟩

/-! ## Functions -/

def binaryOperation? (op : String) :
    Option (Expression Float → Expression Float → Expression Float) :=
  match op with
  | "add" => some .add
  | "sub" => some .sub
  | "mul" => some .mul
  | "div" => some .div
  | "min" => some .min
  | "max" => some .max
  | "and" => some .intersect
  | "or" => some .hull
  | _ => none

def scalarOperation? (op : String) : Option (Expression Float → Float → Expression Float) :=
  match op with
  | "addf" => some .addScalar
  | "subf" => some .subScalar
  | "mulf" => some .mulScalar
  | _ => none

def unaryOperation? (op : String) : Option (Expression Float → Expression Float) :=
  match op with
  | "neg" => some .neg
  | "sqr" => some .sqr
  | "sqrt" => some .sqrt
  | "exp" => some .exp
  | "ln" => some .log
  | "abs" => some .abs
  | _ => none

mutual

def readExpression : Datum → Reading (Expression Float)
  | .list [.text "x", j] => return .coordinate (← read j)
  | .list [.text "c", v] => return .literal (← Interval.point (← (read v : Reading Float)))
  | .list [.text "iv", x] => return .literal (← read x)
  | .list (.text "sum" :: es) => return .sum (← readExpressions es)
  | .list [.text op, e] => do
    match unaryOperation? op with
    | some f => return f (← readExpression e)
    | none => throw (.malformed "an expression")
  | .list [.text "powi", e, n] => return .pow (← readExpression e) (← read n)
  | .list [.text op, e, d] => do
    match binaryOperation? op, scalarOperation? op with
    | some f, _ => return f (← readExpression e) (← readExpression d)
    | none, some f => return f (← readExpression e) (← read d)
    | none, none => throw (.malformed "an expression")
  | _ => throw (.malformed "an expression")

def readExpressions : List Datum → Reading (List (Expression Float))
  | [] => return []
  | d :: ds => do
    let e ← readExpression d
    return e :: (← readExpressions ds)

end

inductive GivenFunction where
  | affine (f : Affine Float)
  | enclosed (f : Enclosed Float)

def GivenFunction.evaluator : GivenFunction → Evaluator Float
  | affine f => f.evaluator
  | enclosed f => f.evaluator

def readEnclosed (d : Datum) : Reading (Enclosed Float) := do
  let arity ← (d.get "n" : Reading Nat)
  let value ← readExpression (← d.get "eval")
  let slopes ← readExpressions (← d.get "grad")
  let f := Expression.function arity value slopes
  let f := { f with isLinear := ← d.getD "linear" f.isLinear }
  match ← (d.get "support" : Reading (Option (List Nat))) with
  | some vars => f.withSupport vars
  | none => return f

instance : FromDatum GivenFunction where
  read d := do
    match d.field? "affine", d.field? "variable" with
    | some coeffs, _ =>
      return .affine (← Affine.ofCoeffs (← (read coeffs : Reading (List Float))) (← d.get "c"))
    | none, some v =>
      let (arity, var) ← (read v : Reading (Nat × Nat))
      return .affine (← (Affine.projection arity var : Checked Float (Affine Float)))
    | none, none => return .enclosed (← readEnclosed d)

instance : FromDatum (Evaluator Float) where
  read d := return (← (read d : Reading GivenFunction)).evaluator

/-! ## Problems -/

instance : FromDatum Comparison where
  read
    | .text "<=" => .ok .le
    | .text ">=" => .ok .ge
    | .text "=" => .ok .eq
    | _ => .error (.malformed "a comparison")

def Problem.addDescribed (p : Problem Float) (d : Datum) : Reading (Problem Float) := do
  let (f, op) ← (read d : Reading (Evaluator Float × Comparison))
  p.addConstraint f op

instance : FromDatum (Problem Float) where
  read d := do
    let p : Problem Float := .unconstrained (← d.get "n")
    let p ←
      match ← (d.get "objective" : Reading (Option (Evaluator Float))) with
      | some f => (p.minimize f : Except ModelError (Problem Float))
      | none => pure p
    (← d.getD "constraints" []).foldlM Problem.addDescribed p

end BoxSearch
