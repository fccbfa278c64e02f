import BoxSearch.Scalar
import BoxSearch.Binary64.Basic

/-!
# Directed rounding of binary64 operations

The rounding mode of the processor is never touched. A sum or product is computed to nearest,
and steps one number outward only when it lies on the wrong side of the exact value: a sum by its
recovered rounding error, a product by an exact comparison. Quotients always step.
-/
set_option autoImplicit false

namespace BoxSearch.Binary64

/-- Products below this magnitude may have lost bits to gradual underflow and always step. -/
def underflowGuard : Float := 1e-290

def stepDown (x : Float) : Float := if x.isNaN then -infinity else nextDown x

def stepUp (x : Float) : Float := if x.isNaN then infinity else nextUp x

/-- The rounding error of the sum `s` of `a` and `b`, exact when no step overflows. -/
def sumError (a b s : Float) : Float :=
  let b' := s - a
  (a - (s - b')) + (b - b')

def addDown (a b : Float) : Float :=
  let s := a + b
  if !s.isFinite then
    let d := stepDown s
    if s < d then s else d
  else if sumError a b s < 0 then nextDown s
  else s

def addUp (a b : Float) : Float :=
  let s := a + b
  if !s.isFinite then
    let u := stepUp s
    if u < s then s else u
  else if 0 < sumError a b s then nextUp s
  else s

def mulDown (a b : Float) : Float :=
  if a == 0 || b == 0 then 0
  else
    let p := a * b
    if !p.isFinite || p.abs < underflowGuard then stepDown p
    else if compareProduct a b p = .lt then nextDown p
    else p

def mulUp (a b : Float) : Float :=
  if a == 0 || b == 0 then 0
  else
    let p := a * b
    if !p.isFinite || p.abs < underflowGuard then stepUp p
    else if compareProduct a b p = .gt then nextUp p
    else p

def divDown (a b : Float) : Float := if a == 0 then 0 else stepDown (a / b)

def divUp (a b : Float) : Float := if a == 0 then 0 else stepUp (a / b)

instance : Scalar Float where
  decideLt := inferInstance
  decideLe := inferInstance
  infinity := infinity
  largest := largest
  magnitude := Float.abs
  nextUp := nextUp
  nextDown := nextDown
  addDown := addDown
  addUp := addUp
  mulDown := mulDown
  mulUp := mulUp
  divDown := divDown
  divUp := divUp
  sqrt := Float.sqrt
  exp := Float.exp
  log := Float.log
  totalCompare := totalCompare

end BoxSearch.Binary64
