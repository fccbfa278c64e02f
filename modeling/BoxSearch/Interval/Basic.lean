import BoxSearch.Scalar

/-!
# Intervals

An interval `[lo, hi]` holds the reals between two endpoints, either of which may be infinite.
The interval without points has one stored form, `[+∞, -∞]`. Every arithmetic operation rounds
outward, so its result holds the exact result for all choices of points in its operands; a pair
of computed bounds that describes no set of reals becomes the empty interval.
-/
set_option autoImplicit false

namespace BoxSearch

structure Interval (α : Type) where
  lo : α
  hi : α

namespace Interval
variable {α : Type} [Scalar α]

instance : BEq (Interval α) := ⟨fun x y => x.lo == y.lo && x.hi == y.hi⟩

def empty : Interval α := ⟨Scalar.infinity, -Scalar.infinity⟩

def entire : Interval α := ⟨-Scalar.infinity, Scalar.infinity⟩

def zero : Interval α := ⟨0, 0⟩

def one : Interval α := ⟨1, 1⟩

/-- The interval with the given bounds, if some real lies between them. -/
def ofBounds? (lo hi : α) : Option (Interval α) :=
  if Scalar.isNaN lo || Scalar.isNaN hi || decide (hi < lo) || lo == Scalar.infinity ||
      hi == -Scalar.infinity then none
  else some ⟨lo, hi⟩

/-- Computed bounds as an interval: empty when they describe no set of reals. -/
def normalized (lo hi : α) : Interval α := (ofBounds? lo hi).getD empty

def isEmpty (x : Interval α) : Bool := decide (x.hi < x.lo)

def isDegenerate (x : Interval α) : Bool := x.lo == x.hi

def isZero (x : Interval α) : Bool := x.lo == 0 && x.hi == 0

def isBisectable (x : Interval α) : Bool := !x.isEmpty && decide (Scalar.nextUp x.lo < x.hi)

def isUnbounded (x : Interval α) : Bool :=
  !x.isEmpty && (x.lo == -Scalar.infinity || x.hi == Scalar.infinity)

def contains (x : Interval α) (p : α) : Bool := decide (x.lo ≤ p) && decide (p ≤ x.hi)

def isSubset (x y : Interval α) : Bool :=
  x.isEmpty || (decide (y.lo ≤ x.lo) && decide (x.hi ≤ y.hi))

/-- `x` lies in the interior of `y`, whose infinite bounds count as interior. -/
def isInteriorSubset (x y : Interval α) : Bool :=
  x.isEmpty ||
    ((y.lo == -Scalar.infinity || decide (y.lo < x.lo)) &&
      (y.hi == Scalar.infinity || decide (x.hi < y.hi)))

def intersects (x y : Interval α) : Bool :=
  !x.isEmpty && !y.isEmpty && decide (x.lo ≤ y.hi) && decide (y.lo ≤ x.hi)

def intersect (x y : Interval α) : Interval α :=
  if x.isEmpty || y.isEmpty then empty
  else normalized (Scalar.max x.lo y.lo) (Scalar.min x.hi y.hi)

def hull (x y : Interval α) : Interval α :=
  if x.isEmpty then y
  else if y.isEmpty then x
  else ⟨Scalar.min x.lo y.lo, Scalar.max x.hi y.hi⟩

/-- An upper bound of the width, zero for the empty interval. -/
def width (x : Interval α) : α := if x.isEmpty then 0 else Scalar.subUp x.hi x.lo

def radius (x : Interval α) : α := Scalar.stepUp (0.5 * x.width)

def mag (x : Interval α) : α :=
  if x.isEmpty then 0 else Scalar.max (Scalar.magnitude x.lo) (Scalar.magnitude x.hi)

def mig (x : Interval α) : α :=
  if x.isEmpty || x.contains 0 then 0
  else Scalar.min (Scalar.magnitude x.lo) (Scalar.magnitude x.hi)

/-- The share of the width of `before` that `now` has lost, between zero and one. Becoming
bounded loses everything. -/
def relativeReduction (now before : Interval α) : α :=
  if now.isEmpty then 1
  else if before.width == Scalar.infinity then
    if now.width == Scalar.infinity then 0 else 1
  else if before.width ≤ 0 then 0
  else Scalar.clamp 0 1 (1 - now.width / before.width)

def neg (x : Interval α) : Interval α := if x.isEmpty then empty else ⟨-x.hi, -x.lo⟩

def add (x y : Interval α) : Interval α :=
  if x.isEmpty || y.isEmpty then empty
  else normalized (Scalar.addDown x.lo y.lo) (Scalar.addUp x.hi y.hi)

def sub (x y : Interval α) : Interval α :=
  if x.isEmpty || y.isEmpty then empty
  else normalized (Scalar.subDown x.lo y.hi) (Scalar.subUp x.hi y.lo)

def corners (x y : Interval α) : List (α × α) :=
  [(x.lo, y.lo), (x.lo, y.hi), (x.hi, y.lo), (x.hi, y.hi)]

def overCorners (down up : α → α → α) (x y : Interval α) : Interval α :=
  let pairs := corners x y
  normalized
    (pairs.foldl (fun acc p => Scalar.min acc (down p.1 p.2)) Scalar.infinity)
    (pairs.foldl (fun acc p => Scalar.max acc (up p.1 p.2)) (-Scalar.infinity))

def mul (x y : Interval α) : Interval α :=
  if x.isEmpty || y.isEmpty then empty else overCorners Scalar.mulDown Scalar.mulUp x y

/-- A divisor that holds zero gives the whole line, and the divisor `[0, 0]` gives nothing. -/
def div (x y : Interval α) : Interval α :=
  if x.isEmpty || y.isEmpty then empty
  else if y.isZero then empty
  else if y.contains 0 then entire
  else overCorners Scalar.divDown Scalar.divUp x y

instance : Neg (Interval α) := ⟨neg⟩
instance : Add (Interval α) := ⟨add⟩
instance : Sub (Interval α) := ⟨sub⟩
instance : Mul (Interval α) := ⟨mul⟩
instance : Div (Interval α) := ⟨div⟩

def sum (xs : List (Interval α)) : Interval α := xs.foldl (· + ·) zero

def sqr (x : Interval α) : Interval α :=
  if x.isEmpty then empty
  else if 0 ≤ x.lo then normalized (Scalar.mulDown x.lo x.lo) (Scalar.mulUp x.hi x.hi)
  else if x.hi ≤ 0 then normalized (Scalar.mulDown x.hi x.hi) (Scalar.mulUp x.lo x.lo)
  else normalized 0 (Scalar.mulUp x.mag x.mag)

def abs (x : Interval α) : Interval α := if x.isEmpty then empty else normalized x.mig x.mag

def powDown (x acc : α) : Nat → α
  | 0 => acc
  | n + 1 => powDown x (Scalar.mulDown acc x) n

def powUp (x acc : α) : Nat → α
  | 0 => acc
  | n + 1 => powUp x (Scalar.mulUp acc x) n

def pow (x : Interval α) (n : Nat) : Interval α :=
  if x.isEmpty then empty
  else if n = 0 then one
  else if n = 1 then x
  else if n = 2 then x.sqr
  else if n % 2 = 0 then
    normalized (Scalar.max (powDown x.abs.lo 1 n) 0) (powUp x.abs.hi 1 n)
  else
    normalized
      (if 0 ≤ x.lo then powDown x.lo 1 n else -powUp (-x.lo) 1 n)
      (if 0 ≤ x.hi then powUp x.hi 1 n else -powDown (-x.hi) 1 n)

/-- The square root of the points that have one. -/
def sqrt (x : Interval α) : Interval α :=
  let y := x.intersect ⟨0, Scalar.infinity⟩
  if y.isEmpty then empty
  else
    normalized (Scalar.max (Scalar.stepDown (Scalar.sqrt y.lo)) 0)
      (Scalar.stepUp (Scalar.sqrt y.hi))

def exp (x : Interval α) : Interval α :=
  if x.isEmpty then empty
  else
    normalized (Scalar.max (Scalar.stepDown (Scalar.exp x.lo)) 0)
      (Scalar.stepUp (Scalar.exp x.hi))

/-- The natural logarithm of the points that have one. -/
def log (x : Interval α) : Interval α :=
  if x.isEmpty || decide (x.hi ≤ 0) then empty
  else
    normalized (if x.lo ≤ 0 then -Scalar.infinity else Scalar.stepDown (Scalar.log x.lo))
      (Scalar.stepUp (Scalar.log x.hi))

def min (x y : Interval α) : Interval α :=
  if x.isEmpty || y.isEmpty then empty
  else normalized (Scalar.min x.lo y.lo) (Scalar.min x.hi y.hi)

def max (x y : Interval α) : Interval α :=
  if x.isEmpty || y.isEmpty then empty
  else normalized (Scalar.max x.lo y.lo) (Scalar.max x.hi y.hi)

end Interval

end BoxSearch
