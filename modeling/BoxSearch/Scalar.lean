/-!
# Endpoint arithmetic

Boxes, rows and costs are written over any type of numbers that offers the operations below:
a nearest arithmetic, a directed arithmetic for interval endpoints, two infinities and possibly
values that are not numbers. The nearest operations serve heuristics (midpoints, scores, sample
points) and the directed ones everything that has to be certified.

An exact arithmetic is the case in which every directed operation equals its nearest one and
`nextUp` and `nextDown` do nothing.
-/
set_option autoImplicit false

namespace BoxSearch

class Scalar (α : Type) extends
    Add α, Sub α, Mul α, Div α, Neg α, LT α, LE α, BEq α, OfScientific α where
  decideLt : DecidableLT α
  decideLe : DecidableLE α
  /-- The upper end of every interval that is not bounded above. -/
  infinity : α
  /-- The largest finite number, the representative of `[x, +∞]`. -/
  largest : α
  magnitude : α → α
  /-- The least number above a number, and `+∞` itself for `+∞`. -/
  nextUp : α → α
  /-- The greatest number below a number, and `-∞` itself for `-∞`. -/
  nextDown : α → α
  addDown : α → α → α
  addUp : α → α → α
  /-- A lower bound of the product, where zero times infinity is zero. -/
  mulDown : α → α → α
  /-- An upper bound of the product, where zero times infinity is zero. -/
  mulUp : α → α → α
  divDown : α → α → α
  divUp : α → α → α
  sqrt : α → α
  exp : α → α
  log : α → α
  /-- A total order of all values, those that are not numbers included. -/
  totalCompare : α → α → Ordering

namespace Scalar
variable {α : Type} [Scalar α]

instance decidableLt : DecidableLT α := decideLt

instance decidableLe : DecidableLE α := decideLe

def ofNat (n : Nat) : α := OfScientific.ofScientific n false 0

instance (priority := low) ofNatInstance {n : Nat} : OfNat α n := ⟨ofNat n⟩

/-- A value that differs from itself is not a number. -/
def isNaN (x : α) : Bool := !(x == x)

def isFinite (x : α) : Bool := decide (magnitude x < infinity)

/-- The smaller operand; an operand that is not a number gives way to the other. -/
def min (x y : α) : α := if y < x ∨ isNaN x then y else x

/-- The larger operand; an operand that is not a number gives way to the other. -/
def max (x y : α) : α := if x < y ∨ isNaN x then y else x

def clamp (lo hi x : α) : α := if x < lo then lo else if hi < x then hi else x

def subDown (x y : α) : α := addDown x (-y)

def subUp (x y : α) : α := addUp x (-y)

/-- One step towards `-∞`, where a value that is not a number falls to the bottom. -/
def stepDown (x : α) : α := if isNaN x then -infinity else nextDown x

def stepUp (x : α) : α := if isNaN x then infinity else nextUp x

end Scalar

end BoxSearch
