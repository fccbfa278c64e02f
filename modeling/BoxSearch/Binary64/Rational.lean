import BoxSearch.Binary64.Basic

/-!
# Binary64 numbers and rationals

Every finite binary64 number is a rational, and every rational has a nearest binary64 number.
-/
set_option autoImplicit false

namespace BoxSearch.Binary64

def toRat (x : Float) : Rat :=
  let s := Scaled.ofFloat x
  mkRat (s.mantissa * Int.ofNat (Nat.pow 2 s.exponent.toNat)) (Nat.pow 2 (-s.exponent).toNat)

/-- The nearest number, halves going to the even mantissa. The quotient is cut behind at least
66 digits, and one more digit tells whether anything was cut off. -/
def ofRat (x : Rat) : Float :=
  let n := x.num.natAbs
  let shift : Int := 66 + Int.ofNat x.den.log2 - Int.ofNat n.log2
  let numerator := n * Nat.pow 2 shift.toNat
  let denominator := x.den * Nat.pow 2 (-shift).toNat
  let rest := if numerator % denominator = 0 then 0 else 1
  let digits := Int.ofNat (2 * (numerator / denominator) + rest)
  if n = 0 then 0
  else Scaled.round ⟨if x.num < 0 then -digits else digits, -shift - 1⟩

end BoxSearch.Binary64
